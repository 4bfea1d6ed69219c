import DepotDownloader.Steam.Messages
import DepotDownloader.Steam.Sealing

/-! # The session cipher

Packets are AES-256-CBC encrypted under the session key. The initialisation
vector carries three random bytes and a prefix of the HMAC-SHA1 of these bytes
and the plaintext, so a packet that decrypts has also been authenticated.
-/

namespace DepotDownloader.Steam

open Foundation

/-- The key of the session. Its first 16 bytes are the HMAC key. -/
structure SessionCipher where
  sessionKey : DepotKey

namespace SessionCipher

def hmacIvBytes : Nat := 13

/-- `HMAC-SHA1(random || plaintext)[0..13] || random`. -/
def buildIv (codecs : WireCodecs) (cipher : SessionCipher) (random plaintext : Bytes) : Bytes :=
  (codecs.hmacSha1 (cipher.sessionKey.bytes.toList.take 16) (random ++ plaintext)).take
    hmacIvBytes ++ random

def decrypt (codecs : WireCodecs) (cipher : SessionCipher) (data : Bytes) :
    Except CryptoError Bytes :=
  if data.length < 32 then .error .decryptionFailed
  else
    let iv := codecs.aes cipher.sessionKey (data.take 16)
    match decryptPaddedVec codecs.aes cipher.sessionKey iv (data.drop 16) with
    | none => .error .invalidPadding
    | some plaintext =>
        let expectedIv := buildIv codecs cipher (iv.drop hmacIvBytes) plaintext
        if expectedIv.take hmacIvBytes ≠ iv.take hmacIvBytes then .error .decryptionFailed
        else .ok plaintext

/-- The IV is ECB-encrypted, the plaintext CBC-encrypted under it. -/
def encrypt (codecs : WireCodecs) (sealBlock : Aes256) (cipher : SessionCipher)
    (random : Vector UInt8 3) (plaintext : Bytes) : Bytes :=
  let iv := buildIv codecs cipher random.toList plaintext
  symmetricEncryptEcb sealBlock cipher.sessionKey iv plaintext

section Exact

variable {codecs : WireCodecs} {sealBlock : Aes256} {cipher : SessionCipher}

theorem length_buildIv (hhmac : ∀ key data, (codecs.hmacSha1 key data).length = 20)
    (random : Vector UInt8 3) (plaintext : Bytes) :
    (buildIv codecs cipher random.toList plaintext).length = 16 := by
  simp [buildIv, hmacIvBytes, hhmac]

theorem decrypt_encrypt (haes : AesInverse sealBlock codecs.aes)
    (hhmac : ∀ key data, (codecs.hmacSha1 key data).length = 20)
    (random : Vector UInt8 3) (plaintext : Bytes) :
    decrypt codecs cipher (encrypt codecs sealBlock cipher random plaintext) = .ok plaintext := by
  have hiv : (buildIv codecs cipher random.toList plaintext).length = 16 :=
    length_buildIv hhmac random plaintext
  have hsealed := haes.length_encrypt cipher.sessionKey _ hiv
  have hbody := length_encryptPaddedVec haes hiv cipher.sessionKey plaintext
  have hlead : ((codecs.hmacSha1 (cipher.sessionKey.bytes.toList.take 16)
      (random.toList ++ plaintext)).take hmacIvBytes).length = hmacIvBytes := by
    simp [hhmac, hmacIvBytes]
  have hrandom : (buildIv codecs cipher random.toList plaintext).drop hmacIvBytes =
      random.toList := by
    rw [buildIv, List.drop_left' hlead]
  unfold decrypt encrypt symmetricEncryptEcb
  simp only
  rw [if_neg (by rw [List.length_append]; omega), List.take_left' hsealed, List.drop_left' hsealed,
    haes.decrypt_encrypt _ _ hiv, (decryptPaddedVec_eq_some haes hiv).mpr rfl]
  simp only [hrandom]
  rw [if_neg (by simp)]

/-- Only what was encrypted decrypts. -/
theorem encrypt_of_decrypt (haes : AesInverse sealBlock codecs.aes)
    (hhmac : ∀ key data, (codecs.hmacSha1 key data).length = 20) {data plaintext : Bytes}
    (hdecrypt : decrypt codecs cipher data = .ok plaintext) :
    ∃ random, encrypt codecs sealBlock cipher random plaintext = data := by
  unfold decrypt at hdecrypt
  split at hdecrypt
  next => cases hdecrypt
  next hlong =>
    have htake : (data.take 16).length = 16 := by
      rw [List.length_take]
      omega
    have hiv := haes.length_decrypt cipher.sessionKey _ htake
    simp only at hdecrypt
    generalize hopened : codecs.aes cipher.sessionKey (data.take 16) = iv at hdecrypt hiv
    split at hdecrypt
    next => cases hdecrypt
    next found hfound =>
      split at hdecrypt
      next => cases hdecrypt
      next hmac =>
        cases hdecrypt
        have hbody := (decryptPaddedVec_eq_some haes hiv).mp hfound
        have hthree : (iv.drop hmacIvBytes).length = 3 := by
          rw [List.length_drop, hiv]
          rfl
        have hbuilt : buildIv codecs cipher (iv.drop hmacIvBytes) plaintext = iv := by
          have hlead : ((codecs.hmacSha1 (cipher.sessionKey.bytes.toList.take 16)
              (iv.drop hmacIvBytes ++ plaintext)).take hmacIvBytes).length = hmacIvBytes := by
            simp [hhmac, hmacIvBytes]
          have hsame := not_not.mp hmac
          rw [buildIv, List.take_left' hlead] at hsame
          rw [buildIv, hsame, List.take_append_drop]
        refine ⟨⟨(iv.drop hmacIvBytes).toArray, by simpa using hthree⟩, ?_⟩
        have hrandom : (⟨(iv.drop hmacIvBytes).toArray, by simpa using hthree⟩ :
            Vector UInt8 3).toList = iv.drop hmacIvBytes := by
          simp [Vector.toList]
        unfold encrypt symmetricEncryptEcb
        simp only [hrandom]
        rw [hbuilt, ← hbody, ← hopened, haes.encrypt_decrypt _ _ htake, List.take_append_drop]

/-- The session cipher decrypts exactly what it encrypts: a packet decrypts to a
plaintext if and only if some random bytes encrypt the plaintext to that packet,
and every plaintext, under any random bytes, comes back. -/
theorem decrypt_exact (haes : AesInverse sealBlock codecs.aes)
    (hhmac : ∀ key data, (codecs.hmacSha1 key data).length = 20) :
    (∀ data plaintext, decrypt codecs cipher data = .ok plaintext ↔
      ∃ random, encrypt codecs sealBlock cipher random plaintext = data) ∧
    ∀ random plaintext,
      decrypt codecs cipher (encrypt codecs sealBlock cipher random plaintext) = .ok plaintext := by
  refine ⟨fun data plaintext => ⟨encrypt_of_decrypt haes hhmac, ?_⟩,
    fun random plaintext => decrypt_encrypt haes hhmac random plaintext⟩
  rintro ⟨random, rfl⟩
  exact decrypt_encrypt haes hhmac random plaintext

end Exact

/-- The two blocks that AES-256 encrypts under the zero key for the packet of the
plaintext `hi` and the random bytes 1, 2, 3. -/
def packetBlocks : List (Bytes × Bytes) :=
  [([239, 123, 79, 41, 190, 229, 194, 253, 211, 1, 247, 208, 82, 1, 2, 3],
    [63, 25, 214, 165, 238, 18, 101, 206, 245, 177, 84, 156, 137, 63, 75, 177]),
  ([135, 18, 65, 39, 176, 235, 204, 243, 221, 15, 249, 222, 92, 15, 12, 13],
    [150, 90, 60, 199, 241, 217, 142, 68, 57, 210, 6, 211, 31, 136, 25, 64])]

/-- HMAC-SHA1 under the zero key, on the message of that packet. -/
def packetCodecs : WireCodecs where
  aes := tableAes packetBlocks.reverse
  hmacSha1 := fun _ message =>
    if message = [1, 2, 3, 104, 105] then
      [239, 123, 79, 41, 190, 229, 194, 253, 211, 1, 247, 208, 82, 5, 88, 232, 126, 209, 150, 206]
    else List.replicate 20 0
  gunzip := fun _ => none
  decodeHeader := fun _ => none
  decodeMulti := fun _ => none
  decodeDepotKeyResponse := fun _ => none
  encodeDepotKeyRequest := fun _ => []

theorem decrypt_exact_sample :
    decrypt packetCodecs ⟨⟨.replicate 32 0⟩⟩
        [63, 25, 214, 165, 238, 18, 101, 206, 245, 177, 84, 156, 137, 63, 75, 177, 150, 90, 60,
          199, 241, 217, 142, 68, 57, 210, 6, 211, 31, 136, 25, 64] = .ok [104, 105] ∧
      encrypt packetCodecs (tableAes packetBlocks) ⟨⟨.replicate 32 0⟩⟩ #v[1, 2, 3] [104, 105] =
        [63, 25, 214, 165, 238, 18, 101, 206, 245, 177, 84, 156, 137, 63, 75, 177, 150, 90, 60,
          199, 241, 217, 142, 68, 57, 210, 6, 211, 31, 136, 25, 64] := by
  have haes : AesInverse (tableAes packetBlocks) packetCodecs.aes :=
    tableAes_inverse (by decide)
  have hhmac : ∀ key data, (packetCodecs.hmacSha1 key data).length = 20 := by
    intro key data
    simp only [packetCodecs]
    split <;> rfl
  have hencrypt : encrypt packetCodecs (tableAes packetBlocks) ⟨⟨.replicate 32 0⟩⟩ #v[1, 2, 3]
      [104, 105] =
        [63, 25, 214, 165, 238, 18, 101, 206, 245, 177, 84, 156, 137, 63, 75, 177, 150, 90, 60,
          199, 241, 217, 142, 68, 57, 210, 6, 211, 31, 136, 25, 64] := by decide
  exact ⟨((decrypt_exact haes hhmac).1 _ _).mpr ⟨_, hencrypt⟩, hencrypt⟩

end SessionCipher

end DepotDownloader.Steam
