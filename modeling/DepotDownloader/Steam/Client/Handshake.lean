import DepotDownloader.Steam.Client.PacketAgreement
import DepotDownloader.Steam.Client.Routing

/-! # The channel encryption handshake

The server opens a connection with a challenge. The client draws a session key,
encrypts it and the challenge under the public key of the server and sends both
back. Once the server has confirmed, packets go through the session cipher.
-/

namespace DepotDownloader.Steam

open Foundation WireInt

namespace EMsg

def clientHeartBeat : EMsg := ⟨703⟩
def clientLogOnResponse : EMsg := ⟨751⟩
def channelEncryptRequest : EMsg := ⟨1303⟩
def channelEncryptResponse : EMsg := ⟨1304⟩
def channelEncryptResult : EMsg := ⟨1305⟩
def clientCheckAppBetaPassword : EMsg := ⟨5450⟩
def clientCheckAppBetaPasswordResponse : EMsg := ⟨5451⟩
def clientPicsProductInfoRequest : EMsg := ⟨8903⟩
def clientPicsProductInfoResponse : EMsg := ⟨8904⟩
def clientPicsAccessTokenRequest : EMsg := ⟨8905⟩
def clientPicsAccessTokenResponse : EMsg := ⟨8906⟩
def serviceMethodCallFromClientNonAuthed : EMsg := ⟨9804⟩
def clientHello : EMsg := ⟨9805⟩

end EMsg

/-- Steam client protocol version, sent in ClientHello. -/
def protocolVersion : UInt32 := 65581

/-- The errors of a session: those of a call, and those of the handshake and the login. -/
inductive SessionError where
  | client (error : ClientError)
  | unexpectedEMsg (expected actual : EMsg)
  | encryptionFailed (error : EResultError)
  | logonFailed (error : EResultError)
  | rsa
  deriving DecidableEq, Repr

/-- The libraries that the handshake calls: RSA under Valve's public key, with the
random bytes of its padding, and CRC-32. -/
structure HandshakeCodecs where
  encryptWithSteamPublicKey : Bytes → Bytes → Option Bytes
  crc32 : Bytes → UInt32

namespace Handshake

/-- `MsgHdr::parse(..).map_err(ConnectionError::Parse)`. -/
def parseHdr (packet : Bytes) : Except SessionError (Messages.MsgHdr × Bytes) :=
  (Messages.MsgHdr.parse packet).mapError fun _ => .client .unexpectedEof

def readU32Le (reader : Bytes) : Except SessionError (UInt32 × Bytes) :=
  (u32.read reader).elim (.error (.client .unexpectedEof)) .ok

/-- The challenge of the server's request. -/
def readRequest (packet : Bytes) : Except SessionError Bytes := do
  let (hdr, reader) ← parseHdr packet
  if hdr.emsg ≠ .channelEncryptRequest then
    throw (.unexpectedEMsg .channelEncryptRequest hdr.emsg)
  if reader.length < 8 then
    throw (.client (.packetTooShort (Messages.MsgHdr.size + 8) packet.length))
  let (_protocolVersion, reader) ← readU32Le reader
  let (_universe, reader) ← readU32Le reader
  return reader

def rsa1024OutputSize : UInt32 := 128

def buildEncryptResponse (codecs : HandshakeCodecs) (hdr : Messages.MsgHdr)
    (encryptedKey : Bytes) : Bytes :=
  hdr.writeTo ++ u32.write 1 ++ u32.write rsa1024OutputSize ++ encryptedKey ++
    u32.write (codecs.crc32 encryptedKey) ++ u32.write 0

/-- The header of the response names no job. -/
def responseHdr : Messages.MsgHdr := ⟨.channelEncryptResponse, .ofNat (2 ^ 64 - 1),
  .ofNat (2 ^ 64 - 1)⟩

/-- The answer to the request: the session key and the challenge, encrypted. -/
def respond (codecs : HandshakeCodecs) (sessionKey : DepotKey) (padding packet : Bytes) :
    Except SessionError Bytes := do
  let challenge ← readRequest packet
  let blob := sessionKey.bytes.toList ++ challenge
  match codecs.encryptWithSteamPublicKey padding blob with
  | none => throw .rsa
  | some encryptedKey => return buildEncryptResponse codecs responseHdr encryptedKey

/-- The server's verdict. -/
def readResult (packet : Bytes) : Except SessionError Unit := do
  let (hdr, reader) ← parseHdr packet
  if hdr.emsg ≠ .channelEncryptResult then
    throw (.unexpectedEMsg .channelEncryptResult hdr.emsg)
  let (eresult, _) ← readU32Le reader
  (EResultError.fromI32 eresult.toInt32.toInt).mapError .encryptionFailed

/-- What stands in a response that is laid out as the client builds it. -/
def readResponse (codecs : HandshakeCodecs) (packet : Bytes) : Option Bytes := do
  let (hdr, reader) ← (Messages.MsgHdr.parse packet).toOption
  if hdr.emsg = .channelEncryptResponse then
    let (_version, reader) ← u32.read reader
    let (size, reader) ← u32.read reader
    let (encryptedKey, reader) ← readBytes size.toNat reader
    let (crc, _) ← u32.read reader
    if crc = codecs.crc32 encryptedKey then return encryptedKey else none
  else none

/-- What the holder of the private key gets out of a response: the session key and the
challenge. -/
def openResponse (codecs : HandshakeCodecs) (decryptKey : Bytes → Option Bytes)
    (packet : Bytes) : Option (DepotKey × Bytes) := do
  let encryptedKey ← readResponse codecs packet
  let blob ← decryptKey encryptedKey
  if hlength : (blob.take 32).toArray.size = 32 then
    return (⟨⟨(blob.take 32).toArray, hlength⟩⟩, blob.drop 32)
  else none

/-- RSA with a key of 1024 bits: the private key undoes the public key, and what is
encrypted has 128 bytes. -/
structure RsaInverse (codecs : HandshakeCodecs) (decryptKey : Bytes → Option Bytes) : Prop where
  decrypt_encrypt : ∀ padding blob encryptedKey,
    codecs.encryptWithSteamPublicKey padding blob = some encryptedKey →
      decryptKey encryptedKey = some blob
  length_encrypt : ∀ padding blob encryptedKey,
    codecs.encryptWithSteamPublicKey padding blob = some encryptedKey →
      encryptedKey.length = 128

section Parse

variable {packet challenge : Bytes} {hdr : Messages.MsgHdr} {reader : Bytes}

theorem parseHdr_ok :
    parseHdr packet = .ok (hdr, reader) ↔ Messages.MsgHdr.parse packet = .ok (hdr, reader) := by
  unfold parseHdr
  cases Messages.MsgHdr.parse packet <;> simp [Except.mapError]

theorem readU32Le_ok {value : UInt32} {rest : Bytes} :
    readU32Le reader = .ok (value, rest) ↔ reader = u32.write value ++ rest := by
  unfold readU32Le
  rw [← u32.read_eq_some]
  cases u32.read reader <;> simp

/-- A request is accepted when its message number is right and version and universe are
there. What is left is the challenge. -/
theorem readRequest_ok : readRequest packet = .ok challenge ↔
    ∃ hdr version realm, Messages.MsgHdr.parse packet =
        .ok (hdr, u32.write version ++ (u32.write realm ++ challenge)) ∧
      hdr.emsg = .channelEncryptRequest := by
  unfold readRequest
  rw [bind_eq_ok]
  constructor
  · rintro ⟨⟨hdr, reader⟩, hparse, hrest⟩
    simp only at hrest
    split at hrest
    next => cases hrest
    next hemsg =>
      split at hrest
      next => cases hrest
      next =>
        obtain ⟨⟨version, afterVersion⟩, hversion, hrest⟩ := bind_eq_ok.mp hrest
        obtain ⟨⟨realm, afterRealm⟩, hrealm, hrest⟩ := bind_eq_ok.mp hrest
        cases hrest
        obtain rfl := readU32Le_ok.mp hversion
        obtain rfl := readU32Le_ok.mp hrealm
        exact ⟨hdr, version, realm, parseHdr_ok.mp hparse, not_not.mp hemsg⟩
  · rintro ⟨hdr, version, realm, hparse, hemsg⟩
    refine ⟨_, parseHdr_ok.mpr hparse, ?_⟩
    simp only [hemsg, ne_eq, not_true_eq_false, if_false]
    rw [if_neg (by simp [u32]; omega)]
    exact bind_eq_ok.mpr ⟨_, readU32Le_ok.mpr rfl, bind_eq_ok.mpr ⟨_, readU32Le_ok.mpr rfl, rfl⟩⟩

theorem toInt32_toInt_eq_one {eresult : UInt32} : eresult.toInt32.toInt = 1 ↔ eresult = 1 := by
  constructor
  · intro hone
    have hword : eresult.toInt32 = (1 : UInt32).toInt32 := Int32.toInt_inj.mp hone
    exact congrArg Int32.toUInt32 hword
  · rintro rfl
    rfl

/-- The only confirmation is the result code of success. -/
theorem readResult_ok : readResult packet = .ok () ↔
    ∃ hdr rest, Messages.MsgHdr.parse packet = .ok (hdr, u32.write 1 ++ rest) ∧
      hdr.emsg = .channelEncryptResult := by
  unfold readResult
  rw [bind_eq_ok]
  constructor
  · rintro ⟨⟨hdr, reader⟩, hparse, hrest⟩
    simp only at hrest
    split at hrest
    next => cases hrest
    next hemsg =>
      obtain ⟨⟨eresult, rest⟩, heresult, hverdict⟩ := bind_eq_ok.mp hrest
      obtain rfl := readU32Le_ok.mp heresult
      have hok : EResultError.fromI32 eresult.toInt32.toInt = .ok () := by
        simp only at hverdict
        cases hresult : EResultError.fromI32 eresult.toInt32.toInt with
        | error error =>
            rw [hresult] at hverdict
            cases hverdict
        | ok => rfl
      rw [EResultError.fromI32_eq_ok, toInt32_toInt_eq_one] at hok
      exact ⟨hdr, rest, hok ▸ parseHdr_ok.mp hparse, not_not.mp hemsg⟩
  · rintro ⟨hdr, rest, hparse, hemsg⟩
    refine ⟨_, parseHdr_ok.mpr hparse, ?_⟩
    simp only [hemsg, ne_eq, not_true_eq_false, if_false]
    exact bind_eq_ok.mpr ⟨_, readU32Le_ok.mpr rfl, rfl⟩

theorem respond_ok {codecs : HandshakeCodecs} {sessionKey : DepotKey} {padding response : Bytes} :
    respond codecs sessionKey padding packet = .ok response ↔
      ∃ challenge encryptedKey, readRequest packet = .ok challenge ∧
        codecs.encryptWithSteamPublicKey padding (sessionKey.bytes.toList ++ challenge) =
          some encryptedKey ∧
        response = buildEncryptResponse codecs responseHdr encryptedKey := by
  unfold respond
  rw [bind_eq_ok]
  constructor
  · rintro ⟨challenge, hrequest, hrest⟩
    simp only at hrest
    split at hrest
    next => cases hrest
    next encryptedKey hencrypt =>
      cases hrest
      exact ⟨challenge, encryptedKey, hrequest, hencrypt, rfl⟩
  · rintro ⟨challenge, encryptedKey, hrequest, hencrypt, rfl⟩
    refine ⟨challenge, hrequest, ?_⟩
    simp only [hencrypt]
    rfl

theorem readResponse_build (codecs : HandshakeCodecs) {encryptedKey : Bytes}
    (hlength : encryptedKey.length = 128) :
    readResponse codecs (buildEncryptResponse codecs responseHdr encryptedKey) =
      some encryptedKey := by
  have hparse : Messages.MsgHdr.parse (buildEncryptResponse codecs responseHdr encryptedKey) =
      .ok (responseHdr, u32.write 1 ++ (u32.write rsa1024OutputSize ++ (encryptedKey ++
        (u32.write (codecs.crc32 encryptedKey) ++ u32.write 0)))) := by
    refine Messages.MsgHdr.parse_ok.mpr ⟨responseHdr.emsg.value, by decide, ?_⟩
    simp only [buildEncryptResponse, Messages.MsgHdr.writeTo, List.append_assoc]
  have hsize : rsa1024OutputSize.toNat = encryptedKey.length := by
    rw [hlength]
    rfl
  have hkey := readBytes_append encryptedKey
    (u32.write (codecs.crc32 encryptedKey) ++ u32.write 0)
  unfold readResponse
  simp [hparse, Except.toOption, hsize, hkey, show responseHdr.emsg = .channelEncryptResponse
    from rfl]

/-- The holder of the private key reads the session key and the challenge of the request out
of the response. -/
theorem openResponse_respond {codecs : HandshakeCodecs} {decryptKey : Bytes → Option Bytes}
    (hrsa : RsaInverse codecs decryptKey) {sessionKey : DepotKey} {padding response : Bytes}
    (hrespond : respond codecs sessionKey padding packet = .ok response) :
    ∃ challenge, readRequest packet = .ok challenge ∧
      openResponse codecs decryptKey response = some (sessionKey, challenge) := by
  obtain ⟨challenge, encryptedKey, hrequest, hencrypt, rfl⟩ := respond_ok.mp hrespond
  refine ⟨challenge, hrequest, ?_⟩
  have hread := readResponse_build codecs (hrsa.length_encrypt _ _ _ hencrypt)
  have hblob := hrsa.decrypt_encrypt _ _ _ hencrypt
  have hkey : (sessionKey.bytes.toList ++ challenge).take 32 = sessionKey.bytes.toList :=
    List.take_left' (by simp)
  have hrest : (sessionKey.bytes.toList ++ challenge).drop 32 = challenge :=
    List.drop_left' (by simp)
  unfold openResponse
  simp only [hread, hblob, hkey, hrest, Option.bind_eq_bind, Option.bind_some]
  rw [dif_pos (by simp)]
  rfl

end Parse

end Handshake

end DepotDownloader.Steam
