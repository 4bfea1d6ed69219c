import DepotDownloader.Steam.Crypto

/-! # Sealing data for the symmetric decryption

The encryption that the symmetric decryption undoes: CBC over padded data, behind
an ECB-encrypted initialisation vector. The block cipher is a keyed bijection on
16-byte blocks, and then exactly the sealed data is accepted.
-/

namespace DepotDownloader.Steam

open Foundation

/-- Encryption and decryption of blocks are inverse to each other. -/
structure AesInverse (encrypt decrypt : Aes256) : Prop where
  length_encrypt : ∀ key block, block.length = 16 → (encrypt key block).length = 16
  length_decrypt : ∀ key block, block.length = 16 → (decrypt key block).length = 16
  decrypt_encrypt : ∀ key block, block.length = 16 → decrypt key (encrypt key block) = block
  encrypt_decrypt : ∀ key block, block.length = 16 → encrypt key (decrypt key block) = block

/-- Each block is encrypted over the encrypted block before it. -/
def cbcChain (encrypt : Bytes → Bytes) : Nat → Bytes → Bytes → Bytes
  | 0, _, _ => []
  | blocks + 1, previous, data =>
      let sealed := encrypt (xorBlock (data.take 16) previous)
      sealed ++ cbcChain encrypt blocks sealed (data.drop 16)

/-- CBC encryption of whole blocks. -/
def cbcEncrypt (encrypt : Aes256) (key : DepotKey) (iv data : Bytes) : Bytes :=
  cbcChain (encrypt key) (data.length / 16) iv data

/-- The number of padding bytes, which is also their value. -/
def padding (data : Bytes) : Nat := 16 - data.length % 16

def pkcs7Pad (data : Bytes) : Bytes :=
  data ++ List.replicate (padding data) (UInt8.ofNat (padding data))

/-- CBC encryption with PKCS7 padding. -/
def encryptPaddedVec (encrypt : Aes256) (key : DepotKey) (iv plaintext : Bytes) : Bytes :=
  cbcEncrypt encrypt key iv (pkcs7Pad plaintext)

/-- The ECB-encrypted IV in front of the CBC-encrypted plaintext. -/
def symmetricEncryptEcb (encrypt : Aes256) (key : DepotKey) (iv plaintext : Bytes) : Bytes :=
  encrypt key iv ++ encryptPaddedVec encrypt key iv plaintext

section Padding

variable {data plaintext : Bytes}

theorem padding_bounds (data : Bytes) : 1 ≤ padding data ∧ padding data ≤ 16 := by
  unfold padding
  omega

theorem length_pkcs7Pad (data : Bytes) :
    (pkcs7Pad data).length = 16 * (data.length / 16 + 1) := by
  simp only [pkcs7Pad, List.length_append, List.length_replicate, padding]
  omega

theorem pkcs7Unpad_pad (data : Bytes) : pkcs7Unpad (pkcs7Pad data) = some data := by
  obtain ⟨hpositive, hblock⟩ := padding_bounds data
  have hvalue : (UInt8.ofNat (padding data)).toNat = padding data := by
    rw [UInt8.toNat_ofNat']
    omega
  have hlast : (pkcs7Pad data).getLast? = some (UInt8.ofNat (padding data)) := by
    rw [pkcs7Pad, List.getLast?_append, List.getLast?_replicate, if_neg (by omega), Option.some_or]
  have hlength : (pkcs7Pad data).length - padding data = data.length := by
    simp [pkcs7Pad]
  unfold pkcs7Unpad
  simp only [hlast, hvalue, hlength]
  rw [if_pos]
  · simp [pkcs7Pad]
  · refine ⟨hpositive, hblock, ?_, ?_⟩
    · simp [pkcs7Pad]
    · simp [pkcs7Pad]

/-- What is unpadded ends with bytes that give their own number. -/
theorem pkcs7Unpad_eq_some (hunpad : pkcs7Unpad data = some plaintext) :
    ∃ last : UInt8, (1 ≤ last.toNat ∧ last.toNat ≤ 16 ∧ last.toNat ≤ data.length ∧
      data.drop (data.length - last.toNat) = List.replicate last.toNat last) ∧
        plaintext = data.take (data.length - last.toNat) := by
  unfold pkcs7Unpad at hunpad
  split at hunpad
  next => cases hunpad
  next last _ =>
    simp only at hunpad
    split at hunpad
    next hpadded => exact ⟨last, hpadded, (Option.some.inj hunpad).symm⟩
    next => cases hunpad

/-- Only padded data is unpadded. -/
theorem pkcs7Pad_of_unpad (hblocks : data.length % 16 = 0)
    (hunpad : pkcs7Unpad data = some plaintext) : data = pkcs7Pad plaintext := by
  obtain ⟨last, ⟨hpositive, hblock, hfits, hrest⟩, rfl⟩ := pkcs7Unpad_eq_some hunpad
  have hlength : (data.take (data.length - last.toNat)).length = data.length - last.toNat := by
    rw [List.length_take]
    omega
  have hpadding : padding (data.take (data.length - last.toNat)) = last.toNat := by
    unfold padding
    rw [hlength]
    omega
  rw [pkcs7Pad, hpadding, UInt8.ofNat_toNat, ← hrest, List.take_append_drop]

theorem length_pkcs7Unpad_lt (hunpad : pkcs7Unpad data = some plaintext) :
    plaintext.length < data.length := by
  obtain ⟨last, ⟨hpositive, _, hfits, _⟩, rfl⟩ := pkcs7Unpad_eq_some hunpad
  rw [List.length_take]
  omega

end Padding

section Chaining

theorem length_xorBlock (left right : Bytes) :
    (xorBlock left right).length = min left.length right.length :=
  List.length_zipWith

theorem xorBlock_cancel {left right : Bytes} (hlength : left.length = right.length) :
    xorBlock (xorBlock left right) right = left := by
  induction left generalizing right with
  | nil => simp [xorBlock]
  | cons byte rest ih =>
      cases right with
      | nil => cases hlength
      | cons byte' rest' =>
          have htail := ih (show rest.length = rest'.length by simpa using hlength)
          simp only [xorBlock, List.zipWith_cons_cons, List.cons.injEq] at htail ⊢
          exact ⟨by rw [UInt8.xor_assoc, UInt8.xor_self, UInt8.xor_zero], htail⟩

theorem length_cbcDecrypt_le (decrypt : Aes256) (key : DepotKey) {iv : Bytes}
    (hiv : iv.length = 16) (data : Bytes) :
    (cbcDecrypt decrypt key iv data).length ≤ data.length := by
  have hpieces : ∀ indices : List Nat, (indices.flatMap fun index =>
      xorBlock (decrypt key (block data index))
        (if index = 0 then iv else block data (index - 1))).length ≤ 16 * indices.length := by
    intro indices
    induction indices with
    | nil => simp
    | cons index rest ih =>
        have hpiece : (if index = 0 then iv else block data (index - 1)).length ≤ 16 := by
          split
          · omega
          · exact List.length_take_le _ _
        rw [List.flatMap_cons, List.length_append, length_xorBlock, List.length_cons]
        omega
  have hall := hpieces (List.range (data.length / 16))
  rw [List.length_range] at hall
  unfold cbcDecrypt
  omega

theorem cbcDecrypt_of_short (decrypt : Aes256) (key : DepotKey) (iv : Bytes) {data : Bytes}
    (hshort : data.length < 16) : cbcDecrypt decrypt key iv data = [] := by
  have hnone : data.length / 16 = 0 := by omega
  simp [cbcDecrypt, hnone]

/-- CBC decryption block by block. -/
theorem cbcDecrypt_append (decrypt : Aes256) (key : DepotKey) (iv : Bytes) {first : Bytes}
    (hfirst : first.length = 16) (rest : Bytes) :
    cbcDecrypt decrypt key iv (first ++ rest) =
      xorBlock (decrypt key first) iv ++ cbcDecrypt decrypt key first rest := by
  have hcount : (first ++ rest).length / 16 = rest.length / 16 + 1 := by
    rw [List.length_append]
    omega
  have hhead : block (first ++ rest) 0 = first := by
    rw [block, Nat.mul_zero, List.drop_zero, List.take_left' hfirst]
  have htail : ∀ index, block (first ++ rest) (index + 1) = block rest index := by
    intro index
    have hoffset : 16 * (index + 1) = first.length + 16 * index := by omega
    rw [block, block, hoffset, List.drop_append, List.drop_of_length_le (by omega),
      List.nil_append, Nat.add_sub_cancel_left]
  unfold cbcDecrypt
  rw [hcount, List.range_succ_eq_map, List.flatMap_cons, List.flatMap_map, hhead]
  congr 1
  apply List.flatMap_congr
  intro index _
  rw [htail, if_neg (Nat.succ_ne_zero index), Nat.succ_sub_one]
  cases index with
  | zero => rw [if_pos rfl, hhead]
  | succ index => rw [if_neg (Nat.succ_ne_zero index), htail, Nat.add_sub_cancel]

variable {encrypt decrypt : Aes256} {key : DepotKey}

theorem length_cbcChain (haes : AesInverse encrypt decrypt) (blocks : Nat) {previous data : Bytes}
    (hprevious : previous.length = 16) (hdata : data.length = 16 * blocks) :
    (cbcChain (encrypt key) blocks previous data).length = 16 * blocks := by
  induction blocks generalizing previous data with
  | zero => rfl
  | succ blocks ih =>
      have hfirst : (xorBlock (data.take 16) previous).length = 16 := by
        rw [length_xorBlock, List.length_take]
        omega
      have hsealed := haes.length_encrypt key _ hfirst
      have hleft : (data.drop 16).length = 16 * blocks := by
        rw [List.length_drop]
        omega
      have hrest := ih hsealed hleft
      rw [cbcChain, List.length_append, hsealed, hrest]
      omega

/-- CBC decryption undoes CBC encryption. -/
theorem cbcDecrypt_chain (haes : AesInverse encrypt decrypt) (blocks : Nat) {iv data : Bytes}
    (hiv : iv.length = 16) (hdata : data.length = 16 * blocks) :
    cbcDecrypt decrypt key iv (cbcChain (encrypt key) blocks iv data) = data := by
  induction blocks generalizing iv data with
  | zero =>
      rw [Nat.mul_zero, List.length_eq_zero_iff] at hdata
      rw [hdata]
      exact cbcDecrypt_of_short decrypt key iv (by simp [cbcChain])
  | succ blocks ih =>
      have htake : (data.take 16).length = 16 := by
        rw [List.length_take]
        omega
      have hfirst : (xorBlock (data.take 16) iv).length = 16 := by
        rw [length_xorBlock]
        omega
      have hsealed := haes.length_encrypt key _ hfirst
      have hleft : (data.drop 16).length = 16 * blocks := by
        rw [List.length_drop]
        omega
      have hrest := ih hsealed hleft
      rw [cbcChain, cbcDecrypt_append decrypt key iv hsealed, haes.decrypt_encrypt key _ hfirst,
        xorBlock_cancel (by omega), hrest, List.take_append_drop]

/-- CBC encryption undoes CBC decryption. -/
theorem cbcChain_decrypt (haes : AesInverse encrypt decrypt) (key : DepotKey) (blocks : Nat)
    {iv data : Bytes} (hiv : iv.length = 16) (hdata : data.length = 16 * blocks) :
    (cbcDecrypt decrypt key iv data).length = 16 * blocks ∧
      cbcChain (encrypt key) blocks iv (cbcDecrypt decrypt key iv data) = data := by
  induction blocks generalizing iv data with
  | zero =>
      rw [Nat.mul_zero, List.length_eq_zero_iff] at hdata
      rw [hdata]
      exact ⟨by simp [cbcDecrypt], rfl⟩
  | succ blocks ih =>
      have htake : (data.take 16).length = 16 := by
        rw [List.length_take]
        omega
      have hopened := haes.length_decrypt key _ htake
      have hfirst : (xorBlock (decrypt key (data.take 16)) iv).length = 16 := by
        rw [length_xorBlock]
        omega
      have hleft : (data.drop 16).length = 16 * blocks := by
        rw [List.length_drop]
        omega
      obtain ⟨hlength, hrest⟩ := ih htake hleft
      have hsplit := cbcDecrypt_append decrypt key iv htake (data.drop 16)
      rw [List.take_append_drop] at hsplit
      rw [hsplit]
      constructor
      · rw [List.length_append, hfirst, hlength]
        omega
      · rw [cbcChain, List.take_left' hfirst, List.drop_left' hfirst, xorBlock_cancel (by omega),
          haes.encrypt_decrypt key _ htake, hrest, List.take_append_drop]

end Chaining

section Sealed

variable {encrypt decrypt : Aes256} {key : DepotKey} {iv data plaintext : Bytes}

theorem length_encryptPaddedVec (haes : AesInverse encrypt decrypt) (hiv : iv.length = 16)
    (key : DepotKey) (plaintext : Bytes) :
    (encryptPaddedVec encrypt key iv plaintext).length = 16 * (plaintext.length / 16 + 1) := by
  have hpadded := length_pkcs7Pad plaintext
  unfold encryptPaddedVec cbcEncrypt
  rw [hpadded, Nat.mul_div_cancel_left _ (by decide)]
  exact length_cbcChain haes _ hiv hpadded

/-- Exactly what was encrypted is decrypted. -/
theorem decryptPaddedVec_eq_some (haes : AesInverse encrypt decrypt) (hiv : iv.length = 16) :
    decryptPaddedVec decrypt key iv data = some plaintext ↔
      data = encryptPaddedVec encrypt key iv plaintext := by
  constructor
  · intro hdecrypt
    unfold decryptPaddedVec at hdecrypt
    split at hdecrypt
    next hblocks =>
      have hdata : data.length = 16 * (data.length / 16) := by omega
      obtain ⟨hlength, hback⟩ := cbcChain_decrypt haes key _ hiv hdata
      have hpadded := pkcs7Pad_of_unpad (by omega) hdecrypt
      rw [encryptPaddedVec, cbcEncrypt, ← hpadded, hlength, Nat.mul_div_cancel_left _ (by decide),
        hback]
    next => cases hdecrypt
  · rintro rfl
    have hpadded := length_pkcs7Pad plaintext
    have hlength := length_encryptPaddedVec haes hiv key plaintext
    unfold decryptPaddedVec
    rw [if_pos (by omega), encryptPaddedVec, cbcEncrypt, hpadded,
      Nat.mul_div_cancel_left _ (by decide), cbcDecrypt_chain haes _ hiv hpadded, pkcs7Unpad_pad]

/-- Sealed data is opened. -/
theorem symmetricDecryptEcb_encrypt (haes : AesInverse encrypt decrypt) (hiv : iv.length = 16)
    (plaintext : Bytes) :
    symmetricDecryptEcb decrypt key (symmetricEncryptEcb encrypt key iv plaintext) =
      .ok plaintext := by
  have hsealed := haes.length_encrypt key iv hiv
  have hbody := length_encryptPaddedVec haes hiv key plaintext
  unfold symmetricDecryptEcb symmetricEncryptEcb
  -- the first block is the sealed vector, the rest the chained blocks
  rw [if_neg (by rw [List.length_append]; omega), List.take_left' hsealed, List.drop_left' hsealed,
    haes.decrypt_encrypt key iv hiv, (decryptPaddedVec_eq_some haes hiv).mpr rfl]

end Sealed

section Table

/-- The bijection that exchanges two blocks. -/
def swapBlock (pair : Bytes × Bytes) (block : Bytes) : Bytes :=
  if block = pair.1 then pair.2 else if block = pair.2 then pair.1 else block

theorem swapBlock_swapBlock (pair : Bytes × Bytes) (block : Bytes) :
    swapBlock pair (swapBlock pair block) = block := by
  unfold swapBlock
  split
  next hfirst =>
    rw [hfirst]
    split
    next heq => exact heq
    next => rw [if_pos rfl]
  next hfirst =>
    split
    next hsecond =>
      rw [if_pos rfl, hsecond]
    next => rfl

theorem length_swapBlock {pair : Bytes × Bytes} (hfirst : pair.1.length = 16)
    (hsecond : pair.2.length = 16) {block : Bytes} (hblock : block.length = 16) :
    (swapBlock pair block).length = 16 := by
  unfold swapBlock
  split
  · exact hsecond
  · split
    · exact hfirst
    · exact hblock

/-- A block cipher with given values, one exchange after the other. -/
def tableAes (table : List (Bytes × Bytes)) : Aes256 := fun _ block =>
  table.foldl (fun block pair => swapBlock pair block) block

theorem tableAes_inverse {table : List (Bytes × Bytes)}
    (htable : ∀ pair ∈ table, pair.1.length = 16 ∧ pair.2.length = 16) :
    AesInverse (tableAes table) (tableAes table.reverse) := by
  have hlength : ∀ (pairs : List (Bytes × Bytes)) (block : Bytes),
      (∀ pair ∈ pairs, pair.1.length = 16 ∧ pair.2.length = 16) → block.length = 16 →
        (pairs.foldl (fun block pair => swapBlock pair block) block).length = 16 := by
    intro pairs block hpairs hblock
    induction pairs generalizing block with
    | nil => exact hblock
    | cons pair pairs ih =>
        obtain ⟨hfirst, hsecond⟩ := hpairs pair List.mem_cons_self
        exact ih _ (fun other hmem => hpairs other (List.mem_cons_of_mem _ hmem))
          (length_swapBlock hfirst hsecond hblock)
  have hback : ∀ (pairs : List (Bytes × Bytes)) (block : Bytes),
      pairs.reverse.foldl (fun block pair => swapBlock pair block)
        (pairs.foldl (fun block pair => swapBlock pair block) block) = block := by
    intro pairs block
    induction pairs generalizing block with
    | nil => rfl
    | cons pair pairs ih =>
        rw [List.foldl_cons, List.reverse_cons, List.foldl_append, ih, List.foldl_cons,
          List.foldl_nil, swapBlock_swapBlock]
  have hreverse : ∀ pair ∈ table.reverse, pair.1.length = 16 ∧ pair.2.length = 16 :=
    fun pair hmem => htable pair (List.mem_reverse.mp hmem)
  refine ⟨fun _ block => hlength table block htable, fun _ block => hlength _ block hreverse,
    fun _ block _ => hback table block, fun _ block _ => ?_⟩
  have hforth := hback table.reverse block
  rwa [List.reverse_reverse] at hforth

end Table

end DepotDownloader.Steam
