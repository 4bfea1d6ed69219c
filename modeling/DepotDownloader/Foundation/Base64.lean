import DepotDownloader.Foundation.ByteString

/-! # Base64

The standard alphabet with mandatory padding. The decoder takes canonical text
only: the bits behind the last byte are zero. It gives back what was encoded.
-/

namespace Foundation.Base64

def digit (value : Nat) : Char :=
  if value < 26 then Char.ofNat (65 + value)
  else if value < 52 then Char.ofNat (97 + (value - 26))
  else if value < 62 then Char.ofNat (48 + (value - 52))
  else if value = 62 then '+' else '/'

def digitValue (char : Char) : Option Nat :=
  let code := char.toNat
  if 65 ≤ code ∧ code ≤ 90 then some (code - 65)
  else if 97 ≤ code ∧ code ≤ 122 then some (code - 97 + 26)
  else if 48 ≤ code ∧ code ≤ 57 then some (code - 48 + 52)
  else if char = '+' then some 62
  else if char = '/' then some 63
  else none

def encode : Bytes → List Char
  | [] => []
  | [first] => [digit (first.toNat / 4), digit (first.toNat % 4 * 16), '=', '=']
  | [first, second] =>
      [digit (first.toNat / 4), digit (first.toNat % 4 * 16 + second.toNat / 16),
        digit (second.toNat % 16 * 4), '=']
  | first :: second :: third :: rest =>
      digit (first.toNat / 4) :: digit (first.toNat % 4 * 16 + second.toNat / 16) ::
        digit (second.toNat % 16 * 4 + third.toNat / 64) :: digit (third.toNat % 64) :: encode rest

/-- The bytes of the last group, which is padded. -/
def decodeTail (first second third : Char) : Option Bytes := do
  let high ← digitValue first
  let middle ← digitValue second
  if third = '=' then
    if middle % 16 = 0 then some [UInt8.ofNat (high * 4 + middle / 16)] else none
  else
    let low ← digitValue third
    if low % 4 = 0 then
      some [UInt8.ofNat (high * 4 + middle / 16), UInt8.ofNat (middle % 16 * 16 + low / 4)]
    else none

def decode : List Char → Option Bytes
  | [] => some []
  | first :: second :: third :: fourth :: rest =>
      if fourth = '=' then
        if rest.isEmpty then decodeTail first second third else none
      else do
        let high ← digitValue first
        let middle ← digitValue second
        let low ← digitValue third
        let last ← digitValue fourth
        let bytes ← decode rest
        some (UInt8.ofNat (high * 4 + middle / 16) :: UInt8.ofNat (middle % 16 * 16 + low / 4) ::
          UInt8.ofNat (low % 4 * 64 + last) :: bytes)
  | _ => none

section Inverse

variable {value : Nat}

theorem digitValue_digit (hvalue : value < 64) : digitValue (digit value) = some value := by
  have hall : ∀ value < 64, digitValue (digit value) = some value := by decide
  exact hall value hvalue

theorem digit_ne_pad (hvalue : value < 64) : digit value ≠ '=' := by
  have hall : ∀ value < 64, digit value ≠ '=' := by decide
  exact hall value hvalue

/-- Encoded bytes are decoded. The cases are the groups of the encoder, and the
last group is the only one that may be short. -/
theorem decode_encode (bytes : Bytes) : decode (encode bytes) = some bytes := by
  induction bytes using encode.induct with
  | case1 => rfl
  | case2 first =>
      have hfirst : first.toNat < 256 := first.toNat_lt
      simp only [encode, decode, decodeTail, if_true, List.isEmpty_nil, Option.bind_eq_bind,
        digitValue_digit (show first.toNat / 4 < 64 by omega),
        digitValue_digit (show first.toNat % 4 * 16 < 64 by omega), Option.bind_some,
        show first.toNat % 4 * 16 % 16 = 0 by omega,
        show first.toNat / 4 * 4 + first.toNat % 4 * 16 / 16 = first.toNat by omega,
        UInt8.ofNat_toNat]
  | case3 first second =>
      have hfirst : first.toNat < 256 := first.toNat_lt
      have hsecond : second.toNat < 256 := second.toNat_lt
      have hmiddle : first.toNat % 4 * 16 + second.toNat / 16 < 64 := by omega
      have hlow : second.toNat % 16 * 4 < 64 := by omega
      simp only [encode, decode, decodeTail, if_true, List.isEmpty_nil, Option.bind_eq_bind,
        digitValue_digit (show first.toNat / 4 < 64 by omega), digitValue_digit hmiddle,
        digitValue_digit hlow, digit_ne_pad hlow, if_false, Option.bind_some,
        show second.toNat % 16 * 4 % 4 = 0 by omega,
        show first.toNat / 4 * 4 + (first.toNat % 4 * 16 + second.toNat / 16) / 16 =
          first.toNat by omega,
        show (first.toNat % 4 * 16 + second.toNat / 16) % 16 * 16 + second.toNat % 16 * 4 / 4 =
          second.toNat by omega,
        UInt8.ofNat_toNat]
  | case4 first second third rest ih =>
      have hfirst : first.toNat < 256 := first.toNat_lt
      have hsecond : second.toNat < 256 := second.toNat_lt
      have hthird : third.toNat < 256 := third.toNat_lt
      have hmiddle : first.toNat % 4 * 16 + second.toNat / 16 < 64 := by omega
      have hlow : second.toNat % 16 * 4 + third.toNat / 64 < 64 := by omega
      have hlast : third.toNat % 64 < 64 := by omega
      simp only [encode, decode, digit_ne_pad hlast, if_false, Option.bind_eq_bind,
        digitValue_digit (show first.toNat / 4 < 64 by omega), digitValue_digit hmiddle,
        digitValue_digit hlow, digitValue_digit hlast, Option.bind_some, ih,
        show first.toNat / 4 * 4 + (first.toNat % 4 * 16 + second.toNat / 16) / 16 =
          first.toNat by omega,
        show (first.toNat % 4 * 16 + second.toNat / 16) % 16 * 16 +
          (second.toNat % 16 * 4 + third.toNat / 64) / 4 = second.toNat by omega,
        show (second.toNat % 16 * 4 + third.toNat / 64) % 4 * 64 + third.toNat % 64 =
          third.toNat by omega,
        UInt8.ofNat_toNat]

/-- Every character of encoded bytes is a digit or a pad. -/
theorem mem_encode {bytes : Bytes} {char : Char} (hmem : char ∈ encode bytes) :
    char = '=' ∨ ∃ value < 64, char = digit value := by
  induction bytes using encode.induct with
  | case1 => cases hmem
  | case2 first =>
      have hfirst : first.toNat < 256 := first.toNat_lt
      simp only [encode, List.mem_cons, List.not_mem_nil, or_false, or_self] at hmem
      rcases hmem with rfl | rfl | rfl
      · exact .inr ⟨_, by omega, rfl⟩
      · exact .inr ⟨_, by omega, rfl⟩
      · exact .inl rfl
  | case3 first second =>
      have hfirst : first.toNat < 256 := first.toNat_lt
      have hsecond : second.toNat < 256 := second.toNat_lt
      simp only [encode, List.mem_cons, List.not_mem_nil, or_false] at hmem
      rcases hmem with rfl | rfl | rfl | rfl
      · exact .inr ⟨_, by omega, rfl⟩
      · exact .inr ⟨_, by omega, rfl⟩
      · exact .inr ⟨_, by omega, rfl⟩
      · exact .inl rfl
  | case4 first second third rest ih =>
      have hfirst : first.toNat < 256 := first.toNat_lt
      have hsecond : second.toNat < 256 := second.toNat_lt
      have hthird : third.toNat < 256 := third.toNat_lt
      simp only [encode, List.mem_cons] at hmem
      rcases hmem with rfl | rfl | rfl | rfl | hrest
      · exact .inr ⟨_, by omega, rfl⟩
      · exact .inr ⟨_, by omega, rfl⟩
      · exact .inr ⟨_, by omega, rfl⟩
      · exact .inr ⟨_, by omega, rfl⟩
      · exact ih hrest

end Inverse

section Length

variable {bytes : Bytes}

theorem length_decodeTail_le {first second third : Char}
    (hdecode : decodeTail first second third = some bytes) : bytes.length ≤ 2 := by
  simp only [decodeTail, Option.bind_eq_bind, Option.bind_eq_some_iff] at hdecode
  obtain ⟨high, _, middle, _, hdecode⟩ := hdecode
  split at hdecode
  next =>
    split at hdecode
    next =>
      cases hdecode
      simp
    next => cases hdecode
  next =>
    obtain ⟨low, _, hdecode⟩ := Option.bind_eq_some_iff.mp hdecode
    split at hdecode
    next =>
      cases hdecode
      simp
    next => cases hdecode

/-- Text stands for no more bytes than it has characters. -/
theorem length_decode_le {text : List Char} (hdecode : decode text = some bytes) :
    bytes.length ≤ text.length := by
  fun_induction decode text generalizing bytes with
  | case1 =>
      cases hdecode
      simp
  | case2 first second third rest hlast =>
      have htail := length_decodeTail_le hdecode
      simp only [List.length_cons]
      omega
  | case3 => cases hdecode
  | case4 first second third fourth rest hlast ih =>
      simp only [Option.bind_eq_bind, Option.bind_eq_some_iff] at hdecode
      obtain ⟨_, _, _, _, _, _, _, _, decoded, hrest, hdecode⟩ := hdecode
      have hshort := ih hrest
      cases hdecode
      simp only [List.length_cons]
      omega
  | case5 => cases hdecode

end Length

end Foundation.Base64
