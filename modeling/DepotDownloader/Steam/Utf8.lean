import DepotDownloader.Steam.Depot.Manifest
import Mathlib.Data.List.Lex
import Mathlib.Data.String.Basic

/-! # Decoding encoded text

The lossy UTF-8 decoder gives back every text from its encoding, and only the
character NUL is encoded with a zero byte. The order of texts is the order of
their bytes.
-/

namespace DepotDownloader.Steam

open Foundation

/-- The UTF-8 encoding of a text. -/
def encodeUtf8 (text : List Char) : Bytes := text.flatMap String.utf8EncodeChar

/-- The text can be null-terminated. -/
def NulFree (text : String) : Prop := '\x00' ∉ text.toList

section Lossy

variable {lead second third fourth : Nat}

theorem toNat_byte (hlead : lead < 256) : (UInt8.ofNat lead).toNat = lead :=
  UInt8.toNat_ofNat_of_lt' hlead

theorem le_byte (hlead : lead < 256) (bound : UInt8) :
    bound ≤ UInt8.ofNat lead ↔ bound.toNat ≤ lead := by
  rw [UInt8.le_iff_toNat_le, toNat_byte hlead]

theorem byte_le (hlead : lead < 256) (bound : UInt8) :
    UInt8.ofNat lead ≤ bound ↔ lead ≤ bound.toNat := by
  rw [UInt8.le_iff_toNat_le, toNat_byte hlead]

theorem byte_lt (hlead : lead < 256) (bound : UInt8) :
    UInt8.ofNat lead < bound ↔ lead < bound.toNat := by
  rw [UInt8.lt_iff_toNat_lt, toNat_byte hlead]

theorem byte_beq (hlead : lead < 256) (bound : UInt8) :
    (UInt8.ofNat lead == bound) = (lead == bound.toNat) := by
  rw [Bool.eq_iff_iff, beq_iff_eq, beq_iff_eq, ← UInt8.toNat_inj, toNat_byte hlead]

theorem fromUtf8Lossy_one (hlead : lead < 0x80) (rest : Bytes) :
    fromUtf8Lossy (UInt8.ofNat lead :: rest) = Char.ofNat lead :: fromUtf8Lossy rest := by
  have hbyte : lead < 256 := by omega
  rw [fromUtf8Lossy.eq_def]
  simp only [byte_lt hbyte, toNat_byte hbyte]
  rw [if_pos (by simpa using hlead)]

theorem fromUtf8Lossy_two (hlead : 0xC2 ≤ lead ∧ lead ≤ 0xDF)
    (hsecond : 0x80 ≤ second ∧ second ≤ 0xBF) (rest : Bytes) :
    fromUtf8Lossy (UInt8.ofNat lead :: UInt8.ofNat second :: rest) =
      Char.ofNat (lead % 32 * 64 + second % 64) :: fromUtf8Lossy rest := by
  have hbyte : lead < 256 := by omega
  have hbyte' : second < 256 := by omega
  rw [fromUtf8Lossy.eq_def]
  simp only [byte_lt hbyte, le_byte hbyte, byte_le hbyte, le_byte hbyte', byte_le hbyte',
    toNat_byte hbyte, toNat_byte hbyte', Bool.and_eq_true, decide_eq_true_eq]
  rw [if_neg (by simp; omega), if_pos (by simp; omega), if_pos (by simp; omega)]

/-- The range of the second byte of a longer sequence. -/
def SecondByte (lead second : Nat) : Prop :=
  0x80 ≤ second ∧ second ≤ 0xBF ∧ (lead = 0xE0 → 0xA0 ≤ second) ∧ (lead = 0xED → second ≤ 0x9F) ∧
    (lead = 0xF0 → 0x90 ≤ second) ∧ (lead = 0xF4 → second ≤ 0x8F)

theorem fromUtf8Lossy_three (hlead : 0xE0 ≤ lead ∧ lead ≤ 0xEF) (hsecond : SecondByte lead second)
    (hthird : 0x80 ≤ third ∧ third ≤ 0xBF) (rest : Bytes) :
    fromUtf8Lossy (UInt8.ofNat lead :: UInt8.ofNat second :: UInt8.ofNat third :: rest) =
      Char.ofNat (lead % 16 * 4096 + second % 64 * 64 + third % 64) :: fromUtf8Lossy rest := by
  obtain ⟨hlow, hhigh, he0, hed, hf0, hf4⟩ := hsecond
  have hbyte : lead < 256 := by omega
  have hbyte' : second < 256 := by omega
  have hbyte'' : third < 256 := by omega
  rw [fromUtf8Lossy.eq_def]
  simp only [byte_lt hbyte, le_byte hbyte, byte_le hbyte, le_byte hbyte', byte_le hbyte',
    le_byte hbyte'', byte_le hbyte'', toNat_byte hbyte, toNat_byte hbyte', toNat_byte hbyte'',
    byte_beq hbyte, Bool.and_eq_true, decide_eq_true_eq]
  rw [if_neg (by simp; omega), if_neg (by simp; omega), if_pos (by simp; omega), if_pos,
    if_pos (by simp; omega)]
  by_cases hcase : lead = 0xE0
  · simp only [hcase, UInt8.reduceToNat, beq_self_eq_true, if_true]
    simp
    omega
  · by_cases hcase' : lead = 0xED
    · simp [hcase']
      omega
    · have hnot : ∀ other, lead ≠ other → (lead == other) = false :=
        fun _ => beq_eq_false_iff_ne.mpr
      simp [hnot _ hcase, hnot _ hcase', hnot 0xF0 (by omega), hnot 0xF4 (by omega)]
      omega

theorem fromUtf8Lossy_four (hlead : 0xF0 ≤ lead ∧ lead ≤ 0xF4) (hsecond : SecondByte lead second)
    (hthird : 0x80 ≤ third ∧ third ≤ 0xBF) (hfourth : 0x80 ≤ fourth ∧ fourth ≤ 0xBF)
    (rest : Bytes) :
    fromUtf8Lossy (UInt8.ofNat lead :: UInt8.ofNat second :: UInt8.ofNat third ::
        UInt8.ofNat fourth :: rest) =
      Char.ofNat (lead % 8 * 262144 + second % 64 * 4096 + third % 64 * 64 + fourth % 64) ::
        fromUtf8Lossy rest := by
  obtain ⟨hlow, hhigh, he0, hed, hf0, hf4⟩ := hsecond
  have hbyte : lead < 256 := by omega
  have hbyte2 : second < 256 := by omega
  have hbyte3 : third < 256 := by omega
  have hbyte4 : fourth < 256 := by omega
  rw [fromUtf8Lossy.eq_def]
  simp only [byte_lt hbyte, le_byte hbyte, byte_le hbyte, le_byte hbyte2, byte_le hbyte2,
    le_byte hbyte3, byte_le hbyte3, le_byte hbyte4, byte_le hbyte4, toNat_byte hbyte,
    toNat_byte hbyte2, toNat_byte hbyte3, toNat_byte hbyte4, byte_beq hbyte, Bool.and_eq_true,
    decide_eq_true_eq]
  rw [if_neg (by simp; omega), if_neg (by simp; omega), if_neg (by simp; omega),
    if_pos (by simp; omega), if_pos, if_pos (by simp; omega), if_pos (by simp; omega)]
  have hnot : ∀ other, lead ≠ other → (lead == other) = false := fun _ => beq_eq_false_iff_ne.mpr
  by_cases hcase : lead = 0xF0
  · simp [hcase]
    omega
  · by_cases hcase' : lead = 0xF4
    · simp [hcase']
      omega
    · simp [hnot _ hcase, hnot _ hcase', hnot 0xE0 (by omega), hnot 0xED (by omega)]
      omega

end Lossy

/-- The decoder takes exactly the encoding of a character. -/
theorem fromUtf8Lossy_encodeChar (char : Char) (rest : Bytes) :
    fromUtf8Lossy (String.utf8EncodeChar char ++ rest) = char :: fromUtf8Lossy rest := by
  have hvalid : char.val.toNat < 0xD800 ∨ 0xDFFF < char.val.toNat ∧ char.val.toNat < 0x110000 :=
    char.valid
  have hback : ∀ number, number = char.val.toNat → Char.ofNat number = char := by
    intro number hnumber
    rw [hnumber]
    exact Char.ofNat_toNat char
  unfold String.utf8EncodeChar
  simp only
  split
  next hone => rw [List.singleton_append, fromUtf8Lossy_one (by omega), hback _ rfl]
  next =>
    split
    next htwo =>
      rw [List.cons_append, List.singleton_append,
        fromUtf8Lossy_two (by constructor <;> omega) (by constructor <;> omega),
        hback _ (by omega)]
    next =>
      split
      next hthree =>
        rw [List.cons_append, List.cons_append, List.singleton_append,
          fromUtf8Lossy_three (by constructor <;> omega)
            (by refine ⟨?_, ?_, ?_, ?_, ?_, ?_⟩ <;> omega) (by constructor <;> omega),
          hback _ (by omega)]
      next hfour =>
        rw [List.cons_append, List.cons_append, List.cons_append, List.singleton_append,
          fromUtf8Lossy_four (by constructor <;> omega)
            (by refine ⟨?_, ?_, ?_, ?_, ?_, ?_⟩ <;> omega) (by constructor <;> omega)
            (by constructor <;> omega), hback _ (by omega)]

theorem fromUtf8Lossy_encodeUtf8 (text : List Char) : fromUtf8Lossy (encodeUtf8 text) = text := by
  induction text with
  | nil => rfl
  | cons char rest ih =>
      rw [encodeUtf8, List.flatMap_cons, fromUtf8Lossy_encodeChar]
      exact congrArg (char :: ·) ih

/-- Different texts have different encodings. -/
theorem encodeUtf8_injective {text text' : List Char} (heq : encodeUtf8 text = encodeUtf8 text') :
    text = text' := by
  rw [← fromUtf8Lossy_encodeUtf8 text, heq, fromUtf8Lossy_encodeUtf8]

/-- Every character takes a byte. The cases are those of the decoder. -/
theorem length_fromUtf8Lossy_le (bytes : Bytes) :
    (fromUtf8Lossy bytes).length ≤ bytes.length := by
  fun_induction fromUtf8Lossy bytes <;>
    simp only [List.length_cons, List.length_nil] at * <;> omega

/-- A zero byte only comes from NUL. -/
theorem zero_mem_encodeChar {char : Char} (hzero : 0 ∈ String.utf8EncodeChar char) :
    char = '\x00' := by
  have hbyte : ∀ number < 256, 0 = UInt8.ofNat number → number = 0 := by
    intro number hnumber heq
    have hnat := congrArg UInt8.toNat heq
    rw [toNat_byte hnumber] at hnat
    exact hnat.symm
  have hnumber : char.val.toNat = 0 := by
    unfold String.utf8EncodeChar at hzero
    simp only at hzero
    split at hzero
    next hone => exact hbyte _ (by omega) (List.mem_singleton.mp hzero)
    next =>
      exfalso
      split at hzero
      next =>
        simp only [List.mem_cons, List.not_mem_nil, or_false] at hzero
        rcases hzero with heq | heq <;> have := hbyte _ (by omega) heq <;> omega
      next =>
        split at hzero
        next =>
          simp only [List.mem_cons, List.not_mem_nil, or_false] at hzero
          rcases hzero with heq | heq | heq <;> have := hbyte _ (by omega) heq <;> omega
        next =>
          simp only [List.mem_cons, List.not_mem_nil, or_false] at hzero
          have hvalid : char.val.toNat < 0xD800 ∨
              0xDFFF < char.val.toNat ∧ char.val.toNat < 0x110000 := char.valid
          rcases hzero with heq | heq | heq | heq <;> have := hbyte _ (by omega) heq <;> omega
  exact Char.ext (UInt32.toNat_inj.mp hnumber)

/-- Text without NUL is encoded without a zero byte. -/
theorem zero_notMem_encodeUtf8 {text : List Char} (hplain : '\x00' ∉ text) :
    0 ∉ encodeUtf8 text := by
  intro hzero
  obtain ⟨char, hmem, hbyte⟩ := List.mem_flatMap.mp hzero
  exact hplain (zero_mem_encodeChar hbyte ▸ hmem)

section Order

theorem ofNat_lt {left right : Nat} (hright : right < 256) (hlt : left < right) :
    UInt8.ofNat left < UInt8.ofNat right := by
  rw [UInt8.lt_iff_toNat_lt, toNat_byte (hlt.trans hright), toNat_byte hright]
  exact hlt

theorem cons_lt {left right : Nat} {rest rest' : Bytes} (hright : right < 256)
    (hlt : left < right ∨ left = right ∧ rest < rest') :
    UInt8.ofNat left :: rest < UInt8.ofNat right :: rest' := by
  rw [List.cons_lt_cons_iff]
  rcases hlt with hlt | ⟨rfl, hlt⟩
  · exact .inl (ofNat_lt hright hlt)
  · exact .inr ⟨rfl, hlt⟩

/-- The encodings of different characters differ at a byte before either ends: at
the lead byte when their lengths differ, else at the first digit that does. -/
theorem encodeChar_lt {char char' : Char} (hlt : char < char') (rest rest' : Bytes) :
    String.utf8EncodeChar char ++ rest < String.utf8EncodeChar char' ++ rest' := by
  have hnumber : char.val.toNat < char'.val.toNat := hlt
  have hvalid : char'.val.toNat < 0xD800 ∨
      0xDFFF < char'.val.toNat ∧ char'.val.toNat < 0x110000 := char'.valid
  unfold String.utf8EncodeChar
  simp only
  generalize char.val.toNat = number at hnumber ⊢
  generalize char'.val.toNat = number' at hnumber hvalid ⊢
  split
  next =>
    split
    next => exact cons_lt (by omega) (.inl hnumber)
    next => split <;> [skip; split] <;> exact cons_lt (by omega) (.inl (by omega))
  next =>
    rw [if_neg (by omega : ¬number' ≤ 0x7f)]
    split
    next =>
      split
      next =>
        rcases Nat.lt_or_ge (number / 64) (number' / 64) with hdigit | hdigit
        · exact cons_lt (by omega) (.inl (by omega))
        · exact cons_lt (by omega) (.inr ⟨by omega, cons_lt (by omega) (.inl (by omega))⟩)
      next => split <;> exact cons_lt (by omega) (.inl (by omega))
    next =>
      rw [if_neg (by omega : ¬number' ≤ 0x7ff)]
      split
      next =>
        split
        next =>
          rcases Nat.lt_or_ge (number / 4096) (number' / 4096) with hdigit | hdigit
          · exact cons_lt (by omega) (.inl (by omega))
          · apply cons_lt (by omega) (.inr ⟨by omega, _⟩)
            rcases Nat.lt_or_ge (number / 64) (number' / 64) with hdigit' | hdigit'
            · exact cons_lt (by omega) (.inl (by omega))
            · exact cons_lt (by omega) (.inr ⟨by omega, cons_lt (by omega) (.inl (by omega))⟩)
        next => exact cons_lt (by omega) (.inl (by omega))
      next =>
        rw [if_neg (by omega : ¬number' ≤ 0xffff)]
        rcases Nat.lt_or_ge (number / 262144) (number' / 262144) with hdigit | hdigit
        · exact cons_lt (by omega) (.inl (by omega))
        · apply cons_lt (by omega) (.inr ⟨by omega, _⟩)
          rcases Nat.lt_or_ge (number / 4096) (number' / 4096) with hdigit' | hdigit'
          · exact cons_lt (by omega) (.inl (by omega))
          · apply cons_lt (by omega) (.inr ⟨by omega, _⟩)
            rcases Nat.lt_or_ge (number / 64) (number' / 64) with hdigit'' | hdigit''
            · exact cons_lt (by omega) (.inl (by omega))
            · exact cons_lt (by omega) (.inr ⟨by omega, cons_lt (by omega) (.inl (by omega))⟩)

theorem encodeUtf8_lt {text text' : List Char} (hlt : text < text') :
    encodeUtf8 text < encodeUtf8 text' := by
  induction text generalizing text' with
  | nil =>
      cases text' with
      | nil => exact absurd hlt (List.lt_irrefl _)
      | cons char rest =>
          obtain ⟨byte, bytes, hbytes⟩ := List.exists_cons_of_length_pos
            (l := String.utf8EncodeChar char) (by
              rw [String.length_utf8EncodeChar]
              exact char.utf8Size_pos)
          simp [encodeUtf8, hbytes]
  | cons char rest ih =>
      cases text' with
      | nil => exact absurd hlt (List.not_lt_nil _)
      | cons char' rest' =>
          simp only [encodeUtf8, List.flatMap_cons]
          rcases List.cons_lt_cons_iff.mp hlt with hchar | ⟨rfl, hrest⟩
          · exact encodeChar_lt hchar _ _
          · exact List.append_left_lt (ih hrest)

/-- The order of texts is the byte order of their encodings. -/
theorem encodeUtf8_le_iff {text text' : List Char} :
    encodeUtf8 text ≤ encodeUtf8 text' ↔ text ≤ text' := by
  constructor
  · intro hle
    by_contra hgt
    exact hle (encodeUtf8_lt (not_le.mp hgt))
  · intro hle hgt
    rcases lt_or_eq_of_le hle with hlt | rfl
    · exact List.lt_asymm hgt (encodeUtf8_lt hlt)
    · exact List.lt_irrefl _ hgt

end Order

end DepotDownloader.Steam
