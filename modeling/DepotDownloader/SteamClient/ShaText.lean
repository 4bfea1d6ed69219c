import DepotDownloader.Steam.Utf8
import DepotDownloader.SteamClient.Manifest

/-! # The text of a checksum

A whole checksum is forty ASCII characters and none of them is whitespace, so it
is read back as it was written, and what a cut write leaves is too short to pass
for one.
-/

namespace DepotDownloader.SteamClient

open Foundation Steam

theorem decodeUtf8_eq_some {bytes : Bytes} {text : List Char}
    (hdecode : decodeUtf8 bytes = some text) : encodeUtf8 text = bytes := by
  simp only [decodeUtf8] at hdecode
  split at hdecode
  next hvalid =>
    cases hdecode
    exact hvalid
  next => cases hdecode

theorem length_le_of_decodeUtf8 {bytes : Bytes} {text : List Char}
    (hdecode : decodeUtf8 bytes = some text) : text.length ≤ bytes.length := by
  simp only [decodeUtf8] at hdecode
  split at hdecode
  next =>
    cases hdecode
    exact length_fromUtf8Lossy_le bytes
  next => cases hdecode

theorem length_dropWhile_le (text : List Char) :
    (text.dropWhile isWhitespace).length ≤ text.length :=
  (List.dropWhile_sublist _).length_le

theorem length_trim_le (text : List Char) : (trim text).length ≤ text.length := by
  have hback := length_dropWhile_le (text.dropWhile isWhitespace).reverse
  have hfront := length_dropWhile_le text
  rw [List.length_reverse] at hback
  unfold trim
  rw [List.length_reverse]
  omega

theorem trim_of_noWhitespace {text : List Char}
    (hplain : ∀ char ∈ text, isWhitespace char = false) : trim text = text := by
  have hkeeps : ∀ part : List Char, (∀ char ∈ part, isWhitespace char = false) →
      part.dropWhile isWhitespace = part := by
    intro part hpart
    cases part with
    | nil => rfl
    | cons char rest => simp [hpart char List.mem_cons_self]
  have hreverse : ∀ char ∈ text.reverse, isWhitespace char = false :=
    fun char hmem => hplain char (List.mem_reverse.mp hmem)
  unfold trim
  rw [hkeeps text hplain, hkeeps text.reverse hreverse, List.reverse_reverse]

/-- The digits of different bytes differ. -/
theorem hexDigits_injective {bytes bytes' : Bytes}
    (heq : bytes.flatMap (fun byte => [(byte.toNat / 16).digitChar, (byte.toNat % 16).digitChar]) =
      bytes'.flatMap fun byte => [(byte.toNat / 16).digitChar, (byte.toNat % 16).digitChar]) :
    bytes = bytes' := by
  have hdigit : ∀ value < 16, ∀ value' < 16, value.digitChar = value'.digitChar → value = value' :=
    by decide
  induction bytes generalizing bytes' with
  | nil =>
      cases bytes' with
      | nil => rfl
      | cons byte' rest' => cases heq
  | cons byte rest ih =>
      cases bytes' with
      | nil => cases heq
      | cons byte' rest' =>
          have hbyte : byte.toNat < 256 := byte.toNat_lt
          have hbyte' : byte'.toNat < 256 := byte'.toNat_lt
          simp only [List.flatMap_cons, List.cons_append, List.nil_append, List.cons.injEq] at heq
          obtain ⟨hhigh, hlow, hrest⟩ := heq
          have hhigh := hdigit _ (by omega) _ (by omega) hhigh
          have hlow := hdigit _ (by omega) _ (by omega) hlow
          rw [ih hrest, UInt8.toNat_inj.mp (by omega : byte.toNat = byte'.toNat)]

theorem shaText_injective : Function.Injective shaText := by
  intro sha sha' heq
  exact Vector.toList_inj.mp (hexDigits_injective heq)

section Sha

variable (sha : Vector UInt8 20)

theorem length_shaText : (shaText sha).length = 40 := by
  simp [shaText, List.length_flatMap]

theorem digit_of_mem_shaText {char : Char} (hmem : char ∈ shaText sha) :
    ∃ value < 16, char = value.digitChar := by
  obtain ⟨byte, _, hdigit⟩ := List.mem_flatMap.mp hmem
  have hbyte : byte.toNat < 256 := byte.toNat_lt
  simp only [List.mem_cons, List.not_mem_nil, or_false] at hdigit
  rcases hdigit with rfl | rfl
  · exact ⟨byte.toNat / 16, by omega, rfl⟩
  · exact ⟨byte.toNat % 16, by omega, rfl⟩

theorem trim_shaText : trim (shaText sha) = shaText sha := by
  apply trim_of_noWhitespace
  intro char hmem
  obtain ⟨value, hvalue, rfl⟩ := digit_of_mem_shaText sha hmem
  have hplain : ∀ value < 16, isWhitespace value.digitChar = false := by decide
  exact hplain value hvalue

/-- The bytes of a checksum file. -/
def shaBytes : Bytes := (shaText sha).flatMap String.utf8EncodeChar

theorem length_shaBytes : (shaBytes sha).length = 40 := by
  have hsize : ∀ value < 16, value.digitChar.utf8Size = 1 := by decide
  have hall : ∀ char ∈ shaText sha, (String.utf8EncodeChar char).length = 1 := by
    intro char hmem
    obtain ⟨value, hvalue, rfl⟩ := digit_of_mem_shaText sha hmem
    rw [String.length_utf8EncodeChar, hsize value hvalue]
  rw [shaBytes, List.length_flatMap, List.map_congr_left hall]
  simp [length_shaText]

theorem decodeUtf8_shaBytes : decodeUtf8 (shaBytes sha) = some (shaText sha) := by
  have hback : fromUtf8Lossy (shaBytes sha) = shaText sha := fromUtf8Lossy_encodeUtf8 _
  unfold decodeUtf8
  simp only [hback]
  exact if_pos rfl

end Sha

end DepotDownloader.SteamClient
