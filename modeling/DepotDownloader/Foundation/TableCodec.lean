import DepotDownloader.Foundation.ByteString
import Mathlib.Logic.Encodable.Basic
import Mathlib.Logic.Equiv.List

/-! # Codecs with given texts

A codec for a countable type that has given texts for some of its values. All other
values are counted in unary. It is self-delimiting: what is left of a text that lost
its end is not decoded.
-/

namespace Foundation.TableCodec

universe u

instance encodableUInt8 : Encodable UInt8 :=
  .ofLeftInverse UInt8.toNat UInt8.ofNat fun _ => UInt8.ofNat_toNat

instance encodableUInt32 : Encodable UInt32 :=
  .ofLeftInverse UInt32.toNat UInt32.ofNat fun _ => UInt32.ofNat_toNat

instance encodableUInt64 : Encodable UInt64 :=
  .ofLeftInverse UInt64.toNat UInt64.ofNat fun _ => UInt64.ofNat_toNat

instance encodableChar : Encodable Char := .ofLeftInverse Char.toNat Char.ofNat Char.ofNat_toNat

instance encodableString : Encodable String :=
  .ofLeftInverse String.toList String.ofList fun _ => String.ofList_toList

/-- The text of a value that the table does not list. -/
def counted (count : Nat) : Bytes := List.replicate count 1 ++ [0]

@[simp] theorem length_counted (count : Nat) : (counted count).length = count + 1 := by
  simp [counted]

theorem head_counted (count : Nat) :
    (counted count).head? = some 0 ∨ (counted count).head? = some 1 := by
  cases count with
  | zero => exact .inl rfl
  | succ count => exact .inr rfl

variable {α : Type u} (table : List (α × Bytes))

/-- The given texts stand apart from each other and from the counted ones. -/
structure Apart : Prop where
  texts : ∀ entry ∈ table, ∀ other ∈ table, entry.2 <+: other.2 → entry = other
  uncounted : ∀ entry ∈ table, ∀ byte ∈ entry.2.head?, byte ≠ 0 ∧ byte ≠ 1
  nonempty : ∀ entry ∈ table, entry.2 ≠ []

theorem apart_nil : Apart ([] : List (α × Bytes)) where
  texts _ hmem := absurd hmem List.not_mem_nil
  uncounted _ hmem := absurd hmem List.not_mem_nil
  nonempty _ hmem := absurd hmem List.not_mem_nil

/-- A single text has to start like no counted one. -/
theorem apart_single {entry : α × Bytes} (hhead : (entry.2.head?).any (· ≥ 2) = true) :
    Apart [entry] where
  texts other hmem other' hmem' _ :=
    (List.mem_singleton.mp hmem).trans (List.mem_singleton.mp hmem').symm
  uncounted other hmem byte hbyte := by
    rw [List.mem_singleton.mp hmem, Option.mem_def] at hbyte
    rw [hbyte, Option.any_some, decide_eq_true_eq] at hhead
    constructor
    · rintro rfl
      exact absurd hhead (by decide)
    · rintro rfl
      exact absurd hhead (by decide)
  nonempty other hmem := by
    rw [List.mem_singleton.mp hmem]
    intro hempty
    rw [hempty] at hhead
    cases hhead

variable {table} in
theorem Apart.ne_counted (hapart : Apart table) {entry : α × Bytes} (hmem : entry ∈ table)
    (count : Nat) : entry.2 ≠ counted count := by
  intro heq
  have hhead := hapart.uncounted entry hmem
  rw [heq] at hhead
  rcases head_counted count with hzero | hone
  · exact (hhead 0 hzero).1 rfl
  · exact (hhead 1 hone).2 rfl

variable [DecidableEq α] [Encodable α]

def encode (value : α) : Bytes :=
  match table.find? fun entry => entry.1 = value with
  | some entry => entry.2
  | none => counted (Encodable.encode value)

def decode (text : Bytes) : Option α :=
  match table.find? fun entry => entry.2 = text with
  | some entry => some entry.1
  | none => if text = counted (text.length - 1) then Encodable.decode (text.length - 1) else none

variable {table}

/-- What is encoded is decoded. -/
theorem decode_encode (hapart : Apart table) (value : α) :
    decode table (encode table value) = some value := by
  unfold encode
  cases hfound : table.find? fun entry => entry.1 = value with
  | some entry =>
      have hmem := List.mem_of_find?_eq_some hfound
      have hvalue : entry.1 = value := by simpa using List.find?_some hfound
      have hback : table.find? (fun other => other.2 = entry.2) = some entry := by
        cases hother : table.find? fun other => other.2 = entry.2 with
        | none => exact absurd (decide_eq_true rfl) (List.find?_eq_none.mp hother entry hmem)
        | some other =>
            have htext : other.2 = entry.2 := by simpa using List.find?_some hother
            have hsame := hapart.texts other (List.mem_of_find?_eq_some hother) entry hmem
              (htext ▸ List.prefix_rfl)
            rw [hsame]
      simp [decode, hback, hvalue]
  | none =>
      have hnone :
          table.find? (fun entry => entry.2 = counted (Encodable.encode value)) = none := by
        apply List.find?_eq_none.mpr
        intro entry hmem
        simpa using hapart.ne_counted hmem _
      simp [decode, hnone, Encodable.encodek]

/-- A text that lost its end is not decoded. -/
theorem decode_cut (hapart : Apart table) (value : α) {written : Nat}
    (hcut : written < (encode table value).length) :
    decode table ((encode table value).take written) = none := by
  unfold encode at hcut ⊢
  cases hfound : table.find? fun entry => entry.1 = value with
  | some entry =>
      simp only [hfound] at hcut ⊢
      have hmem := List.mem_of_find?_eq_some hfound
      -- no text of the table begins another one, so a cut text is none of them
      have hnone : table.find? (fun other => other.2 = entry.2.take written) = none := by
        apply List.find?_eq_none.mpr
        intro other hother heq
        have htext : other.2 = entry.2.take written := of_decide_eq_true heq
        have hsame := hapart.texts other hother entry hmem (htext ▸ List.take_prefix _ _)
        rw [hsame] at htext
        have hlength := congrArg List.length htext
        rw [List.length_take] at hlength
        omega
      unfold decode
      simp only [hnone]
      apply if_neg
      intro heq
      have hhead := head_counted ((entry.2.take written).length - 1)
      rw [← heq, List.head?_take] at hhead
      split at hhead
      next => simp at hhead
      next =>
        rcases hhead with hzero | hone
        · exact (hapart.uncounted entry hmem 0 hzero).1 rfl
        · exact (hapart.uncounted entry hmem 1 hone).2 rfl
  | none =>
      simp only [hfound, length_counted] at hcut ⊢
      -- a cut count has lost its last byte, which ends the count
      have hones : (counted (Encodable.encode value)).take written = List.replicate written 1 := by
        rw [counted, List.take_append_of_le_length (by rw [List.length_replicate]; omega),
          List.take_replicate, Nat.min_eq_left (by omega)]
      have hnone : table.find? (fun entry =>
          entry.2 = (counted (Encodable.encode value)).take written) = none := by
        apply List.find?_eq_none.mpr
        intro entry hmem heq
        have htext : entry.2 = (counted (Encodable.encode value)).take written :=
          of_decide_eq_true heq
        rw [hones] at htext
        cases written with
        | zero => exact hapart.nonempty entry hmem htext
        | succ written =>
            have hhead := hapart.uncounted entry hmem
            rw [htext] at hhead
            exact (hhead 1 rfl).2 rfl
      unfold decode
      simp only [hnone]
      apply if_neg
      rw [hones, List.length_replicate]
      intro heq
      have hlast := congrArg List.getLast? heq
      rw [counted, List.getLast?_append, List.getLast?_replicate] at hlast
      split at hlast <;> simp at hlast

theorem encode_given (entry : α × Bytes) (rest : List (α × Bytes)) :
    encode (entry :: rest) entry.1 = entry.2 := by
  simp [encode]

end Foundation.TableCodec
