import Mathlib.Algebra.Ring.Nat
import Mathlib.Data.List.Basic

/-! # Reading and writing regions of byte strings

A file's content is a byte string. Positioned reads take exactly the requested
bytes or fail; positioned writes fill a gap behind the end with zero bytes. A
write leaves every region that shares no position with it unchanged.
-/

namespace Foundation

abbrev Bytes := List UInt8

namespace Bytes

/-- Cut a byte string to a length, or extend it with zero bytes. -/
def resize (data : Bytes) (size : Nat) : Bytes :=
  data.take size ++ List.replicate (size - data.length) 0

/-- Write at a position. Writing nothing does not extend the string. -/
def writeAt (data : Bytes) (offset : Nat) (bytes : Bytes) : Bytes :=
  if bytes = [] then data
  else data.take offset ++ List.replicate (offset - data.length) 0 ++ bytes ++
    data.drop (offset + bytes.length)

/-- Read exactly `size` bytes at a position. Reading nothing always succeeds. -/
def readAt (data : Bytes) (offset size : Nat) : Option Bytes :=
  if size = 0 ∨ offset + size ≤ data.length then some ((data.drop offset).take size) else none

/-- The positions of a region. -/
def InRegion (offset size position : Nat) : Prop :=
  offset ≤ position ∧ position < offset + size

/-- Two regions share no position. -/
def Apart (offset size offset' size' : Nat) : Prop :=
  ∀ position, InRegion offset size position → ¬ InRegion offset' size' position

theorem Apart.symm {offset size offset' size' : Nat} (hapart : Apart offset size offset' size') :
    Apart offset' size' offset size :=
  fun position hright hleft => hapart position hleft hright

@[simp] theorem length_resize (data : Bytes) (size : Nat) : (resize data size).length = size := by
  simp only [resize, List.length_append, List.length_take, List.length_replicate]
  omega

theorem resize_nil (size : Nat) : resize [] size = List.replicate size 0 := by
  simp [resize]

theorem length_writeAt {data bytes : Bytes} {offset : Nat}
    (hfits : offset + bytes.length ≤ data.length) :
    (writeAt data offset bytes).length = data.length := by
  unfold writeAt
  split
  · rfl
  · simp only [List.length_append, List.length_take, List.length_replicate, List.length_drop]
    omega

theorem getElem?_writeAt_of_not_inRegion {data bytes : Bytes} {offset position : Nat}
    (hfits : offset + bytes.length ≤ data.length)
    (hout : ¬ InRegion offset bytes.length position) :
    (writeAt data offset bytes)[position]? = data[position]? := by
  unfold writeAt
  split
  · rfl
  · have hpad : offset - data.length = 0 := by omega
    have htake : (data.take offset).length = offset := by
      simp only [List.length_take]
      omega
    rw [hpad, List.replicate_zero, List.append_nil, List.append_assoc]
    by_cases hlow : position < offset
    · rw [List.getElem?_append_left (by omega), List.getElem?_take_of_lt hlow]
    · have hhigh : offset + bytes.length ≤ position := by
        simp only [InRegion] at hout
        omega
      rw [List.getElem?_append_right (by omega), List.getElem?_append_right (by omega),
        List.getElem?_drop]
      congr 1
      omega

theorem readAt_writeAt_self {data bytes : Bytes} {offset : Nat}
    (hfits : offset + bytes.length ≤ data.length) :
    readAt (writeAt data offset bytes) offset bytes.length = some bytes := by
  have hlength := length_writeAt hfits
  unfold readAt
  rw [if_pos (by omega)]
  unfold writeAt
  split
  next hnil => simp [hnil]
  next =>
    have hpad : offset - data.length = 0 := by omega
    have htake : (data.take offset).length = offset := by
      simp only [List.length_take]
      omega
    rw [hpad, List.replicate_zero, List.append_nil, List.append_assoc,
      List.drop_append_of_le_length (by omega), List.drop_of_length_le (by omega),
      List.nil_append, List.take_append_of_le_length (by omega), List.take_length]

/-- A successful read depends only on the length and on the bytes inside its
region. -/
theorem readAt_congr {data data' : Bytes} {offset size : Nat}
    (hlength : data'.length = data.length)
    (hsame : ∀ position, InRegion offset size position → data'[position]? = data[position]?) :
    readAt data' offset size = readAt data offset size := by
  unfold readAt
  rw [hlength]
  split
  · congr 1
    apply List.ext_getElem?
    intro index
    by_cases hindex : index < size
    · rw [List.getElem?_take_of_lt hindex, List.getElem?_take_of_lt hindex,
        List.getElem?_drop, List.getElem?_drop]
      exact hsame _ ⟨by omega, by omega⟩
    · rw [List.getElem?_take_eq_none (by omega), List.getElem?_take_eq_none (by omega)]
  · rfl

theorem readAt_writeAt_of_apart {data bytes : Bytes} {offset offset' size : Nat}
    (hfits : offset' + bytes.length ≤ data.length)
    (hapart : Apart offset size offset' bytes.length) :
    readAt (writeAt data offset' bytes) offset size = readAt data offset size :=
  readAt_congr (length_writeAt hfits) fun position hin =>
    getElem?_writeAt_of_not_inRegion hfits (hapart position hin)

theorem length_of_readAt {data bytes : Bytes} {offset size : Nat}
    (hread : readAt data offset size = some bytes) : bytes.length = size := by
  unfold readAt at hread
  split at hread
  next hfits =>
    rw [Option.some.injEq] at hread
    rw [← hread, List.length_take, List.length_drop]
    omega
  next => cases hread

/-- The write of some bytes at a position leaves a file of that length no longer. -/
def Fits (length offset : Nat) (bytes : Bytes) : Prop := bytes = [] ∨ offset + bytes.length ≤ length

/-- Writing nothing changes nothing, anything else may extend the file. -/
theorem length_writeAt_max {data bytes : Bytes} {offset : Nat} (hbytes : bytes ≠ []) :
    (writeAt data offset bytes).length = max data.length (offset + bytes.length) := by
  unfold writeAt
  rw [if_neg hbytes]
  simp only [List.length_append, List.length_take, List.length_replicate, List.length_drop]
  omega

theorem writeAt_nil (data : Bytes) (offset : Nat) : writeAt data offset [] = data := by
  unfold writeAt
  rw [if_pos rfl]

theorem le_length_writeAt (data : Bytes) (offset : Nat) (bytes : Bytes) :
    data.length ≤ (writeAt data offset bytes).length := by
  by_cases hbytes : bytes = []
  · rw [hbytes, writeAt_nil]
  · rw [length_writeAt_max hbytes]
    exact Nat.le_max_left _ _

theorem length_writeAt_iff {data bytes : Bytes} {offset : Nat} :
    (writeAt data offset bytes).length = data.length ↔ Fits data.length offset bytes := by
  unfold Fits
  by_cases hbytes : bytes = []
  · rw [hbytes, writeAt_nil]
    simp
  · rw [length_writeAt_max hbytes, or_iff_right hbytes]
    omega

theorem Fits.readAt_self {data bytes : Bytes} {offset : Nat}
    (hfits : Fits data.length offset bytes) :
    readAt (writeAt data offset bytes) offset bytes.length = some bytes := by
  rcases hfits with rfl | hfits
  · simp [readAt]
  · exact readAt_writeAt_self hfits

theorem Fits.readAt_of_apart {data bytes : Bytes} {offset offset' size : Nat}
    (hfits : Fits data.length offset' bytes) (hapart : Apart offset size offset' bytes.length) :
    readAt (writeAt data offset' bytes) offset size = readAt data offset size := by
  rcases hfits with rfl | hfits
  · rw [writeAt_nil]
  · exact readAt_writeAt_of_apart hfits hapart

/-- The writes of a list, one after the other. -/
def overlay (data : Bytes) (writes : List (Nat × Bytes)) : Bytes :=
  writes.foldl (fun data write => writeAt data write.1 write.2) data

section Overlay

variable {data : Bytes} {writes : List (Nat × Bytes)}

@[simp] theorem overlay_nil (data : Bytes) : overlay data [] = data := rfl

theorem overlay_cons (data : Bytes) (write : Nat × Bytes) (rest : List (Nat × Bytes)) :
    overlay data (write :: rest) = overlay (writeAt data write.1 write.2) rest := rfl

theorem overlay_concat (data : Bytes) (writes : List (Nat × Bytes)) (write : Nat × Bytes) :
    overlay data (writes ++ [write]) = writeAt (overlay data writes) write.1 write.2 := by
  unfold overlay
  rw [List.foldl_append]
  rfl

theorem le_length_overlay : data.length ≤ (overlay data writes).length := by
  induction writes generalizing data with
  | nil => exact Nat.le_refl _
  | cons write rest ih => exact Nat.le_trans (le_length_writeAt data write.1 write.2) ih

/-- The length stays exactly when every write fits. -/
theorem length_overlay_iff : (overlay data writes).length = data.length ↔
    ∀ write ∈ writes, Fits data.length write.1 write.2 := by
  induction writes generalizing data with
  | nil => simp
  | cons write rest ih =>
      rw [overlay_cons, List.forall_mem_cons]
      constructor
      · intro hlength
        have hhead : (writeAt data write.1 write.2).length = data.length := by
          have hrest : (writeAt data write.1 write.2).length ≤
              (overlay (writeAt data write.1 write.2) rest).length := le_length_overlay
          have hself := le_length_writeAt data write.1 write.2
          omega
        exact ⟨length_writeAt_iff.mp hhead, hhead ▸ ih.mp (hlength.trans hhead.symm)⟩
      · rintro ⟨hfits, hrest⟩
        have hhead := length_writeAt_iff.mpr hfits
        rw [← hhead] at hrest ⊢
        exact ih.mpr hrest

/-- A region apart from all the writes keeps its bytes. -/
theorem readAt_overlay_of_apart {offset size : Nat}
    (hfits : ∀ write ∈ writes, Fits data.length write.1 write.2)
    (hapart : ∀ write ∈ writes, Apart offset size write.1 write.2.length) :
    readAt (overlay data writes) offset size = readAt data offset size := by
  induction writes generalizing data with
  | nil => rfl
  | cons write rest ih =>
      obtain ⟨hhead, hrest⟩ := List.forall_mem_cons.mp hfits
      obtain ⟨hfirst, hothers⟩ := List.forall_mem_cons.mp hapart
      rw [overlay_cons, ih (length_writeAt_iff.mpr hhead ▸ hrest) hothers]
      exact hhead.readAt_of_apart hfirst

/-- Writes to regions apart from each other are all read back. -/
theorem readAt_overlay_of_mem {write : Nat × Bytes}
    (hfits : ∀ write ∈ writes, Fits data.length write.1 write.2)
    (hapart : writes.Pairwise fun left right => Apart left.1 left.2.length right.1 right.2.length)
    (hmem : write ∈ writes) :
    readAt (overlay data writes) write.1 write.2.length = some write.2 := by
  induction writes generalizing data with
  | nil => cases hmem
  | cons head rest ih =>
      obtain ⟨hfirst, hothers⟩ := List.pairwise_cons.mp hapart
      obtain ⟨hhead, hrest⟩ := List.forall_mem_cons.mp hfits
      rw [← length_writeAt_iff.mpr hhead] at hrest
      rw [overlay_cons]
      rcases List.mem_cons.mp hmem with rfl | hlater
      · rw [readAt_overlay_of_apart hrest hfirst]
        exact hhead.readAt_self
      · exact ih hrest hothers hlater

end Overlay

end Bytes

end Foundation
