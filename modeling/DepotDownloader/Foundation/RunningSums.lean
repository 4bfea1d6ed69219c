import Mathlib.Algebra.BigOperators.Fin
import Mathlib.Data.Nat.ModEq
import Mathlib.Tactic.Linarith
import Mathlib.Tactic.Ring

/-! # Two running sums

Along a sequence the first sum adds up the values of the items, the second one adds up
what the first one has come to. Both may be reduced on the way, as rarely as one likes:
the residues in the end are the same. What the sums can reach between two reductions is
what the largest items reach.
-/

namespace Foundation

namespace RunningSums

universe u

variable {α : Type u} (value : α → Nat)

/-- One item: first the first sum, then the second one, by the new first sum. -/
def advance (sums : Nat × Nat) (item : α) : Nat × Nat :=
  (sums.1 + value item, sums.2 + (sums.1 + value item))

/-- Every value as often as there are items from it on. -/
def weighted : List α → Nat
  | [] => 0
  | item :: rest => (rest.length + 1) * value item + weighted rest

theorem foldl_advance (sums : Nat × Nat) (items : List α) :
    items.foldl (advance value) sums =
      (sums.1 + (items.map value).sum,
        sums.2 + (items.length * sums.1 + weighted value items)) := by
  induction items generalizing sums with
  | nil => simp [weighted]
  | cons item rest ih =>
      rw [List.foldl_cons, ih]
      apply Prod.ext
      · simp only [advance, List.map_cons, List.sum_cons]
        ring
      · simp only [advance, weighted, List.length_cons]
        ring

theorem weighted_eq_sum (items : List α) :
    weighted value items =
      ∑ index : Fin items.length, (items.length - index) * value items[index] := by
  induction items with
  | nil => rfl
  | cons item rest ih =>
      have hsplit := Fin.sum_univ_succ fun index : Fin (rest.length + 1) =>
        (rest.length + 1 - index) * value ((item :: rest)[index])
      refine Eq.trans ?_ hsplit.symm
      rw [weighted, ih]
      congr 1
      apply Finset.sum_congr rfl
      intro index _
      rw [Fin.val_succ, Nat.add_sub_add_right]
      rfl

section Reduction

variable (modulus : Nat)

def reduce (sums : Nat × Nat) : Nat × Nat := (sums.1 % modulus, sums.2 % modulus)

/-- The items between two reductions, and the reduction behind them. -/
def addPiece (sums : Nat × Nat) (piece : List α) : Nat × Nat :=
  reduce modulus (piece.foldl (advance value) sums)

theorem addPiece_reduce (sums : Nat × Nat) (piece : List α) :
    addPiece value modulus (reduce modulus sums) piece = addPiece value modulus sums piece := by
  have hfirst : sums.1 % modulus ≡ sums.1 [MOD modulus] := Nat.mod_modEq _ _
  have hsecond : sums.2 % modulus ≡ sums.2 [MOD modulus] := Nat.mod_modEq _ _
  unfold addPiece
  rw [foldl_advance, foldl_advance]
  apply Prod.ext
  · exact hfirst.add_right _
  · exact hsecond.add ((hfirst.mul_left _).add_right _)

/-- It does not matter where the sequence is cut for the reductions. -/
theorem foldl_addPiece (pieces : List (List α)) (sums : Nat × Nat) :
    pieces.foldl (addPiece value modulus) (reduce modulus sums) =
      reduce modulus (pieces.flatten.foldl (advance value) sums) := by
  induction pieces generalizing sums with
  | nil => rfl
  | cons piece rest ih =>
      rw [List.foldl_cons, addPiece_reduce, List.flatten_cons, List.foldl_append]
      exact ih _

end Reduction

section Growth

variable {value} {sums : Nat × Nat} {items : List α} {bound top length : Nat}

theorem second_le_foldl (sums : Nat × Nat) (items : List α) :
    sums.2 ≤ (items.foldl (advance value) sums).2 := by
  rw [foldl_advance]
  exact Nat.le_add_right _ _

theorem two_mul_weighted_le (hbound : ∀ item ∈ items, value item ≤ bound) :
    2 * weighted value items ≤ bound * (items.length * (items.length + 1)) := by
  induction items with
  | nil => simp [weighted]
  | cons item rest ih =>
      have hrest := ih fun other hmem => hbound other (List.mem_cons_of_mem _ hmem)
      have hitem : (rest.length + 1) * value item ≤ (rest.length + 1) * bound :=
        Nat.mul_le_mul_left _ (hbound item List.mem_cons_self)
      calc 2 * weighted value (item :: rest)
          = 2 * ((rest.length + 1) * value item) + 2 * weighted value rest := by
            rw [weighted, Nat.mul_add]
        _ ≤ 2 * ((rest.length + 1) * bound) + bound * (rest.length * (rest.length + 1)) :=
            Nat.add_le_add (Nat.mul_le_mul_left _ hitem) hrest
        _ = bound * ((item :: rest).length * ((item :: rest).length + 1)) := by
            rw [List.length_cons]
            ring

theorem two_mul_weighted_replicate (length : Nat) (item : α) :
    2 * weighted value (List.replicate length item) = value item * (length * (length + 1)) := by
  induction length with
  | zero => simp [weighted]
  | succ length ih =>
      rw [List.replicate_succ, weighted, Nat.mul_add, ih, List.length_replicate]
      ring

/-- Twice what the second sum can reach over so many items of bounded values when both
sums start at a top value. -/
def peak (top bound length : Nat) : Nat :=
  2 * ((length + 1) * top) + bound * (length * (length + 1))

theorem peak_mono {longer : Nat} (hle : length ≤ longer) :
    peak top bound length ≤ peak top bound longer := by
  unfold peak
  gcongr

theorem two_mul_second_le_peak (hfirst : sums.1 ≤ top) (hsecond : sums.2 ≤ top)
    (hbound : ∀ item ∈ items, value item ≤ bound) (hlength : items.length ≤ length) :
    2 * (items.foldl (advance value) sums).2 ≤ peak top bound length := by
  have hweighted := two_mul_weighted_le hbound
  have hstart : sums.2 + items.length * sums.1 ≤ (items.length + 1) * top := by
    calc sums.2 + items.length * sums.1
        ≤ top + items.length * top := Nat.add_le_add hsecond (Nat.mul_le_mul_left _ hfirst)
      _ = (items.length + 1) * top := by ring
  refine le_trans ?_ (peak_mono hlength)
  rw [foldl_advance, peak]
  linarith

/-- The largest items do reach the peak. -/
theorem two_mul_second_replicate (top length : Nat) (item : α) :
    2 * ((List.replicate length item).foldl (advance value) (top, top)).2 =
      peak top (value item) length := by
  rw [foldl_advance, List.length_replicate, peak, Nat.mul_add, Nat.mul_add 2 (length * top),
    two_mul_weighted_replicate]
  ring

end Growth

end RunningSums

end Foundation
