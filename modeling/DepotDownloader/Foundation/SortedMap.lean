import Mathlib.Data.List.Sort

/-! # Maps as sorted lists

A map whose items carry their own keys is a list in strictly rising order of keys.
Inserting replaces an item with the same key. Inserting the items of a map in any
order gives the map.
-/

namespace Foundation.SortedMap

universe u v

variable {α : Type u} {κ : Type v} [LinearOrder κ] (key : α → κ)

def insert (item : α) : List α → List α
  | [] => [item]
  | first :: rest =>
      if key item < key first then item :: first :: rest
      else if key item = key first then item :: rest
      else first :: insert item rest

/-- The keys are in strictly rising order. -/
def Sorted (items : List α) : Prop := items.Pairwise fun left right => key left < key right

variable {key} {item : α} {items order : List α}

theorem mem_insert {other : α} (hmem : other ∈ insert key item items) :
    other = item ∨ other ∈ items := by
  induction items with
  | nil => exact .inl (List.mem_singleton.mp hmem)
  | cons first rest ih =>
      unfold insert at hmem
      split at hmem
      · exact List.mem_cons.mp hmem
      · split at hmem
        · rcases List.mem_cons.mp hmem with heq | hrest
          · exact .inl heq
          · exact .inr (List.mem_cons_of_mem _ hrest)
        · rcases List.mem_cons.mp hmem with heq | hrest
          · exact .inr (heq ▸ List.mem_cons_self)
          · exact (ih hrest).imp id (List.mem_cons_of_mem _)

theorem Sorted.insert (hsorted : Sorted key items) (item : α) :
    Sorted key (insert key item items) := by
  induction items with
  | nil => exact List.pairwise_singleton _ _
  | cons first rest ih =>
      obtain ⟨hfirst, hrest⟩ := List.pairwise_cons.mp hsorted
      unfold SortedMap.insert
      split
      next hlt =>
        apply List.pairwise_cons.mpr
        refine ⟨fun other hmem => ?_, hsorted⟩
        rcases List.mem_cons.mp hmem with rfl | hmem
        · exact hlt
        · exact lt_trans hlt (hfirst other hmem)
      next hge =>
        split
        next heq =>
          apply List.pairwise_cons.mpr
          refine ⟨fun other hmem => ?_, hrest⟩
          rw [heq]
          exact hfirst other hmem
        next hne =>
          apply List.pairwise_cons.mpr
          refine ⟨fun other hmem => ?_, ih hrest⟩
          rcases mem_insert hmem with rfl | hmem
          · exact lt_of_le_of_ne (not_lt.mp hge) (Ne.symm hne)
          · exact hfirst other hmem

theorem insert_perm (hnew : ∀ other ∈ items, key other ≠ key item) :
    (insert key item items).Perm (item :: items) := by
  induction items with
  | nil => exact List.Perm.refl _
  | cons first rest ih =>
      unfold insert
      rw [if_neg (hnew first List.mem_cons_self).symm]
      split
      · exact List.Perm.refl _
      · have hrest := ih fun other hmem => hnew other (List.mem_cons_of_mem _ hmem)
        exact (hrest.cons first).trans (List.Perm.swap item first rest)

/-- Items with keys of their own all end up in the map. -/
theorem foldl_insert (hsorted : Sorted key items)
    (hnew : ((items ++ order).map key).Nodup) :
    Sorted key (order.foldl (fun items item => insert key item items) items) ∧
      (order.foldl (fun items item => insert key item items) items).Perm (items ++ order) := by
  induction order generalizing items with
  | nil => exact ⟨hsorted, by simp⟩
  | cons item order ih =>
      have hperm : (insert key item items).Perm (item :: items) := by
        apply insert_perm
        intro other hmem heq
        rw [List.map_append, List.nodup_append] at hnew
        exact hnew.2.2 (key other) (List.mem_map_of_mem hmem) (key item)
          (List.mem_map_of_mem List.mem_cons_self) heq
      have hall : (insert key item items ++ order).Perm (items ++ item :: order) :=
        (hperm.append_right order).trans List.perm_middle.symm
      obtain ⟨hrest, hmoved⟩ := ih (hsorted.insert item)
        ((hall.map key).nodup_iff.mpr hnew)
      exact ⟨hrest, hmoved.trans hall⟩

theorem Sorted.nodup (hsorted : Sorted key items) : (items.map key).Nodup := by
  rw [List.nodup_iff_pairwise_ne, List.pairwise_map]
  exact hsorted.imp fun hlt => ne_of_lt hlt

/-- Inserting the items of a map in any order gives the map. -/
theorem foldl_insert_perm (hsorted : Sorted key items) (hperm : order.Perm items) :
    order.foldl (fun items item => insert key item items) [] = items := by
  have hnew : ((order).map key).Nodup := (hperm.map key).nodup_iff.mpr hsorted.nodup
  obtain ⟨hrest, hall⟩ := @foldl_insert _ _ _ key [] order List.Pairwise.nil hnew
  apply List.Perm.eq_of_pairwise _ hrest hsorted (hall.trans hperm)
  intro left right _ _ hlt hgt
  exact absurd hgt (lt_asymm hlt)

end Foundation.SortedMap
