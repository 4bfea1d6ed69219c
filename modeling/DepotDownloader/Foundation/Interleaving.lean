import Mathlib.Data.List.Basic

/-! # Interleavings

A sequence interleaves several shares when it is made of their members, each share in its
own order. Sequences and shares grow at their ends.
-/

namespace Foundation

universe u

variable {α : Type u}

/-- The events are those of the shares, each with the share it belongs to. -/
inductive Interleaves : List (List α) → List α → Prop
  | nil {shares : List (List α)} (hempty : ∀ share ∈ shares, share = []) : Interleaves shares []
  | snoc {shares : List (List α)} {events : List α} {index : Nat} {share : List α} {event : α}
      (hrest : Interleaves shares events) (hshare : shares[index]? = some share) :
      Interleaves (shares.set index (share ++ [event])) (events ++ [event])

namespace Interleaves

variable {shares : List (List α)} {events : List α} {event : α}

/-- A new share is empty at first. -/
theorem push (hinterleaves : Interleaves shares events) :
    Interleaves (shares ++ [[]]) events := by
  induction hinterleaves with
  | nil hempty =>
      refine .nil fun share hmem => ?_
      rcases List.mem_append.mp hmem with hold | hnew
      · exact hempty share hold
      · exact List.mem_singleton.mp hnew
  | @snoc shares events index share event _ hshare ih =>
      have hlt := (List.getElem?_eq_some_iff.mp hshare).1
      rw [← List.set_append_left _ _ hlt]
      exact ih.snoc (by rw [List.getElem?_append_left hlt, hshare])

theorem push_one (hinterleaves : Interleaves shares events) (event : α) :
    Interleaves (shares ++ [[event]]) (events ++ [event]) := by
  have hlast : (shares ++ [[]])[shares.length]? = some [] := List.getElem?_concat_length
  have hset : (shares ++ [[]]).set shares.length ([] ++ [event]) = shares ++ [[event]] := by
    simp
  exact hset ▸ hinterleaves.push.snoc hlast

/-- Every event is in a share. -/
theorem mem (hinterleaves : Interleaves shares events) (hmem : event ∈ events) :
    ∃ share ∈ shares, event ∈ share := by
  induction hinterleaves with
  | nil => cases hmem
  | @snoc shares events index share last _ hshare ih =>
      have hlt := (List.getElem?_eq_some_iff.mp hshare).1
      rcases List.mem_append.mp hmem with hold | hnew
      · obtain ⟨other, hother, hevent⟩ := ih hold
        obtain ⟨position, hposition⟩ := List.mem_iff_getElem?.mp hother
        by_cases heq : index = position
        · subst heq
          obtain rfl : share = other := Option.some.inj (hshare.symm.trans hposition)
          exact ⟨share ++ [last], List.mem_set hlt _, List.mem_append_left _ hevent⟩
        · refine ⟨other, List.mem_iff_getElem?.mpr ⟨position, ?_⟩, hevent⟩
          rw [List.getElem?_set_ne heq, hposition]
      · exact ⟨share ++ [last], List.mem_set hlt _, List.mem_append_right _ hnew⟩

end Interleaves

section Parties

variable {β : Type*} {share : α → Option β} {parties : List α} {index : Nat} {party party' : α}

/-- A party that keeps its share leaves the shares alone. -/
theorem filterMap_set_of_eq (hparty : parties[index]? = some party)
    (hsame : share party' = share party) :
    (parties.set index party').filterMap share = parties.filterMap share := by
  induction parties generalizing index with
  | nil => cases hparty
  | cons head tail ih =>
      cases index with
      | zero =>
          obtain rfl := Option.some.inj hparty
          simp [List.filterMap_cons, hsame]
      | succ index => simp [List.filterMap_cons, ih hparty]

/-- A party that gets a share adds it to the shares. -/
theorem perm_filterMap_set {event : β} (hparty : parties[index]? = some party)
    (hnone : share party = none) (hsome : share party' = some event) :
    ((parties.set index party').filterMap share).Perm (parties.filterMap share ++ [event]) := by
  induction parties generalizing index with
  | nil => cases hparty
  | cons head tail ih =>
      cases index with
      | zero =>
          obtain rfl := Option.some.inj hparty
          simpa [List.filterMap_cons, hnone, hsome] using List.perm_append_singleton _ _ |>.symm
      | succ index =>
          rw [List.set_cons_succ, List.filterMap_cons, List.filterMap_cons]
          cases share head with
          | none => exact ih hparty
          | some other => exact (ih hparty).cons other

/-- A new party without a share. -/
theorem filterMap_append_of_none (hnone : share party = none) :
    (parties ++ [party]).filterMap share = parties.filterMap share := by
  rw [List.filterMap_append, List.filterMap_cons_none hnone, List.filterMap_nil, List.append_nil]

/-- When no share occurs twice, it tells its party. -/
theorem eq_of_nodup_filterMap {event : β} {other : Nat} {party' : α}
    (hnodup : (parties.filterMap share).Nodup) (hparty : parties[index]? = some party)
    (hother : parties[other]? = some party') (hshare : share party = some event)
    (hshare' : share party' = some event) : index = other := by
  induction parties generalizing index other with
  | nil => cases hparty
  | cons head tail ih =>
      have hnot {position : Nat} {found : α} (hhead : share head = some event)
          (hfound : tail[position]? = some found) (hevent : share found = some event) : False := by
        rw [List.filterMap_cons, hhead] at hnodup
        exact (List.nodup_cons.mp hnodup).1
          (List.mem_filterMap.mpr ⟨found, List.mem_of_getElem? hfound, hevent⟩)
      cases index with
      | zero =>
          obtain rfl := Option.some.inj hparty
          cases other with
          | zero => rfl
          | succ other => exact (hnot hshare hother hshare').elim
      | succ index =>
          cases other with
          | zero =>
              obtain rfl := Option.some.inj hother
              exact (hnot hshare' hparty hshare).elim
          | succ other =>
              refine congrArg (· + 1) (ih ?_ hparty hother)
              rw [List.filterMap_cons] at hnodup
              cases hhead : share head with
              | none => simpa only [hhead] using hnodup
              | some found =>
                  simp only [hhead] at hnodup
                  exact (List.nodup_cons.mp hnodup).2

/-- What holds of all parties holds after one of them has changed. -/
theorem forall_mem_set {property : α → Prop} (hall : ∀ party ∈ parties, property party)
    (hchanged : property party') : ∀ party ∈ parties.set index party', property party := by
  intro other hmem
  rcases List.mem_or_eq_of_mem_set hmem with hold | rfl
  · exact hall other hold
  · exact hchanged

end Parties

end Foundation
