import DepotDownloader.Foundation.Machine
import Mathlib.Data.Option.Basic

/-! # Runs that agree up to skipped moves

Two machines take the same moves through related states, except that one of them also makes
moves that the other does not know. Every run of either then has a run of the other beside
it, and they end in related states.
-/

namespace Foundation.Machine

universe u v w

variable {State : Type u} {Reduced : Type v} {Move : Type w} {machine : Machine State Move}
  {reduced : Machine Reduced Move}

/-- The machine skips some of its moves. A skipped move is always enabled and lowers the
rank, so that it is not made forever. -/
structure Stutters (machine : Machine State Move) (reduced : Machine Reduced Move)
    (related : State → Reduced → Prop) (skips : State → Move → Prop) (rank : State → Nat) :
    Prop where
  matched : ∀ state other move, related state other → ¬ skips state move →
    Option.Rel related (machine.step state move) (reduced.step other move)
  skipped : ∀ state other move, related state other → skips state move →
    ∃ next, machine.step state move = some next ∧ related next other ∧ rank next < rank state

namespace Stutters

variable {related : State → Reduced → Prop} {skips : State → Move → Prop} {rank : State → Nat}
  {state final : State} {other last : Reduced} {moves : List Move}

/-- A run without its skipped moves. -/
theorem reduce (hstutters : machine.Stutters reduced related skips rank)
    (hrelated : related state other) (hrun : machine.run state moves = some final) :
    ∃ kept last, kept.Sublist moves ∧ reduced.run other kept = some last ∧ related final last := by
  induction moves generalizing state other with
  | nil => exact ⟨[], other, .slnil, rfl, Option.some.inj hrun ▸ hrelated⟩
  | cons move rest ih =>
      obtain ⟨next, hstep, hrest⟩ := machine.run_cons_eq_some.mp hrun
      by_cases hskips : skips state move
      · obtain ⟨following, hfollowing, hnext, _⟩ := hstutters.skipped _ _ _ hrelated hskips
        obtain rfl : next = following := Option.some.inj (hstep.symm.trans hfollowing)
        obtain ⟨kept, last, hsub, hkept, hfinal⟩ := ih hnext hrest
        exact ⟨kept, last, hsub.cons move, hkept, hfinal⟩
      · have hmatched := hstutters.matched _ _ _ hrelated hskips
        rw [hstep] at hmatched
        cases hother : reduced.step other move with
        | none =>
            rw [hother] at hmatched
            cases hmatched
        | some following =>
            rw [hother] at hmatched
            obtain ⟨hnext⟩ := hmatched
            obtain ⟨kept, last, hsub, hkept, hfinal⟩ := ih hnext hrest
            exact ⟨move :: kept, last, hsub.cons_cons move,
              (run_cons_eq_some _).mpr ⟨following, hother, hkept⟩, hfinal⟩

/-- The machine catches up, and makes the move of the other one. -/
theorem catchUp (hstutters : machine.Stutters reduced related skips rank) {move : Move}
    {following : Reduced} (hrelated : related state other)
    (hstep : reduced.step other move = some following) :
    ∃ front next, machine.run state (front ++ [move]) = some next ∧ related next following := by
  induction hrank : rank state using Nat.strong_induction_on generalizing state with
  | _ bound ih =>
      by_cases hskips : skips state move
      · obtain ⟨next, hnext, hkept, hlt⟩ := hstutters.skipped _ _ _ hrelated hskips
        obtain ⟨front, later, hrun, hlater⟩ := ih (rank next) (hrank ▸ hlt) hkept rfl
        exact ⟨move :: front, later, (run_cons_eq_some _).mpr ⟨next, hnext, hrun⟩, hlater⟩
      · have hmatched := hstutters.matched _ _ _ hrelated hskips
        rw [hstep] at hmatched
        cases hnext : machine.step state move with
        | none =>
            rw [hnext] at hmatched
            cases hmatched
        | some next =>
            rw [hnext] at hmatched
            obtain ⟨hfollowing⟩ := hmatched
            exact ⟨[], next, (run_cons_eq_some _).mpr ⟨next, hnext, rfl⟩, hfollowing⟩

/-- A run with skipped moves put back. -/
theorem expand (hstutters : machine.Stutters reduced related skips rank)
    (hrelated : related state other) (hrun : reduced.run other moves = some last) :
    ∃ full final, moves.Sublist full ∧ machine.run state full = some final ∧
      related final last := by
  induction moves generalizing state other with
  | nil => exact ⟨[], state, .slnil, rfl, Option.some.inj hrun ▸ hrelated⟩
  | cons move rest ih =>
      obtain ⟨following, hstep, hrest⟩ := reduced.run_cons_eq_some.mp hrun
      obtain ⟨front, next, hfront, hnext⟩ := hstutters.catchUp hrelated hstep
      obtain ⟨full, final, hsub, hfull, hfinal⟩ := ih hnext hrest
      refine ⟨front ++ [move] ++ full, final, ?_,
        (run_append_eq_some _).mpr ⟨next, hfront, hfull⟩, hfinal⟩
      rw [List.append_assoc]
      exact (hsub.cons_cons move).trans (List.sublist_append_right front _)

end Stutters

/-- Machines whose steps agree under an invariant have the same runs. -/
theorem run_eq_of_invariant {other : Machine State Move} {invariant : State → Prop}
    (hsteps : ∀ state move, invariant state → machine.step state move = other.step state move)
    (hkept : ∀ state move next, invariant state → machine.step state move = some next →
      invariant next)
    {state : State} (hstate : invariant state) (moves : List Move) :
    machine.run state moves = other.run state moves := by
  induction moves generalizing state with
  | nil => rfl
  | cons move rest ih =>
      rw [run, run, ← hsteps state move hstate]
      cases hstep : machine.step state move with
      | none => rfl
      | some next => exact ih (hkept state move next hstate hstep)

end Foundation.Machine
