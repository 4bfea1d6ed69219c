import Mathlib.Algebra.Ring.Nat
import Mathlib.Data.List.Induction

/-! # Runs of partial deterministic machines

A machine advances one state by one move, or refuses the move. Concurrency is
carried by the moves: a move names the party that acts, so the moves of a run
are one interleaving and a statement about every run speaks of all of them.
-/

namespace Foundation

universe u v w

/-- A partial step function. `none` means that the move is not enabled. -/
structure Machine (State : Type u) (Move : Type v) where
  step : State → Move → Option State

namespace Machine

variable {State : Type u} {Move : Type v} (machine : Machine State Move)

/-- Execute the moves in order, refusing the run at the first disabled move. -/
def run : State → List Move → Option State
  | state, [] => some state
  | state, move :: rest => (machine.step state move).bind fun next => run next rest

@[simp] theorem run_nil (state : State) : machine.run state [] = some state := rfl

theorem run_cons_eq_some {state final : State} {move : Move} {rest : List Move} :
    machine.run state (move :: rest) = some final ↔
      ∃ middle, machine.step state move = some middle ∧ machine.run middle rest = some final := by
  simp only [run, Option.bind_eq_some_iff]

theorem run_append_eq_some {state final : State} {first second : List Move} :
    machine.run state (first ++ second) = some final ↔
      ∃ middle, machine.run state first = some middle ∧
        machine.run middle second = some final := by
  induction first generalizing state with
  | nil => simp
  | cons move rest ih =>
      simp only [List.cons_append, run_cons_eq_some, ih]
      constructor
      · rintro ⟨next, hstep, middle, hfirst, hsecond⟩
        exact ⟨middle, ⟨next, hstep, hfirst⟩, hsecond⟩
      · rintro ⟨middle, ⟨next, hstep, hfirst⟩, hsecond⟩
        exact ⟨next, hstep, middle, hfirst, hsecond⟩

/-- A run on a fixed input is found by executing it. -/
theorem exists_of_run_any {property : State → Bool} {state : State} {moves : List Move}
    (hany : (machine.run state moves).any property = true) :
    ∃ final, machine.run state moves = some final ∧ property final = true := by
  cases hrun : machine.run state moves with
  | none => simp [hrun] at hany
  | some final => exact ⟨final, rfl, by simpa [hrun] using hany⟩

/-- An invariant that every allowed step keeps holds after every run made of
allowed moves. -/
theorem run_invariant {invariant : State → Prop} {allowed : Move → Prop}
    (hstep : ∀ state move next, invariant state → allowed move →
      machine.step state move = some next → invariant next)
    {state final : State} {moves : List Move} (hallowed : ∀ move ∈ moves, allowed move)
    (hstate : invariant state) (hrun : machine.run state moves = some final) :
    invariant final := by
  induction moves generalizing state with
  | nil =>
      simp only [run_nil, Option.some.injEq] at hrun
      exact hrun ▸ hstate
  | cons move rest ih =>
      obtain ⟨middle, hfirst, hrest⟩ := machine.run_cons_eq_some.mp hrun
      have hmiddle := hstep state move middle hstate (hallowed move List.mem_cons_self) hfirst
      exact ih (fun other hmem => hallowed other (List.mem_cons_of_mem _ hmem)) hmiddle hrest

/-- A run whose steps all meet a condition on the state they start from. -/
def RunWhere (condition : State → Move → Prop) : State → List Move → State → Prop
  | state, [], final => state = final
  | state, move :: rest, final =>
      condition state move ∧ ∃ middle, machine.step state move = some middle ∧
        RunWhere condition middle rest final

theorem RunWhere.run_eq {condition : State → Move → Prop} {state final : State}
    {moves : List Move} (hrun : machine.RunWhere condition state moves final) :
    machine.run state moves = some final := by
  induction moves generalizing state with
  | nil => exact congrArg some hrun
  | cons move rest ih =>
      obtain ⟨_, middle, hstep, hrest⟩ := hrun
      exact machine.run_cons_eq_some.mpr ⟨middle, hstep, ih hrest⟩

theorem RunWhere.invariant {condition : State → Move → Prop} {invariant : State → Prop}
    (hstep : ∀ state move next, invariant state → condition state move →
      machine.step state move = some next → invariant next)
    {state final : State} {moves : List Move} (hstate : invariant state)
    (hrun : machine.RunWhere condition state moves final) : invariant final := by
  induction moves generalizing state with
  | nil => exact (show state = final from hrun) ▸ hstate
  | cons move rest ih =>
      obtain ⟨hcondition, middle, hmiddle, hrest⟩ := hrun
      exact ih (hstep state move middle hstate hcondition hmiddle) hrest

/-- When a step keeps an invariant exactly if it meets a condition, every state of a run
has the invariant exactly if all steps meet the condition. -/
theorem runWhere_iff_invariant {condition : State → Move → Prop} {invariant : State → Prop}
    (hstep : ∀ state move next, invariant state → machine.step state move = some next →
      (invariant next ↔ condition state move))
    {state final : State} {moves : List Move} (hstate : invariant state)
    (hrun : machine.run state moves = some final) :
    machine.RunWhere condition state moves final ↔
      ∀ done middle, done <+: moves → machine.run state done = some middle → invariant middle := by
  induction moves generalizing state with
  | nil =>
      refine iff_of_true (Option.some.inj hrun) ?_
      intro done middle hlead hdone
      rw [List.prefix_nil.mp hlead, run_nil] at hdone
      exact Option.some.inj hdone ▸ hstate
  | cons move rest ih =>
      obtain ⟨next, hnext, hrest⟩ := machine.run_cons_eq_some.mp hrun
      constructor
      · rintro ⟨hcondition, other, hother, hwhere⟩ done middle hlead hdone
        obtain rfl : next = other := Option.some.inj (hnext.symm.trans hother)
        rcases List.prefix_cons_iff.mp hlead with rfl | ⟨tail, rfl, htail⟩
        · exact Option.some.inj hdone ▸ hstate
        · obtain ⟨first, hfirst, hmiddle⟩ := machine.run_cons_eq_some.mp hdone
          obtain rfl : next = first := Option.some.inj (hnext.symm.trans hfirst)
          have hinvariant := (hstep state move next hstate hnext).mpr hcondition
          exact (ih hinvariant hrest).mp hwhere tail middle htail hmiddle
      · intro hall
        have hinvariant : invariant next := hall [move] next
          ((List.prefix_cons_inj move).mpr List.nil_prefix)
          (machine.run_cons_eq_some.mpr ⟨next, hnext, rfl⟩)
        refine ⟨(hstep state move next hstate hnext).mp hinvariant, next, hnext,
          (ih hinvariant hrest).mpr ?_⟩
        intro done middle hlead hdone
        exact hall (move :: done) middle ((List.prefix_cons_inj move).mpr hlead)
          (machine.run_cons_eq_some.mpr ⟨next, hnext, hdone⟩)

/-- When a step has a property exactly if it meets a condition, all steps of a run have the
property exactly if they meet the condition. -/
theorem runWhere_iff_steps {condition : State → Move → Prop}
    {property : State → Move → State → Prop}
    (hstep : ∀ state move next, machine.step state move = some next →
      (property state move next ↔ condition state move))
    {state final : State} {moves : List Move} (hrun : machine.run state moves = some final) :
    machine.RunWhere condition state moves final ↔
      ∀ done move rest before after, moves = done ++ move :: rest →
        machine.run state done = some before → machine.step before move = some after →
          property before move after := by
  induction moves generalizing state with
  | nil =>
      refine iff_of_true (Option.some.inj hrun) ?_
      intro done move rest before after hsplit
      cases done <;> cases hsplit
  | cons move rest ih =>
      obtain ⟨next, hnext, hrest⟩ := machine.run_cons_eq_some.mp hrun
      constructor
      · rintro ⟨hcondition, other, hother, hwhere⟩ done last tail before after hsplit hdone hlast
        obtain rfl : next = other := Option.some.inj (hnext.symm.trans hother)
        cases done with
        | nil =>
            obtain ⟨rfl, rfl⟩ := List.cons.inj hsplit
            obtain rfl := Option.some.inj hdone
            exact (hstep state move after hlast).mpr hcondition
        | cons first done =>
            obtain ⟨rfl, hback⟩ := List.cons.inj hsplit
            obtain ⟨second, hsecond, hmiddle⟩ := machine.run_cons_eq_some.mp hdone
            obtain rfl : next = second := Option.some.inj (hnext.symm.trans hsecond)
            exact (ih hrest).mp hwhere done last tail before after hback hmiddle hlast
      · intro hall
        have hproperty := hall [] move rest state next rfl rfl hnext
        refine ⟨(hstep state move next hnext).mp hproperty, next, hnext, (ih hrest).mpr ?_⟩
        intro done last tail before after hsplit hdone hlast
        exact hall (move :: done) last tail before after (congrArg (move :: ·) hsplit)
          (machine.run_cons_eq_some.mpr ⟨next, hnext, hdone⟩) hlast

/-- The machine that refuses the moves that do not meet a condition. -/
def guarded (condition : State → Move → Prop) [∀ state move, Decidable (condition state move)] :
    Machine State Move :=
  ⟨fun state move => if condition state move then machine.step state move else none⟩

/-- A run that meets a decidable condition is found by executing it. -/
theorem runWhere_of_guarded {condition : State → Move → Prop}
    [∀ state move, Decidable (condition state move)] {state final : State} {moves : List Move}
    (hrun : (machine.guarded condition).run state moves = some final) :
    machine.RunWhere condition state moves final := by
  induction moves generalizing state with
  | nil => exact Option.some.inj hrun
  | cons move rest ih =>
      obtain ⟨middle, hstep, hrest⟩ := (run_cons_eq_some _).mp hrun
      simp only [guarded] at hstep
      split at hstep
      next hcondition => exact ⟨hcondition, middle, hstep, ih hrest⟩
      next => cases hstep

/-- A condition that follows from another one and an invariant may replace it. -/
theorem RunWhere.weaken {condition weaker : State → Move → Prop} {invariant : State → Prop}
    (hstep : ∀ state move next, invariant state → condition state move →
      machine.step state move = some next → invariant next ∧ weaker state move)
    {state final : State} {moves : List Move} (hstate : invariant state)
    (hrun : machine.RunWhere condition state moves final) :
    machine.RunWhere weaker state moves final := by
  induction moves generalizing state with
  | nil => exact hrun
  | cons move rest ih =>
      obtain ⟨hcondition, middle, hmiddle, hrest⟩ := hrun
      obtain ⟨hnext, hweaker⟩ := hstep state move middle hstate hcondition hmiddle
      exact ⟨hweaker, middle, hmiddle, ih hnext hrest⟩

/-- The machine with a history variable, which no step reads. -/
def recording {History : Type w} (note : State → Move → History → History) :
    Machine (State × History) Move where
  step config move :=
    (machine.step config.1 move).map fun next => (next, note config.1 move config.2)

/-- A history variable changes no run. -/
theorem run_recording {History : Type w} (note : State → Move → History → History)
    (config : State × History) (moves : List Move) :
    ((machine.recording note).run config moves).map Prod.fst = machine.run config.1 moves := by
  induction moves generalizing config with
  | nil => rfl
  | cons move rest ih =>
      cases hstep : machine.step config.1 move with
      | none => simp [run, recording, hstep]
      | some next =>
          have htail := ih (next, note config.1 move config.2)
          simpa [run, recording, hstep] using htail

/-- Every allowed step lowers the rank, and a state that is not final has an
allowed step. Together they make every interleaving of allowed moves finish. -/
structure Terminating (invariant : State → Prop) (allowed : Move → Prop)
    (final : State → Prop) (rank : State → Nat) : Prop where
  preserved : ∀ state move next, invariant state → allowed move →
    machine.step state move = some next → invariant next
  decreasing : ∀ state move next, invariant state → allowed move →
    machine.step state move = some next → rank next < rank state
  progress : ∀ state, invariant state → ¬ final state →
    ∃ move next, allowed move ∧ machine.step state move = some next

variable {machine} {invariant : State → Prop} {allowed : Move → Prop}
  {final : State → Prop} {rank : State → Nat}

theorem Terminating.run_length_le (hterm : machine.Terminating invariant allowed final rank)
    {state last : State} {moves : List Move} (hallowed : ∀ move ∈ moves, allowed move)
    (hstate : invariant state) (hrun : machine.run state moves = some last) :
    moves.length + rank last ≤ rank state := by
  induction moves generalizing state with
  | nil =>
      simp only [run_nil, Option.some.injEq] at hrun
      simp [hrun]
  | cons move rest ih =>
      obtain ⟨middle, hfirst, hrest⟩ := machine.run_cons_eq_some.mp hrun
      have hmove := hallowed move List.mem_cons_self
      have htail := ih (fun other hmem => hallowed other (List.mem_cons_of_mem _ hmem))
        (hterm.preserved state move middle hstate hmove hfirst) hrest
      have hlt := hterm.decreasing state move middle hstate hmove hfirst
      simp only [List.length_cons]
      omega

/-- A scheduler that keeps an invariant and lowers a rank drives the machine to a
final state. -/
theorem exists_run_to_final
    (hprogress : ∀ state, invariant state → ¬ final state →
      ∃ move next, machine.step state move = some next ∧ invariant next ∧ rank next < rank state)
    (state : State) (hstate : invariant state) :
    ∃ moves last, machine.run state moves = some last ∧ invariant last ∧ final last := by
  induction hrank : rank state using Nat.strong_induction_on generalizing state with
  | _ bound ih =>
      by_cases hfinal : final state
      · exact ⟨[], state, rfl, hstate, hfinal⟩
      · obtain ⟨move, next, hstep, hnext, hlt⟩ := hprogress state hstate hfinal
        obtain ⟨moves, last, hrun, hlast⟩ := ih (rank next) (hrank ▸ hlt) next hnext rfl
        exact ⟨move :: moves, last, (run_cons_eq_some _).mpr ⟨next, hstep, hrun⟩, hlast⟩

/-- When one of several parties lowers its rank, their sum falls. -/
theorem sum_map_set_lt {α : Type u} {rank : α → Nat} {parties : List α} {position : Nat}
    {party party' : α} (hparty : parties[position]? = some party)
    (hlt : rank party' < rank party) :
    ((parties.set position party').map rank).sum < (parties.map rank).sum := by
  induction parties generalizing position with
  | nil => simp at hparty
  | cons head tail ih =>
      cases position with
      | zero =>
          simp only [List.getElem?_cons_zero, Option.some.injEq] at hparty
          subst hparty
          simpa using hlt
      | succ position =>
          simp only [List.getElem?_cons_succ] at hparty
          have htail := ih hparty
          simp only [List.set_cons_succ, List.map_cons, List.sum_cons]
          omega

end Machine

end Foundation
