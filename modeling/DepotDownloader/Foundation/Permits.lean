import DepotDownloader.Foundation.Machine
import Mathlib.Data.List.Perm.Subperm

/-! # Workers that need a permit

A machine some of whose moves are moves of workers. Under a semaphore a worker first
acquires one of a fixed number of permits and gives it back when it has finished. The
limited machine does nothing that the machine could not do, at most as many workers are
at work as there are permits, and with a permit at all it gets as far as the machine.
-/

namespace Foundation

universe u v w

/-- The workers of a machine: whose move a move is, who has been spawned, has started, has
finished. -/
structure Crew (State : Type u) (Move : Type v) (Worker : Type w) where
  worker : Move → Option Worker
  spawned : State → List Worker
  started : State → Worker → Bool
  finished : State → Worker → Bool

/-- A move of the machine, or a worker that gets its permit. -/
inductive PermitMove (Move : Type v) (Worker : Type w) where
  | acquire (worker : Worker)
  | move (move : Move)
  deriving DecidableEq

namespace Crew

variable {State : Type u} {Move : Type v} {Worker : Type w} [DecidableEq Worker]
  (crew : Crew State Move Worker) (machine : Machine State Move) (permits : Nat)

/-- Those who have a permit, among all who have acquired one. -/
def holders (config : State × List Worker) : List Worker :=
  config.2.filter fun worker => !crew.finished config.1 worker

/-- The machine under a semaphore. The second component lists the workers that have acquired
their permits. -/
def limited : Machine (State × List Worker) (PermitMove Move Worker) where
  step config
    | .acquire worker =>
        if worker ∈ crew.spawned config.1 ∧ worker ∉ config.2 ∧
            crew.finished config.1 worker = false ∧ (crew.holders config).length < permits then
          some (config.1, worker :: config.2)
        else none
    | .move move =>
        if ∀ worker ∈ crew.worker move, worker ∈ config.2 then
          (machine.step config.1 move).map fun next => (next, config.2)
        else none

/-- The moves of the machine itself. -/
def erased (moves : List (PermitMove Move Worker)) : List Move :=
  moves.filterMap fun
    | .acquire _ => none
    | .move move => some move

/-- A worker spawns once, starts by its first move and stays finished. -/
structure Lawful : Prop where
  spawned : ∀ state move next, machine.step state move = some next →
    crew.spawned state ⊆ crew.spawned next ∧
      (crew.spawned next).length ≤ (crew.spawned state).length + 1
  works : ∀ state move next worker, machine.step state move = some next →
    crew.worker move = some worker →
      worker ∈ crew.spawned state ∧ crew.finished state worker = false
  started : ∀ state move next worker, machine.step state move = some next →
    (crew.started next worker = true ↔
      crew.started state worker = true ∨ crew.worker move = some worker)
  finished : ∀ state move next worker, machine.step state move = some next →
    worker ∈ crew.spawned state → crew.finished state worker = true →
      crew.finished next worker = true

/-- Who has a permit has acquired it, once, and there are not more of them than permits. -/
structure Kept (config : State × List Worker) : Prop where
  nodup : config.2.Nodup
  spawned : config.2 ⊆ crew.spawned config.1
  bounded : (crew.holders config).length ≤ permits
  started : ∀ worker, crew.started config.1 worker = true → worker ∈ config.2

variable {crew machine permits}

section Invariant

omit [DecidableEq Worker]

variable {config : State × List Worker}

theorem Kept.initial {state : State} (hfresh : ∀ worker, crew.started state worker = false) :
    crew.Kept permits (state, []) where
  nodup := List.nodup_nil
  spawned := List.nil_subset _
  bounded := Nat.zero_le _
  started worker hstarted := by
    rw [hfresh worker] at hstarted
    cases hstarted

theorem Kept.acquire (hkept : crew.Kept permits config) {worker : Worker}
    (hspawned : worker ∈ crew.spawned config.1) (hnew : worker ∉ config.2)
    (hfree : (crew.holders config).length < permits) :
    crew.Kept permits (config.1, worker :: config.2) where
  nodup := List.nodup_cons.mpr ⟨hnew, hkept.nodup⟩
  spawned := List.cons_subset.mpr ⟨hspawned, hkept.spawned⟩
  bounded := by
    refine Nat.le_trans ?_ (Nat.succ_le_of_lt hfree)
    unfold holders
    rw [List.filter_cons]
    split <;> simp
  started other hstarted := List.mem_cons_of_mem _ (hkept.started other hstarted)

theorem Kept.move (hlawful : crew.Lawful machine) (hkept : crew.Kept permits config)
    {move : Move} {state : State} (howner : ∀ worker ∈ crew.worker move, worker ∈ config.2)
    (hstep : machine.step config.1 move = some state) :
    crew.Kept permits (state, config.2) where
  nodup := hkept.nodup
  spawned := List.Subset.trans hkept.spawned (hlawful.spawned _ _ _ hstep).1
  bounded := by
    refine Nat.le_trans ?_ hkept.bounded
    unfold holders
    rw [← List.countP_eq_length_filter, ← List.countP_eq_length_filter]
    refine List.countP_mono_left fun worker hmem hworks => ?_
    -- who has finished stays finished
    by_contra hbefore
    have hfinished : crew.finished config.1 worker = true := by simpa using hbefore
    rw [hlawful.finished _ _ _ worker hstep (hkept.spawned hmem) hfinished] at hworks
    cases hworks
  started worker hstarted := by
    rcases (hlawful.started _ _ _ worker hstep).mp hstarted with hbefore | hmove
    · exact hkept.started worker hbefore
    · exact howner worker hmove

/-- Those who are at work have a permit. -/
theorem Kept.working_le (hkept : crew.Kept permits config) {busy : List Worker}
    (hnodup : busy.Nodup)
    (hbusy : ∀ worker ∈ busy, worker ∈ config.2 ∧ crew.finished config.1 worker = false) :
    busy.length ≤ permits := by
  have hholds : busy ⊆ crew.holders config := fun worker hmem => by
    obtain ⟨hacquired, hworks⟩ := hbusy worker hmem
    exact List.mem_filter.mpr ⟨hacquired, by simp [hworks]⟩
  exact Nat.le_trans (List.subperm_of_subset hnodup hholds).length_le hkept.bounded

theorem Kept.length_le (hkept : crew.Kept permits config) :
    config.2.length ≤ (crew.spawned config.1).length :=
  (List.subperm_of_subset hkept.nodup hkept.spawned).length_le

end Invariant

section Runs

variable {config next : State × List Worker}

/-- The two kinds of steps. -/
theorem limited_cases {move : PermitMove Move Worker}
    (hstep : (crew.limited machine permits).step config move = some next) :
    (∃ worker, move = .acquire worker ∧ worker ∈ crew.spawned config.1 ∧ worker ∉ config.2 ∧
        (crew.holders config).length < permits ∧ next = (config.1, worker :: config.2)) ∨
      ∃ own state, move = .move own ∧ (∀ worker ∈ crew.worker own, worker ∈ config.2) ∧
        machine.step config.1 own = some state ∧ next = (state, config.2) := by
  cases move with
  | acquire worker =>
      simp only [limited] at hstep
      split at hstep
      next henabled =>
        cases hstep
        exact .inl ⟨worker, rfl, henabled.1, henabled.2.1, henabled.2.2.2, rfl⟩
      next => cases hstep
  | move own =>
      simp only [limited] at hstep
      split at hstep
      next howner =>
        obtain ⟨state, hstate, rfl⟩ := Option.map_eq_some_iff.mp hstep
        exact .inr ⟨own, state, rfl, howner, hstate, rfl⟩
      next => cases hstep

theorem Kept.step (hlawful : crew.Lawful machine) (hkept : crew.Kept permits config)
    {move : PermitMove Move Worker}
    (hstep : (crew.limited machine permits).step config move = some next) :
    crew.Kept permits next := by
  rcases limited_cases hstep with
    ⟨worker, _, hspawned, hnew, hfree, rfl⟩ | ⟨own, state, _, howner, hown, rfl⟩
  · exact hkept.acquire hspawned hnew hfree
  · exact hkept.move hlawful howner hown

theorem Kept.run (hlawful : crew.Lawful machine) (hkept : crew.Kept permits config)
    {moves : List (PermitMove Move Worker)}
    (hrun : (crew.limited machine permits).run config moves = some next) :
    crew.Kept permits next :=
  Machine.run_invariant _ (fun _ _ _ hkept (_ : True) hstep => hkept.step hlawful hstep)
    (fun _ _ => trivial) hkept hrun

/-- Without the permits the run is a run of the machine. -/
theorem run_erased {moves : List (PermitMove Move Worker)}
    (hrun : (crew.limited machine permits).run config moves = some next) :
    machine.run config.1 (erased moves) = some next.1 := by
  induction moves generalizing config with
  | nil => exact congrArg (Option.map Prod.fst) hrun
  | cons move rest ih =>
      obtain ⟨middle, hstep, hrest⟩ := Machine.run_cons_eq_some _ |>.mp hrun
      have htail := ih hrest
      rcases limited_cases hstep with
        ⟨worker, rfl, _, _, _, rfl⟩ | ⟨own, state, rfl, _, hown, rfl⟩
      · exact htail
      · exact (machine.run_cons_eq_some).mpr ⟨state, hown, htail⟩

/-- The worker that moves and those that have started and not finished: there are not more of
them than permits. -/
def AtWork (crew : Crew State Move Worker) (permits : Nat) (state : State) (move : Move) : Prop :=
  ∀ busy : List Worker, busy.Nodup →
    (∀ worker ∈ busy, crew.worker move = some worker ∨
      (crew.started state worker = true ∧ crew.finished state worker = false)) →
    busy.length ≤ permits

omit [DecidableEq Worker] in
theorem atWork_of_step (hlawful : crew.Lawful machine) (hkept : crew.Kept permits config)
    {move : Move} {state : State} (howner : ∀ worker ∈ crew.worker move, worker ∈ config.2)
    (hstep : machine.step config.1 move = some state) : crew.AtWork permits config.1 move := by
  refine fun busy hnodup hbusy => hkept.working_le hnodup fun worker hmem => ?_
  rcases hbusy worker hmem with hmove | ⟨hstarted, hworks⟩
  · exact ⟨howner worker hmove, (hlawful.works _ _ _ worker hstep hmove).2⟩
  · exact ⟨hkept.started worker hstarted, hworks⟩

/-- A worker that makes its first move can acquire a permit first. -/
theorem acquire_of_atWork (hlawful : crew.Lawful machine) (hkept : crew.Kept permits config)
    (hstarted : ∀ worker ∈ config.2, crew.started config.1 worker = true)
    {move : Move} {state : State} (hwork : crew.AtWork permits config.1 move)
    (hstep : machine.step config.1 move = some state) :
    ∃ waits acquired, erased waits = [] ∧
      (crew.limited machine permits).run config waits = some (config.1, acquired) ∧
      crew.Kept permits (config.1, acquired) ∧
      (∀ worker ∈ crew.worker move, worker ∈ acquired) ∧
      ∀ worker ∈ acquired, crew.started state worker = true := by
  have hkeeps (worker : Worker) (hmem : worker ∈ config.2) : crew.started state worker = true :=
    (hlawful.started _ _ _ worker hstep).mpr (.inl (hstarted worker hmem))
  by_cases howner : ∀ worker ∈ crew.worker move, worker ∈ config.2
  · exact ⟨[], config.2, rfl, rfl, hkept, howner, hkeeps⟩
  · push Not at howner
    obtain ⟨worker, hworker, hnew⟩ := howner
    obtain ⟨hspawned, hworks⟩ := hlawful.works _ _ _ worker hstep hworker
    have hfree : (crew.holders config).length < permits := by
      refine hwork (worker :: crew.holders config) ?_ ?_
      · refine List.nodup_cons.mpr ⟨fun hmem => hnew (List.mem_filter.mp hmem).1, ?_⟩
        exact hkept.nodup.filter _
      · refine List.forall_mem_cons.mpr ⟨.inl hworker, fun holder hholder => .inr ?_⟩
        obtain ⟨hmem, hholds⟩ := List.mem_filter.mp hholder
        exact ⟨hstarted holder hmem, by simpa using hholds⟩
    refine ⟨[.acquire worker], worker :: config.2, rfl, ?_, hkept.acquire hspawned hnew hfree,
      ?_, ?_⟩
    · refine Machine.run_cons_eq_some _ |>.mpr ⟨_, ?_, rfl⟩
      exact if_pos ⟨hspawned, hnew, hworks, hfree⟩
    · intro other hother
      obtain rfl := Option.some.inj (hworker.symm.trans hother)
      exact List.mem_cons_self
    · refine List.forall_mem_cons.mpr ⟨?_, hkeeps⟩
      exact (hlawful.started _ _ _ worker hstep).mpr (.inr hworker)

theorem runWhere_of_limited (hlawful : crew.Lawful machine) (hkept : crew.Kept permits config)
    {permitted : List (PermitMove Move Worker)}
    (hrun : (crew.limited machine permits).run config permitted = some next) :
    machine.RunWhere (crew.AtWork permits) config.1 (erased permitted) next.1 := by
  induction permitted generalizing config with
  | nil => exact congrArg Prod.fst (Option.some.inj hrun)
  | cons move rest ih =>
      obtain ⟨middle, hstep, hrest⟩ := Machine.run_cons_eq_some _ |>.mp hrun
      have htail := ih (hkept.step hlawful hstep) hrest
      rcases limited_cases hstep with
        ⟨worker, rfl, _, _, _, rfl⟩ | ⟨own, state, rfl, howner, hown, rfl⟩
      · exact htail
      · exact ⟨atWork_of_step hlawful hkept howner hown, state, hown, htail⟩

theorem exists_limited (hlawful : crew.Lawful machine) (hkept : crew.Kept permits config)
    (hstarted : ∀ worker ∈ config.2, crew.started config.1 worker = true)
    {final : State} {moves : List Move}
    (hrun : machine.RunWhere (crew.AtWork permits) config.1 moves final) :
    ∃ permitted acquired, erased permitted = moves ∧
      (crew.limited machine permits).run config permitted = some (final, acquired) := by
  induction moves generalizing config with
  | nil =>
      obtain rfl : config.1 = final := hrun
      exact ⟨[], config.2, rfl, rfl⟩
  | cons move rest ih =>
      obtain ⟨hwork, middle, hstep, hrest⟩ := hrun
      obtain ⟨waits, acquired, hwaits, hacquire, hkept, howner, hstarted⟩ :=
        acquire_of_atWork hlawful hkept hstarted hwork hstep
      obtain ⟨permitted, last, rfl, hlast⟩ :=
        ih (hkept.move hlawful howner hstep) hstarted hrest
      refine ⟨waits ++ .move move :: permitted, last, ?_, ?_⟩
      · exact List.filterMap_append.trans (congrArg (· ++ move :: erased permitted) hwaits)
      · refine (Machine.run_append_eq_some _).mpr ⟨_, hacquire, ?_⟩
        refine (Machine.run_cons_eq_some _).mpr ⟨(middle, acquired), ?_, hlast⟩
        simp only [limited, if_pos howner, hstep, Option.map_some]

/-- The runs of the limited machine are those of the machine in which never more workers are at
work than there are permits. -/
theorem limited_iff (hlawful : crew.Lawful machine) {state final : State} {moves : List Move}
    (hfresh : ∀ worker, crew.started state worker = false) :
    (∃ permitted acquired, erased permitted = moves ∧
      (crew.limited machine permits).run (state, []) permitted = some (final, acquired)) ↔
      machine.RunWhere (crew.AtWork permits) state moves final := by
  constructor
  · rintro ⟨permitted, acquired, rfl, hrun⟩
    exact runWhere_of_limited hlawful (.initial hfresh) hrun
  · exact exists_limited hlawful (.initial hfresh) (List.forall_mem_nil _)

/-- Without a permit no worker ever moves. -/
theorem run_without_permits {moves : List (PermitMove Move Worker)} {state : State}
    (hrun : (crew.limited machine 0).run (state, []) moves = some next) :
    next.2 = [] ∧ ∀ move ∈ erased moves, crew.worker move = none := by
  induction moves generalizing state with
  | nil =>
      obtain rfl := Option.some.inj hrun
      exact ⟨rfl, List.forall_mem_nil _⟩
  | cons move rest ih =>
      obtain ⟨middle, hstep, hrest⟩ := Machine.run_cons_eq_some _ |>.mp hrun
      rcases limited_cases hstep with
        ⟨worker, _, _, _, hfree, _⟩ | ⟨own, after, rfl, howner, _, rfl⟩
      · exact absurd hfree (Nat.not_lt_zero _)
      · obtain ⟨hnone, htail⟩ := ih hrest
        refine ⟨hnone, List.forall_mem_cons.mpr ⟨?_, htail⟩⟩
        cases hworker : crew.worker own with
        | none => rfl
        | some worker => exact absurd (howner worker hworker) List.not_mem_nil

/-- The moves that are allowed, besides the acquiring. -/
def PermitAllowed (allowed : Move → Prop) : PermitMove Move Worker → Prop
  | .acquire _ => True
  | .move move => allowed move

/-- With a permit the limited machine terminates where the machine does, as long as it does not
wait for workers that wait for others that have not started. -/
theorem limited_terminating {invariant : State → Prop} {allowed : Move → Prop}
    {final : State → Prop} {rank : State → Nat} (hlawful : crew.Lawful machine)
    (hpermits : 0 < permits) (hterm : machine.Terminating invariant allowed final rank)
    (hworks : ∀ state worker, invariant state → worker ∈ crew.spawned state →
      crew.finished state worker = false →
        ∃ move next, allowed move ∧ machine.step state move = some next ∧
          ∀ other ∈ crew.worker move, other = worker ∨ crew.started state other = true) :
    (crew.limited machine permits).Terminating
      (fun config => invariant config.1 ∧ crew.Kept permits config) (PermitAllowed allowed)
      (fun config => final config.1)
      (fun config => 2 * rank config.1 + (crew.spawned config.1).length - config.2.length) where
  preserved := by
    rintro config move next ⟨hinvariant, hkept⟩ hallowed hstep
    refine ⟨?_, hkept.step hlawful hstep⟩
    rcases limited_cases hstep with ⟨worker, _, _, _, _, rfl⟩ | ⟨own, state, rfl, _, hown, rfl⟩
    · exact hinvariant
    · exact hterm.preserved _ _ _ hinvariant hallowed hown
  decreasing := by
    rintro config move next ⟨hinvariant, hkept⟩ hallowed hstep
    have hlength := hkept.length_le
    have hlength' := (hkept.step hlawful hstep).length_le
    rcases limited_cases hstep with ⟨worker, _, _, _, _, rfl⟩ | ⟨own, state, rfl, _, hown, rfl⟩
    · simp only [List.length_cons] at hlength' ⊢
      omega
    · have hlt := hterm.decreasing _ _ _ hinvariant hallowed hown
      have hgrows := (hlawful.spawned _ _ _ hown).2
      simp only at hlength' ⊢
      omega
  progress := by
    rintro ⟨state, acquired⟩ ⟨hinvariant, hkept⟩ hrunning
    -- a move of the machine whose worker has a permit
    have hmove {move : Move} {next : State} (hallowed : allowed move)
        (hstep : machine.step state move = some next)
        (howner : ∀ worker ∈ crew.worker move, worker ∈ acquired) :
        ∃ move next, PermitAllowed allowed move ∧
          (crew.limited machine permits).step (state, acquired) move = some next := by
      refine ⟨.move move, (next, acquired), hallowed, ?_⟩
      simp only [limited, if_pos howner, hstep, Option.map_some]
    obtain ⟨move, next, hallowed, hstep⟩ := hterm.progress state hinvariant hrunning
    cases hworker : crew.worker move with
    | none => exact hmove hallowed hstep (by rw [hworker]; exact nofun)
    | some worker =>
        obtain ⟨hspawned, hunfinished⟩ := hlawful.works _ _ _ worker hstep hworker
        by_cases hholders : crew.holders (state, acquired) = []
        · have hnew : worker ∉ acquired := fun hmem => by
            have hholds : worker ∈ crew.holders (state, acquired) :=
              List.mem_filter.mpr ⟨hmem, by simp [hunfinished]⟩
            rw [hholders] at hholds
            cases hholds
          refine ⟨.acquire worker, (state, worker :: acquired), trivial, ?_⟩
          simp only [limited]
          exact if_pos ⟨hspawned, hnew, hunfinished, by rw [hholders]; exact hpermits⟩
        · obtain ⟨holder, hholder⟩ := List.exists_mem_of_ne_nil _ hholders
          obtain ⟨hmem, hholds⟩ := List.mem_filter.mp hholder
          obtain ⟨own, after, hown, hafter, howner⟩ := hworks state holder hinvariant
            (hkept.spawned hmem) (by simpa using hholds)
          refine hmove hown hafter fun other hother => ?_
          rcases howner other hother with rfl | hstarted
          · exact hmem
          · exact hkept.started other hstarted

end Runs

end Crew

end Foundation
