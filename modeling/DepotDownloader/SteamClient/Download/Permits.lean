import DepotDownloader.Foundation.Permits
import DepotDownloader.SteamClient.Download.DepotProgress
import DepotDownloader.SteamClient.Download.Effects

/-! # The semaphore of a depot download

A chunk task first acquires a permit of the job's semaphore and keeps it until it returns:
the workers are the chunk tasks of all files. However few permits there are, the download
is a run of the download without a semaphore, and one permit is enough to finish.
-/

namespace DepotDownloader.SteamClient

open Foundation Foundation.LexPath Steam

/-- `Semaphore::new(self.max_downloads.unwrap_or(8))`. -/
def DepotJob.permits (maxDownloads : Option Nat) : Nat := maxDownloads.getD 8

def ChunkStage.finished : ChunkStage → Bool
  | .done _ => true
  | _ => false

/-- The task has got past its first await point. -/
def ChunkStage.started : ChunkStage → Bool
  | .fetch 0 => false
  | _ => true

theorem ChunkStage.finished_eq_false {stage : ChunkStage} :
    stage.finished = false ↔ ∀ outcome, stage ≠ .done outcome := by
  cases stage <;> simp [finished]

theorem ChunkStage.started_of_holding {stage : ChunkStage} (hholds : stage.holding) :
    stage.started = true := by
  cases stage with
  | fetch attempt => cases hholds
  | _ => rfl

namespace FileContext

variable {ctx : FileContext} {world world' : World} {state state' : FileState}
  {fault : Option Nat}

theorem started_fetched (chunkTask : ChunkTask) (attempt : Nat) :
    (ctx.fetched chunkTask attempt).started = true := by
  unfold fetched
  split
  · rfl
  · split
    · split <;> rfl
    · rfl

/-- A move of a chunk task moves no other task. -/
theorem chunkStep_advances {position : Nat}
    (hstep : ctx.ChunkStep world state position fault world' state') :
    ∃ chunkTask stage, state.chunkTasks[position]? = some chunkTask ∧
      chunkTask.stage.finished = false ∧ stage.started = true ∧
      state'.chunkTasks = state.chunkTasks.set position { chunkTask with stage := stage } := by
  cases hstep with
  | fetch htask hstage hattempt =>
      exact ⟨_, _, htask, by rw [hstage]; rfl, started_fetched _ _, rfl⟩
  | accepted htask hstage | unplaced htask hstage | locked htask _ hstage | sought htask _ hstage
  | seekFault htask _ hstage | wrote htask _ hstage | writeFault htask _ hstage
  | noAttempt htask hstage | rejected htask hstage =>
      exact ⟨_, _, htask, by rw [hstage]; rfl, rfl, rfl⟩

/-- The file task moves no chunk task, and spawns one at most. -/
theorem mainStep_spawns (hstep : ctx.MainStep world state fault world' state') :
    state'.chunkTasks = state.chunkTasks ∨
      ∃ chunkTask, chunkTask.stage = .fetch 0 ∧
        state'.chunkTasks = state.chunkTasks ++ [chunkTask] := by
  cases hstep with
  | chunkSpawned => exact .inr ⟨_, rfl, rfl⟩
  | _ => exact .inl rfl

theorem Locks.initial : Locks .initial where
  opened hlow _ := by simp [FileState.initial] at hlow
  idle _ := rfl
  shared h := absurd rfl h
  owned _ _ hfile := by cases hfile

/-- The file task goes on to a stage, and its file and its chunk tasks stay as they are. -/
theorem Locks.goto (hlocks : Locks state) {stage : FileStage} (validChunks : List ChunkId)
    (hphase : state.stage.phase ≤ stage.phase)
    (hopened : 5 ≤ stage.phase → stage.phase ≤ 9 → 5 ≤ state.stage.phase) :
    Locks { state with stage := stage, validChunks := validChunks } where
  opened hlow hhigh := hlocks.opened (hopened hlow hhigh) (hphase.trans hhigh)
  idle h := hlocks.idle (hphase.trans h)
  shared := hlocks.shared
  owned := hlocks.owned

/-- No chunk task has been spawned, and nobody holds the file. -/
theorem Locks.of_idle {file : SharedFile} (hidle : state.chunkTasks = [])
    (hfile : state.file = some file) (hfree : file.holder = none) : Locks state where
  opened _ _ := by rw [hfile]; rfl
  idle _ := hidle
  shared h := absurd hidle h
  owned other position hother hholder := by
    obtain rfl := Option.some.inj (hfile.symm.trans hother)
    rw [hfree] at hholder
    cases hholder

theorem Locks.unheld (hlocks : Locks state) {file : SharedFile}
    (hidle : state.chunkTasks = []) (hfile : state.file = some file) : file.holder = none := by
  cases hholder : file.holder with
  | none => rfl
  | some position =>
      obtain ⟨_, hget, _⟩ := hlocks.owned file position hfile hholder
      rw [hidle] at hget
      cases hget

theorem Locks.mainStep (hlocks : Locks state)
    (hstep : ctx.MainStep world state fault world' state') : Locks state' := by
  have hgoto {stage : FileStage} {validChunks : List ChunkId}
      (hphase : state.stage.phase ≤ stage.phase)
      (hopened : 5 ≤ stage.phase → stage.phase ≤ 9 → 5 ≤ state.stage.phase) :=
    hlocks.goto validChunks hphase hopened
  cases hstep with
  | stagingDir hstage | noStagingDir hstage | finalDir hstage | noFinalDir hstage
  | finalValid hstage | finalInvalid hstage | stagingComplete hstage | stagingPartial hstage
  | stagingMissing hstage | sized hstage | unsized hstage | oldOpened hstage | oldMissing hstage
  | notCopied hstage | copyDone hstage | chunkSkipped hstage | spawnDone hstage | awaited hstage
  | awaitDone hstage | renamed hstage =>
      exact hgoto (by simp [hstage]) (by simp [hstage])
  | failed hphase => exact hgoto (hphase.trans (by simp)) (by simp)
  | resumed hstage | created hstage =>
      exact .of_idle (hlocks.idle (by simp [hstage])) rfl rfl
  | copied hstage _ hfile | copyFault hstage _ hfile =>
      have hidle := hlocks.idle (by simp [hstage])
      have hfree := hlocks.unheld hidle hfile
      exact .of_idle hidle rfl hfree
  | chunkSpawned hstage =>
      have hopened := hlocks.opened (by simp [hstage]) (by simp [hstage])
      refine ⟨fun _ _ => hopened, fun h => by simp at h, fun _ => hopened, ?_⟩
      intro file position hfile hholder
      obtain ⟨chunkTask, hget, hholds⟩ := hlocks.owned file position hfile hholder
      refine ⟨chunkTask, ?_, hholds⟩
      rwa [List.getElem?_append_left (List.getElem?_eq_some_iff.mp hget).1]

/-- A chunk task goes on. Whoever holds the file then is this task, about to use it, or held
it before. -/
theorem Locks.advance (hlocks : Locks state) {position : Nat} {chunkTask : ChunkTask}
    {stage : ChunkStage} {file : Option SharedFile}
    (htask : state.chunkTasks[position]? = some chunkTask) (hfile : file.isSome)
    (howned : ∀ after other, file = some after → after.holder = some other →
      (other = position ∧ stage.holding) ∨
        (other ≠ position ∧
          ∃ before, state.file = some before ∧ before.holder = some other)) :
    Locks { state.advance position chunkTask stage with file := file } where
  opened _ _ := hfile
  idle h := by
    have hempty := hlocks.idle h
    rw [hempty] at htask
    cases htask
  shared _ := hfile
  owned after other hafter hholder := by
    rcases howned after other hafter hholder with
      ⟨rfl, hholds⟩ | ⟨hne, before, hbefore, hheld⟩
    · exact ⟨_, List.getElem?_set_self (List.getElem?_eq_some_iff.mp htask).1, hholds⟩
    · obtain ⟨otherTask, hget, hholds⟩ := hlocks.owned before other hbefore hheld
      exact ⟨otherTask, (List.getElem?_set_ne hne.symm).trans hget, hholds⟩

theorem Locks.chunkStep (hlocks : Locks state) {position : Nat}
    (hstep : ctx.ChunkStep world state position fault world' state') : Locks state' := by
  have hshared {chunkTask : ChunkTask} (htask : state.chunkTasks[position]? = some chunkTask) :
      state.file.isSome := hlocks.shared (List.ne_nil_of_mem (List.mem_of_getElem? htask))
  -- a task that does not hold the file goes on and leaves it as it is
  have hkeeps {chunkTask : ChunkTask} {stage : ChunkStage}
      (htask : state.chunkTasks[position]? = some chunkTask)
      (hidle : chunkTask.stage.holding = false) :
      Locks (state.advance position chunkTask stage) := by
    refine hlocks.advance htask (hshared htask) fun after other hafter hholder => .inr ⟨?_, ?_⟩
    · rintro rfl
      obtain ⟨otherTask, hget, hholds⟩ := hlocks.owned after other hafter hholder
      obtain rfl := Option.some.inj (htask.symm.trans hget)
      rw [hidle] at hholds
      cases hholds
    · exact ⟨after, hafter, hholder⟩
  cases hstep with
  | fetch htask hstage | accepted htask hstage | unplaced htask hstage | noAttempt htask hstage
  | rejected htask hstage => exact hkeeps htask (by rw [hstage]; rfl)
  | locked htask hfile hstage hfree =>
      refine hlocks.advance htask rfl fun after other hafter hholder => ?_
      obtain rfl := Option.some.inj hafter
      exact .inl ⟨(Option.some.inj hholder).symm, rfl⟩
  | sought htask hfile hstage =>
      refine hlocks.advance htask rfl fun after other hafter hholder => ?_
      obtain rfl := Option.some.inj hafter
      by_cases heq : other = position
      · exact .inl ⟨heq, rfl⟩
      · exact .inr ⟨heq, _, hfile, hholder⟩
  | seekFault htask | wrote htask | writeFault htask =>
      refine hlocks.advance htask rfl fun after other hafter hholder => ?_
      obtain rfl := Option.some.inj hafter
      cases hholder

theorem Locks.step (hlocks : Locks state) {move : FileMove}
    (hstep : ctx.step (world, state) move = some (world', state')) : Locks state' := by
  rcases step_cases hstep with hmain | ⟨_, hchunk⟩
  · exact hlocks.mainStep hmain
  · exact hlocks.chunkStep hchunk

end FileContext

/-- Where the chunk tasks of all files stand. -/
def JobState.table (state : JobState) : List (List ChunkStage) :=
  state.files.map fun fileJob => fileJob.state.chunkTasks.map ChunkTask.stage

section Table

variable {table table' : List (List ChunkStage)} {worker : Option (Nat × Nat)}

/-- A chunk task by its file and its position among the chunk tasks of the file. -/
def stageOf (table : List (List ChunkStage)) (worker : Nat × Nat) : Option ChunkStage :=
  table[worker.1]?.bind fun row => row[worker.2]?

def workers (table : List (List ChunkStage)) : List (Nat × Nat) :=
  table.zipIdx.flatMap fun row => (List.range row.1.length).map fun position => (row.2, position)

theorem mem_workers {worker : Nat × Nat} : worker ∈ workers table ↔
    (stageOf table worker).isSome := by
  obtain ⟨file, position⟩ := worker
  simp only [workers, stageOf, List.mem_flatMap, Prod.exists, List.mk_mem_zipIdx_iff_getElem?,
    List.mem_map, List.mem_range, Prod.mk.injEq]
  constructor
  · rintro ⟨row, _, hrow, _, hlt, rfl, rfl⟩
    simp [hrow, hlt]
  · intro hsome
    cases hrow : table[file]? with
    | none => simp [hrow] at hsome
    | some row => exact ⟨row, file, hrow, position, by simpa [hrow] using hsome, rfl, rfl⟩

theorem length_workers : (workers table).length = (table.map List.length).sum := by
  unfold workers
  rw [List.length_flatMap]
  have hlength : table.zipIdx.map (fun row =>
      ((List.range row.1.length).map fun position => (row.2, position)).length) =
        (table.zipIdx.map Prod.fst).map List.length := by
    rw [List.map_map]
    exact List.map_congr_left fun row _ => by simp
  rw [hlength, List.zipIdx_map_fst]

/-- What a move of the download does to its chunk tasks. -/
inductive TableStep (table : List (List ChunkStage)) :
    Option (Nat × Nat) → List (List ChunkStage) → Prop
  | same : TableStep table none table
  | file : TableStep table none (table ++ [[]])
  | spawn {file : Nat} {row : List ChunkStage} (hrow : table[file]? = some row) :
      TableStep table none (table.set file (row ++ [.fetch 0]))
  | move {file position : Nat} {row : List ChunkStage} {stage stage' : ChunkStage}
      (hrow : table[file]? = some row) (hstage : row[position]? = some stage)
      (hpending : stage.finished = false) (hstarted : stage'.started = true) :
      TableStep table (some (file, position)) (table.set file (row.set position stage'))

theorem stageOf_set {file : Nat} {row row' : List ChunkStage} (hrow : table[file]? = some row)
    (other : Nat × Nat) :
    stageOf (table.set file row') other =
      if other.1 = file then row'[other.2]? else stageOf table other := by
  have hlt := (List.getElem?_eq_some_iff.mp hrow).1
  unfold stageOf
  rw [List.getElem?_set]
  split
  next heq => simp [heq.symm]
  next hne => simp [Ne.symm hne]

/-- The tasks that do not move stay where they are. -/
theorem TableStep.stageOf_eq (hstep : TableStep table worker table') {other : Nat × Nat}
    {stage : ChunkStage} (hget : stageOf table other = some stage) (hother : worker ≠ some other) :
    stageOf table' other = some stage := by
  obtain ⟨row, hrow, hstage⟩ := Option.bind_eq_some_iff.mp hget
  cases hstep with
  | same => exact hget
  | file =>
      unfold stageOf
      rw [List.getElem?_append_left (List.getElem?_eq_some_iff.mp hrow).1]
      exact hget
  | spawn hfile =>
      rw [stageOf_set hfile]
      split
      next heq =>
        obtain rfl := Option.some.inj (hfile.symm.trans (heq ▸ hrow))
        rw [List.getElem?_append_left (List.getElem?_eq_some_iff.mp hstage).1]
        exact hstage
      next => exact hget
  | move hfile =>
      rw [stageOf_set hfile]
      split
      next heq =>
        obtain rfl := Option.some.inj (hfile.symm.trans (heq ▸ hrow))
        rw [List.getElem?_set_ne]
        · exact hstage
        · rintro rfl
          exact hother (congrArg some (Prod.ext heq.symm rfl))
      next => exact hget

/-- The task that moves has not finished, and has started after the move. -/
theorem TableStep.moved {owner : Nat × Nat} (hstep : TableStep table (some owner) table') :
    ∃ stage stage', stageOf table owner = some stage ∧ stage.finished = false ∧
      stageOf table' owner = some stage' ∧ stage'.started = true := by
  cases hstep with
  | move hrow hstage hpending hstarted =>
      refine ⟨_, _, by simp [stageOf, hrow, hstage], hpending, ?_, hstarted⟩
      rw [stageOf_set hrow, if_pos rfl]
      exact List.getElem?_set_self (List.getElem?_eq_some_iff.mp hstage).1

/-- Another task that has started has started before. -/
theorem TableStep.started_before (hstep : TableStep table worker table') {other : Nat × Nat}
    (hother : worker ≠ some other)
    (hstarted : (stageOf table' other).any ChunkStage.started = true) :
    (stageOf table other).any ChunkStage.started = true := by
  cases hstage : stageOf table other with
  | some stage =>
      rw [hstep.stageOf_eq hstage hother] at hstarted
      exact hstarted
  | none =>
      -- a task that has been spawned now has not started
      exfalso
      cases hstep with
      | same => simp [hstage] at hstarted
      | file =>
          unfold stageOf at hstage hstarted
          by_cases hlt : other.1 < table.length
          · simp [List.getElem?_append_left hlt, hstage] at hstarted
          · rw [List.getElem?_append_right (Nat.le_of_not_lt hlt),
              List.getElem?_singleton] at hstarted
            split at hstarted <;> simp at hstarted
      | @spawn file row hrow =>
          rw [stageOf_set hrow] at hstarted
          split at hstarted
          next heq =>
            simp only [stageOf, heq, hrow, Option.bind_some] at hstage
            rw [List.getElem?_append_right (List.getElem?_eq_none_iff.mp hstage),
              List.getElem?_singleton] at hstarted
            split at hstarted <;> cases hstarted
          next => simp [hstage] at hstarted
      | @move file position row _ _ hrow =>
          rw [stageOf_set hrow] at hstarted
          split at hstarted
          next heq =>
            simp only [stageOf, heq, hrow, Option.bind_some] at hstage
            have hnone := List.getElem?_eq_none_iff.mp hstage
            rw [List.getElem?_eq_none (by simpa using hnone)] at hstarted
            cases hstarted
          next => simp [hstage] at hstarted

theorem TableStep.started_iff (hstep : TableStep table worker table') {other : Nat × Nat} :
    (stageOf table' other).any ChunkStage.started = true ↔
      (stageOf table other).any ChunkStage.started = true ∨ worker = some other := by
  by_cases hother : worker = some other
  · subst hother
    obtain ⟨_, stage', _, _, hstage', hstarted⟩ := hstep.moved
    simp [hstage', hstarted]
  · refine ⟨fun hstarted => .inl (hstep.started_before hother hstarted), fun hbefore => ?_⟩
    obtain ⟨stage, hstage, hstarted⟩ :=
      (Option.any_eq_true ..).mp (hbefore.resolve_right hother)
    exact (Option.any_eq_true ..).mpr ⟨stage, hstep.stageOf_eq hstage hother, hstarted⟩

theorem sum_length_set {file : Nat} {row : List ChunkStage} (hrow : table[file]? = some row)
    (row' : List ChunkStage) :
    ((table.set file row').map List.length).sum + row.length =
      (table.map List.length).sum + row'.length := by
  obtain ⟨hlt, hget⟩ := List.getElem?_eq_some_iff.mp hrow
  have hsplit := congrArg (fun rows => (rows.map List.length).sum)
    (List.take_append_drop file table).symm
  rw [List.set_eq_take_append_cons_drop, if_pos hlt]
  rw [List.drop_eq_getElem_cons hlt, hget] at hsplit
  simp only [List.map_append, List.map_cons, List.sum_append, List.sum_cons] at hsplit ⊢
  omega

theorem TableStep.workers_subset (hstep : TableStep table worker table') :
    workers table ⊆ workers table' := by
  intro other hmem
  obtain ⟨stage, hstage⟩ := Option.isSome_iff_exists.mp (mem_workers.mp hmem)
  refine mem_workers.mpr ?_
  by_cases hother : worker = some other
  · subst hother
    cases hstep with
    | move hrow hget =>
        rw [stageOf_set hrow, if_pos rfl,
          List.getElem?_set_self (List.getElem?_eq_some_iff.mp hget).1]
        rfl
  · rw [hstep.stageOf_eq hstage hother]
    rfl

theorem TableStep.length_workers_le (hstep : TableStep table worker table') :
    (workers table').length ≤ (workers table).length + 1 := by
  rw [length_workers, length_workers]
  cases hstep with
  | same => exact Nat.le_succ _
  | file => simp
  | @spawn file row hrow =>
      have hsum := sum_length_set hrow (row ++ [.fetch 0])
      rw [List.length_append, List.length_singleton] at hsum
      omega
  | @move file position row _ stage' hrow =>
      have hsum := sum_length_set hrow (row.set position stage')
      rw [List.length_set] at hsum
      omega

end Table

namespace JobContext

variable (ctx : JobContext)

/-- The chunk task that a move is one of. -/
def chunkWorker : JobMove → Option (Nat × Nat)
  | .file file ⟨.chunk position, _⟩ => some (file, position)
  | _ => none

/-- The chunk tasks of a depot download. -/
def crew : Crew JobConfig JobMove (Nat × Nat) where
  worker := chunkWorker
  spawned config := workers config.2.table
  started config worker := (stageOf config.2.table worker).any ChunkStage.started
  finished config worker := (stageOf config.2.table worker).any ChunkStage.finished

/-- A depot download under a semaphore with so many permits. -/
def limited (permits : Nat) :
    Machine (JobConfig × List (Nat × Nat)) (PermitMove JobMove (Nat × Nat)) :=
  crew.limited ctx.machine permits

variable {ctx} {world world' : World} {state state' : JobState} {move : JobMove}

theorem table_withFile {file : Nat} (fileJob : FileJob) (fileState : FileState) :
    (state.withFile file fileJob fileState).table =
      state.table.set file (fileState.chunkTasks.map ChunkTask.stage) := by
  simp only [JobState.table, JobState.withFile, List.map_set]

theorem table_step (hstep : ctx.JobStep world state move world' state') :
    TableStep state.table (chunkWorker move) state'.table := by
  have hrow {file : Nat} {fileJob : FileJob} (hfile : state.files[file]? = some fileJob) :
      state.table[file]? = some (fileJob.state.chunkTasks.map ChunkTask.stage) := by
    rw [JobState.table, List.getElem?_map, hfile]
    rfl
  -- a file whose chunk tasks stay as they are
  have hsame {file : Nat} {fileJob : FileJob} (fileJob' : FileJob)
      (hfile : state.files[file]? = some fileJob)
      (hchunks : fileJob'.state.chunkTasks = fileJob.state.chunkTasks) :
      TableStep state.table none
        (JobState.table { state with files := state.files.set file fileJob' }) := by
    have htable : JobState.table { state with files := state.files.set file fileJob' } =
        state.table := by
      obtain ⟨hlt, hget⟩ := List.getElem?_eq_some_iff.mp (hrow hfile)
      rw [JobState.table, List.map_set, hchunks, ← hget]
      exact List.set_getElem_self hlt
    rw [htable]
    exact .same
  cases hstep with
  | spawned =>
      simp only [JobState.table, List.map_append]
      exact .file
  | reported hfile | reportedError hfile => exact hsame _ hfile rfl
  | @file file fileJob fileMove _ fileState hfile hstep =>
      obtain ⟨actor, fault⟩ := fileMove
      cases actor with
      | main =>
          rcases FileContext.mainStep_spawns (FileContext.mainStep_cases hstep) with
            hnone | ⟨chunkTask, hstage, hspawned⟩
          · exact hsame _ hfile hnone
          · rw [table_withFile, hspawned, List.map_append, List.map_singleton, hstage]
            exact .spawn (hrow hfile)
      | chunk position =>
          obtain ⟨chunkTask, stage, htask, hpending, hstarted, hchunks⟩ :=
            FileContext.chunkStep_advances (FileContext.chunkStep_cases hstep)
          rw [table_withFile, hchunks, List.map_set]
          refine .move (hrow hfile) ?_ hpending hstarted
          rw [List.getElem?_map, htask]
          rfl
  | _ => exact .same

theorem table_moves {config next : JobConfig} {worker : Nat × Nat}
    (hstep : ctx.machine.step config move = some next) (hworker : chunkWorker move = some worker) :
    TableStep config.2.table (some worker) next.2.table :=
  hworker ▸ table_step (jobStep_cases hstep)

/-- The chunk tasks are workers: each is spawned once, and ends once. -/
theorem crew_lawful : crew.Lawful ctx.machine where
  spawned _ _ _ hstep :=
    have htable := table_step (jobStep_cases hstep)
    ⟨htable.workers_subset, htable.length_workers_le⟩
  works state move next worker hstep hworker := by
    obtain ⟨stage, _, hstage, hpending, _⟩ := (table_moves hstep hworker).moved
    exact ⟨mem_workers.mpr (by rw [hstage]; rfl), by simp [crew, hstage, hpending]⟩
  started _ _ _ _ hstep := (table_step (jobStep_cases hstep)).started_iff
  finished state move next worker hstep _ hfinished := by
    have htable := table_step (jobStep_cases hstep)
    obtain ⟨stage, hstage, hdone⟩ := (Option.any_eq_true ..).mp hfinished
    refine (Option.any_eq_true ..).mpr ⟨stage, htable.stageOf_eq hstage fun hworker => ?_, hdone⟩
    obtain ⟨before, _, hbefore, hpending, _⟩ := (table_moves hstep hworker).moved
    obtain rfl := Option.some.inj (hstage.symm.trans hbefore)
    rw [hpending] at hdone
    cases hdone

/-- All files of a download have what their tasks need. -/
def Locked (state : JobState) : Prop :=
  ∀ (position : Nat) (fileJob : FileJob), state.files[position]? = some fileJob →
    FileContext.Locks fileJob.state

theorem Locked.step (hlocked : Locked state)
    (hstep : ctx.JobStep world state move world' state') : Locked state' := by
  have hset {position : Nat} {fileJob' : FileJob} (hnew : FileContext.Locks fileJob'.state)
      (other : Nat) (otherJob : FileJob)
      (hget : (state.files.set position fileJob')[other]? = some otherJob) :
      FileContext.Locks otherJob.state := by
    rw [List.getElem?_set] at hget
    split at hget
    · split at hget <;> cases hget
      exact hnew
    · exact hlocked other otherJob hget
  cases hstep with
  | spawned =>
      intro position fileJob hget
      by_cases hlt : position < state.files.length
      · exact hlocked position fileJob ((List.getElem?_append_left hlt).symm.trans hget)
      · rw [List.getElem?_append_right (Nat.le_of_not_lt hlt), List.getElem?_singleton] at hget
        split at hget <;> cases hget
        exact .initial
  | file hfile hstep => exact hset ((hlocked _ _ hfile).step hstep)
  | reported hfile | reportedError hfile =>
      have hlocks := hlocked _ _ hfile
      exact hset hlocks
  | _ => exact hlocked

/-- A chunk task that has not finished can go on, or one of its file that has started can. -/
theorem crew_progress (hlocked : Locked state) {worker : Nat × Nat}
    (hspawned : worker ∈ workers state.table)
    (hpending : (stageOf state.table worker).any ChunkStage.finished = false) :
    ∃ move next, move.Faultless ∧ ctx.step (world, state) move = some next ∧
      ∀ other ∈ chunkWorker move,
        other = worker ∨ (stageOf state.table other).any ChunkStage.started = true := by
  obtain ⟨file, position⟩ := worker
  obtain ⟨stage, hstage⟩ := Option.isSome_iff_exists.mp (mem_workers.mp hspawned)
  have htable {other : Nat} : stageOf state.table (file, other) =
      state.files[file]?.bind fun fileJob =>
        fileJob.state.chunkTasks[other]?.map ChunkTask.stage := by
    unfold stageOf JobState.table
    rw [List.getElem?_map]
    cases state.files[file]? <;> simp
  rw [hstage] at hpending
  obtain ⟨fileJob, hfile, htask⟩ := Option.bind_eq_some_iff.mp (htable.symm.trans hstage)
  obtain ⟨chunkTask, hget, rfl⟩ := Option.map_eq_some_iff.mp htask
  have hchunk : ∃ other otherTask next, fileJob.state.chunkTasks[other]? = some otherTask ∧
      (other = position ∨ otherTask.stage.holding) ∧
      (ctx.fileContext file fileJob.task).chunkStep world fileJob.state other none =
        some next :=
    (hlocked file fileJob hfile).chunk_progress hget
      (ChunkStage.finished_eq_false.mp hpending)
  obtain ⟨other, otherTask, next, hother, hwho, hnext⟩ := hchunk
  refine ⟨.file file ⟨.chunk other, none⟩, (next.1, state.withFile file fileJob next.2), rfl,
    ?_, ?_⟩
  · simp only [step, fileStep, hfile, FileContext.step, hnext, Option.map_some,
      JobState.withFile]
  · intro owner howner
    obtain rfl := Option.some.inj howner
    rcases hwho with rfl | hholds
    · exact .inl rfl
    · refine .inr ?_
      rw [htable, hfile, Option.bind_some, hother]
      exact ChunkStage.started_of_holding hholds

section Limited

variable {start : Disk} {permits : Nat}

theorem crew_fresh (worker : Nat × Nat) :
    crew.started ((⟨start, []⟩, ctx.initial) : JobConfig) worker = false := rfl

/-- With a permit the limited download is bounded, and goes on until it returns. -/
theorem limited_terminates (hpermits : 0 < permits) :
    (ctx.limited permits).Terminating
      (fun config => Locked config.1.2 ∧ crew.Kept permits config)
      (Crew.PermitAllowed JobMove.Faultless)
      (fun config => ∃ outcome, config.1.2.stage = .returned outcome)
      (fun config => 2 * ctx.rank config.1.2 + (workers config.1.2.table).length -
        config.2.length) := by
  have hterm : ctx.machine.Terminating (fun config => Locked config.2) JobMove.Faultless
      (fun config => ∃ outcome, config.2.stage = .returned outcome)
      (fun config => ctx.rank config.2) :=
    { preserved := fun _ _ _ hlocked _ hstep => hlocked.step (jobStep_cases hstep)
      decreasing := fun _ _ _ _ _ hstep => rank_jobStep (jobStep_cases hstep)
      progress := fun _ hlocked hrunning =>
        job_progress_of_locks hlocked fun outcome hstage => hrunning ⟨outcome, hstage⟩ }
  exact Crew.limited_terminating crew_lawful hpermits hterm
    fun _ _ hlocked hspawned hpending => crew_progress hlocked hspawned hpending

/-- Only chunk tasks fetch. -/
theorem unfetched_step (hstep : ctx.JobStep world state move world' state')
    (hworker : chunkWorker move = none) {call : FetchCall}
    (hunfetched : .fetchChunk call ∉ world.log) : .fetchChunk call ∉ world'.log := by
  suffices hlog : Emitted (fun effect => effect ≠ .fetchChunk call) world world' from
    fun hmem => (hlog.mem hmem).elim hunfetched fun hne => hne rfl
  cases hstep with
  | @file file fileJob fileMove _ _ hfile hstep =>
      obtain ⟨actor, fault⟩ := fileMove
      cases actor with
      | main =>
          cases FileContext.mainStep_cases hstep with
          | stagingDir | finalDir | resumed | created | renamed => exact .one rfl (by simp)
          | _ => exact .none rfl
      | chunk position => cases hworker
  | unnamed | spawnDone | awaitFailed | awaitDone | deleteBegun | kept | deleteDone
  | reportedError => exact .none rfl
  | filtered | unchanged | spawned | awaited => exact .one rfl (by simp [progress])
  | directory => exact ⟨[_, _], rfl, by simp [progress]⟩
  | deleted => exact .one rfl (by simp)
  | reported =>
      unfold report
      split
      · exact ⟨[_, _], rfl, by simp⟩
      · exact .one rfl (by simp)

/-- The downloads under a semaphore of `max_downloads` permits are exactly those in which, at
any move, the chunk task that moves and those that are at work are not more than that. -/
theorem permits_exact (maxDownloads : Option Nat) (moves : List JobMove) (config : JobConfig) :
    (∃ permitted acquired, Crew.erased permitted = moves ∧
      (ctx.limited (DepotJob.permits maxDownloads)).run ((⟨start, []⟩, ctx.initial), [])
        permitted = some (config, acquired)) ↔
      ctx.machine.RunWhere (crew.AtWork (DepotJob.permits maxDownloads))
        (⟨start, []⟩, ctx.initial) moves config :=
  Crew.limited_iff crew_lawful crew_fresh

/-- With a permit a download without faults is bounded and goes on until it returns. Without one
every chunk task waits forever and nothing is fetched. -/
theorem permits_live {maxDownloads : Option Nat}
    {permitted : List (PermitMove JobMove (Nat × Nat))} {config : JobConfig}
    {acquired : List (Nat × Nat)}
    (hrun : (ctx.limited (DepotJob.permits maxDownloads)).run ((⟨start, []⟩, ctx.initial), [])
      permitted = some (config, acquired)) :
    (maxDownloads ≠ some 0 → (∀ move ∈ permitted, Crew.PermitAllowed JobMove.Faultless move) →
      permitted.length ≤ 2 * ctx.rank ctx.initial ∧
        ((∀ outcome, config.2.stage ≠ .returned outcome) →
          ∃ move next, Crew.PermitAllowed JobMove.Faultless move ∧
            (ctx.limited (DepotJob.permits maxDownloads)).step (config, acquired) move =
              some next)) ∧
      (maxDownloads = some 0 → (∀ call, .fetchChunk call ∉ config.1.log) ∧
        ∀ worker stage, stageOf config.2.table worker = some stage → stage = .fetch 0) := by
  have hkept : crew.Kept (DepotJob.permits maxDownloads)
      (((⟨start, []⟩, ctx.initial) : JobConfig), []) := .initial crew_fresh
  refine ⟨fun hsome hfaultless => ?_, ?_⟩
  · have hpermits : 0 < DepotJob.permits maxDownloads := by
      cases maxDownloads with
      | none => exact Nat.succ_pos _
      | some count => exact Nat.pos_of_ne_zero fun hzero => hsome (congrArg some hzero)
    have hterm := @limited_terminates ctx _ hpermits
    have hinitial : Locked ctx.initial := fun position fileJob hget => by cases hget
    refine ⟨?_, fun hrunning => ?_⟩
    · have hlength := hterm.run_length_le hfaultless ⟨hinitial, hkept⟩ hrun
      simp only [JobState.table, initial, workers, List.map_nil, List.zipIdx_nil,
        List.flatMap_nil, List.length_nil] at hlength
      exact Nat.le_trans (Nat.le_add_right _ _) hlength
    · have hlast := Machine.run_invariant _ hterm.preserved hfaultless ⟨hinitial, hkept⟩ hrun
      exact hterm.progress _ hlast fun hreturned => hreturned.elim hrunning
  · rintro rfl
    obtain ⟨hnone, hmain⟩ := Crew.run_without_permits hrun
    refine ⟨fun call => ?_, fun worker stage hstage => ?_⟩
    · have hstep (config : JobConfig) (move : JobMove) (next : JobConfig)
          (hunfetched : .fetchChunk call ∉ config.1.log) (hworker : chunkWorker move = none)
          (hstep : ctx.machine.step config move = some next) : .fetchChunk call ∉ next.1.log :=
        unfetched_step (jobStep_cases hstep) hworker hunfetched
      exact ctx.machine.run_invariant hstep hmain List.not_mem_nil (Crew.run_erased hrun)
    · have hlast := hkept.run crew_lawful hrun
      have hwaits : stage.started ≠ true := fun hstarted => by
        have hmem := hlast.started worker (by simp [crew, hstage, hstarted])
        rw [show acquired = [] from hnone] at hmem
        cases hmem
      cases stage with
      | fetch attempt =>
          cases attempt with
          | zero => rfl
          | succ attempt => exact absurd rfl hwaits
      | _ => exact absurd rfl hwaits

/-- One file with two chunks, for which the first chunk task gets the only permit. -/
def sampleLimited : JobContext :=
  offline (manifestOf [{ zeroFile "a" 2 with
    chunks := [⟨some ⟨.replicate 20 1⟩, some 0, some 0, none, some 1⟩,
      ⟨some ⟨.replicate 20 2⟩, some 0, some 1, none, some 1⟩] }]) none

def sampleLimitedMoves : List (PermitMove JobMove (Nat × Nat)) :=
  List.replicate 2 (.move (.main none)) ++
    List.replicate 9 (.move (.file 0 ⟨.main, none⟩)) ++
    [.acquire (0, 0), .move (.file 0 ⟨.chunk 0, none⟩)]

/-- The second chunk task cannot acquire before the first has finished. -/
theorem permits_live_sample :
    ∃ config,
      (sampleLimited.limited (DepotJob.permits (some 1))).run
          ((⟨.empty, []⟩, sampleLimited.initial), []) sampleLimitedMoves =
        some (config, [(0, 0)]) ∧
      (sampleLimited.limited 1).step (config, [(0, 0)]) (.acquire (0, 1)) = none ∧
      sampleLimitedMoves.length ≤ 2 * sampleLimited.rank sampleLimited.initial := by
  have hany : ((sampleLimited.limited (DepotJob.permits (some 1))).run
      ((⟨.empty, []⟩, sampleLimited.initial), []) sampleLimitedMoves).any (fun final =>
        final.2 == [(0, 0)] &&
          ((sampleLimited.limited 1).step final (.acquire (0, 1))).isNone) = true := by
    decide
  have hfaultless : ∀ move ∈ sampleLimitedMoves,
      Crew.PermitAllowed JobMove.Faultless move := by
    simp [sampleLimitedMoves, Crew.PermitAllowed, JobMove.Faultless]
  obtain ⟨⟨config, acquired⟩, hrun, hboth⟩ := Machine.exists_of_run_any _ hany
  rw [Bool.and_eq_true, beq_iff_eq, Option.isNone_iff_eq_none] at hboth
  obtain ⟨rfl, hblocked⟩ := hboth
  exact ⟨config, hrun, hblocked, ((permits_live hrun).1 (by decide) hfaultless).1⟩

end Limited

end JobContext

end DepotDownloader.SteamClient
