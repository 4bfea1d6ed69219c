import DepotDownloader.SteamClient.Download.FileShape

/-! # File tasks finish

Every move of a file task or of one of its chunk tasks lowers a rank, so no
interleaving goes on forever, and as long as the file task has not returned some
move is enabled: a task that waits for the file waits for one that can go on.
-/

namespace DepotDownloader.SteamClient

open Foundation Foundation.LexPath Steam

/-- The moves that a chunk task still makes at most. -/
def ChunkStage.rank (attempts : Nat) : ChunkStage → Nat
  | .fetch attempt => (attempts - attempt) + 5
  | .process _ => 4
  | .lock _ _ => 3
  | .seek _ _ => 2
  | .write _ => 1
  | .done _ => 0

namespace FileContext

variable (ctx : FileContext)

/-- The moves that the file task still makes at most, counting for every chunk
that it may still spawn the moves of the task. -/
def mainRank (state : FileState) : Nat :=
  let chunks := ctx.task.chunks.length
  let spawned := state.chunkTasks.length
  let perChunk := ctx.job.retry.maxAttempts + 7
  match state.stage with
  | .createStagingDir => spawned + chunks * perChunk + chunks + 11
  | .createFinalDir => spawned + chunks * perChunk + chunks + 10
  | .checkFinal => spawned + chunks * perChunk + chunks + 9
  | .checkStaging => spawned + chunks * perChunk + chunks + 8
  | .openStaging _ => spawned + chunks * perChunk + chunks + 7
  | .setLen => spawned + chunks * perChunk + chunks + 6
  | .openOld => spawned + chunks * perChunk + chunks + 5
  | .copyChunks _ index => spawned + chunks * perChunk + (chunks - index) + 4
  | .spawnChunks index => spawned + (chunks - index) * perChunk + 3
  | .awaitChunks position => (spawned - position) + 2
  | .rename => 1
  | .done _ => 0

def tasksRank (chunkTasks : List ChunkTask) : Nat :=
  (chunkTasks.map fun chunkTask => chunkTask.stage.rank ctx.job.retry.maxAttempts).sum

def rank (state : FileState) : Nat := ctx.mainRank state + ctx.tasksRank state.chunkTasks

variable {ctx} {world world' : World} {state state' : FileState} {fault : Option Nat}

theorem rank_mainStep (hstep : ctx.MainStep world state fault world' state') :
    ctx.rank state' < ctx.rank state := by
  have hindex {index : Nat} {chunk : ManifestChunk}
      (hchunk : ctx.task.chunks[index]? = some chunk) :
      index < ctx.task.chunks.length := (List.getElem?_eq_some_iff.mp hchunk).1
  have hremaining {index : Nat} (hlt : index < ctx.task.chunks.length) :
      ctx.task.chunks.length - index = (ctx.task.chunks.length - (index + 1)).succ := by omega
  cases hstep with
  | stagingDir hstage | noStagingDir hstage | finalDir hstage | noFinalDir hstage
  | finalInvalid hstage | stagingPartial hstage | stagingMissing hstage | resumed hstage
  | created hstage | sized hstage | unsized hstage | finalValid hstage | stagingComplete hstage
  | spawnDone hstage | awaitDone hstage | renamed hstage | oldOpened hstage
  | copyFault hstage =>
      simp only [rank, mainRank, FileState.withStage, hstage]
      omega
  | oldMissing hstage | copyDone hstage =>
      simp only [rank, mainRank, FileState.withStage, hstage, Nat.sub_zero]
      omega
  | copied hstage hchunk | notCopied hstage hchunk =>
      have hlt := hindex hchunk
      simp only [rank, mainRank, FileState.withStage, hstage]
      omega
  | chunkSkipped hstage hchunk =>
      have hlt := hindex hchunk
      simp only [rank, mainRank, FileState.withStage, hstage, hremaining hlt, Nat.succ_mul]
      omega
  | chunkSpawned hstage hchunk =>
      have hlt := hindex hchunk
      simp only [rank, mainRank, hstage, hremaining hlt, Nat.succ_mul, tasksRank, List.map_append,
        List.sum_append, List.length_append, List.map_singleton, List.sum_singleton,
        List.length_singleton, ChunkStage.rank]
      omega
  | awaited hstage htask =>
      have hlt := (List.getElem?_eq_some_iff.mp htask).1
      simp only [rank, mainRank, FileState.withStage, hstage]
      omega
  | failed hphase =>
      simp only [rank, mainRank, FileState.fail, FileState.withStage]
      cases hstage : state.stage with
      | done outcome => simp [hstage] at hphase
      | _ => simp only; omega

theorem rank_chunkStep {position : Nat}
    (hstep : ctx.ChunkStep world state position fault world' state') :
    ctx.rank state' < ctx.rank state := by
  -- the file task stays where it is, and one chunk task is closer to its end
  have hadvance {chunkTask : ChunkTask} {stage : ChunkStage} {file : Option SharedFile}
      (htask : state.chunkTasks[position]? = some chunkTask)
      (hlt : stage.rank ctx.job.retry.maxAttempts <
        chunkTask.stage.rank ctx.job.retry.maxAttempts) :
      ctx.rank { state.advance position chunkTask stage with file := file } < ctx.rank state := by
    have hmain : ctx.mainRank { state.advance position chunkTask stage with file := file } =
        ctx.mainRank state := by
      simp only [mainRank, FileState.advance, List.length_set]
    rw [rank, hmain]
    exact Nat.add_lt_add_left (Machine.sum_map_set_lt htask hlt) _
  cases hstep with
  | @fetch chunkTask attempt htask hstage hattempt =>
      refine hadvance htask ?_
      rw [hstage]
      unfold fetched
      split
      · simp only [ChunkStage.rank]; omega
      · split
        · split <;> simp only [ChunkStage.rank] <;> omega
        · simp only [ChunkStage.rank]; omega
  | accepted htask hstage | unplaced htask hstage | locked htask _ hstage | sought htask _ hstage
  | seekFault htask _ hstage | wrote htask _ hstage | writeFault htask _ hstage
  | noAttempt htask hstage | rejected htask hstage =>
      exact hadvance htask (by simp [hstage, ChunkStage.rank])

theorem rank_step {move : FileMove} (hstep : ctx.step (world, state) move = some (world', state')) :
    ctx.rank state' < ctx.rank state := by
  rcases step_cases hstep with hmain | ⟨_, hchunk⟩
  · exact rank_mainStep hmain
  · exact rank_chunkStep hchunk

section Progress

variable {disk : Disk}

/-- A chunk task that has not finished can go on, unless it waits for the file. -/
theorem chunk_enabled {position : Nat} {chunkTask : ChunkTask} {file : SharedFile}
    (htask : state.chunkTasks[position]? = some chunkTask) (hfile : state.file = some file)
    (hpending : ∀ outcome, chunkTask.stage ≠ .done outcome)
    (hfree : ∀ offset data, chunkTask.stage = .lock offset data → file.holder = none) :
    ∃ next, ctx.chunkStep world state position none = some next := by
  unfold chunkStep
  cases hstage : chunkTask.stage with
  | fetch attempt =>
      by_cases hattempt : attempt < ctx.job.retry.maxAttempts
      · exact ⟨_, by simp [htask, hfile, hstage, hattempt]; rfl⟩
      · exact ⟨_, by simp [htask, hfile, hstage, hattempt]; rfl⟩
  | process raw =>
      simp only [htask, hfile, hstage]
      split <;> exact ⟨_, rfl⟩
  | lock offset data =>
      have hholder := hfree offset data hstage
      exact ⟨_, by simp [htask, hfile, hstage, hholder]; rfl⟩
  | seek offset data | write data => exact ⟨_, by simp [htask, hfile, hstage]; rfl⟩
  | done outcome => exact absurd hstage (hpending outcome)

/-- What a file task that goes on needs of its shared file: it is there, and a chunk task that
holds it is about to seek or to write. -/
structure Locks (state : FileState) : Prop where
  opened : 5 ≤ state.stage.phase → state.stage.phase ≤ 9 → state.file.isSome
  idle : state.stage.phase ≤ 7 → state.chunkTasks = []
  shared : state.chunkTasks ≠ [] → state.file.isSome
  owned : ∀ (file : SharedFile) (position : Nat), state.file = some file →
    file.holder = some position →
    ∃ chunkTask, state.chunkTasks[position]? = some chunkTask ∧ chunkTask.stage.holding

theorem FileShape.locks (hshape : ctx.FileShape disk state) : Locks state :=
  ⟨hshape.opened, hshape.idle, hshape.shared, hshape.owned⟩

/-- A chunk task that has not finished can go on, or the one that holds the file
can. -/
theorem Locks.chunk_progress (hlocks : Locks state) {position : Nat} {chunkTask : ChunkTask}
    (htask : state.chunkTasks[position]? = some chunkTask)
    (hpending : ∀ outcome, chunkTask.stage ≠ .done outcome) :
    ∃ other otherTask next, state.chunkTasks[other]? = some otherTask ∧
      (other = position ∨ otherTask.stage.holding) ∧
      ctx.chunkStep world state other none = some next := by
  obtain ⟨file, hfile⟩ := Option.isSome_iff_exists.mp
    (hlocks.shared (List.ne_nil_of_mem (List.mem_of_getElem? htask)))
  cases hholder : file.holder with
  | none =>
      obtain ⟨next, hnext⟩ := chunk_enabled htask hfile hpending fun _ _ _ => hholder
      exact ⟨position, chunkTask, next, htask, .inl rfl, hnext⟩
  | some other =>
      obtain ⟨otherTask, hother, hholds⟩ := hlocks.owned file other hfile hholder
      obtain ⟨next, hnext⟩ : ∃ next, ctx.chunkStep world state other none = some next := by
        refine chunk_enabled hother hfile ?_ ?_
        · intro outcome hdone
          rw [hdone] at hholds
          cases hholds
        · intro offset data hlock
          rw [hlock] at hholds
          cases hholds
      exact ⟨other, otherTask, next, hother, .inr hholds, hnext⟩

/-- The file task can go on unless it awaits a chunk task. -/
theorem Locks.main_enabled (hlocks : Locks state)
    (hrunning : ∀ outcome, state.stage ≠ .done outcome)
    (hfinished : ∀ position chunkTask, state.stage = .awaitChunks position →
      state.chunkTasks[position]? = some chunkTask → ∃ outcome, chunkTask.stage = .done outcome) :
    ∃ next, ctx.mainStep world state none = some next := by
  refine Option.isSome_iff_exists.mp ?_
  unfold mainStep
  cases hstage : state.stage with
  | createStagingDir | createFinalDir | spawnChunks index | rename =>
      simp only
      split <;> simp
  | checkFinal =>
      simp only
      split
      · simp
      · split <;> simp
  | openOld =>
      simp only
      split
      · split <;> simp
      · simp
  | checkStaging =>
      simp only
      split
      · split
        · simp
        · split <;> simp
      · simp
  | openStaging resuming => simp
  | setLen | copyChunks oldIno index =>
      obtain ⟨file, hfile⟩ := Option.isSome_iff_exists.mp
        (hlocks.opened (by simp [hstage]) (by simp [hstage]))
      simp only [hfile]
      split <;> simp_all
  | awaitChunks position =>
      cases htask : state.chunkTasks[position]? with
      | none => simp [htask]
      | some chunkTask =>
          obtain ⟨outcome, hdone⟩ := hfinished position chunkTask hstage htask
          cases outcome <;> simp [htask, hdone]
  | done outcome => exact absurd hstage (hrunning outcome)

theorem main_enabled (hshape : ctx.FileShape world.disk state)
    (hrunning : ∀ outcome, state.stage ≠ .done outcome)
    (hfinished : ∀ position chunkTask, state.stage = .awaitChunks position →
      state.chunkTasks[position]? = some chunkTask → ∃ outcome, chunkTask.stage = .done outcome) :
    ∃ next, ctx.mainStep world state none = some next :=
  hshape.locks.main_enabled hrunning hfinished

/-- As long as the file task has not returned, some move without a fault is
enabled. -/
theorem Locks.file_progress (hlocks : Locks state)
    (hrunning : ∀ outcome, state.stage ≠ .done outcome) :
    ∃ move next, move.fault = none ∧ ctx.step (world, state) move = some next := by
  by_cases hwaits : ∃ position chunkTask, state.stage = .awaitChunks position ∧
      state.chunkTasks[position]? = some chunkTask ∧ ∀ outcome, chunkTask.stage ≠ .done outcome
  · obtain ⟨position, chunkTask, _, htask, hpending⟩ := hwaits
    obtain ⟨other, _, next, _, _, hnext⟩ := hlocks.chunk_progress htask hpending
    exact ⟨⟨.chunk other, none⟩, next, rfl, hnext⟩
  · push Not at hwaits
    obtain ⟨next, hnext⟩ := hlocks.main_enabled hrunning hwaits
    exact ⟨⟨.main, none⟩, next, rfl, hnext⟩

theorem file_progress (hshape : ctx.FileShape world.disk state)
    (hrunning : ∀ outcome, state.stage ≠ .done outcome) :
    ∃ move next, move.fault = none ∧ ctx.step (world, state) move = some next :=
  hshape.locks.file_progress hrunning

end Progress

end FileContext

end DepotDownloader.SteamClient
