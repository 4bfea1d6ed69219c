import DepotDownloader.SteamClient.Download.DepotShape
import DepotDownloader.SteamClient.Download.FileProgress

/-! # Depot downloads finish

Every move of a depot download lowers a rank, and until the download has
returned some move is enabled.
-/

namespace DepotDownloader.SteamClient

open Foundation Foundation.LexPath Steam

/-- No operation on the file system fails. -/
def JobMove.Faultless : JobMove → Prop
  | .main fault => fault = none
  | .file _ move => move.fault = none
  | .finish _ => True

namespace JobContext

variable (ctx : JobContext)

/-- The moves of a task that is still to be spawned, with its report and its
await. -/
def spawnCost (file : ManifestFile) : Nat :=
  file.chunks.length * (ctx.job.retry.maxAttempts + 7) + file.chunks.length + 13

def fileRank (fileJob : FileJob) : Nat :=
  (ctx.fileContext 0 fileJob.task).rank fileJob.state + if fileJob.finished.isNone then 1 else 0

def previousFiles : Nat :=
  match ctx.job.previousManifest with
  | none => 0
  | some old => old.files.length

def mainRank (state : JobState) : Nat :=
  match state.stage with
  | .spawning rest =>
      (rest.map ctx.spawnCost).sum + rest.length + state.files.length + ctx.previousFiles + 3
  | .awaiting position => (state.files.length - position) + ctx.previousFiles + 2
  | .deleting rest => rest.length + 1
  | .returned _ => 0

/-- The moves that a download still makes at most. -/
def rank (state : JobState) : Nat := ctx.mainRank state + (state.files.map ctx.fileRank).sum

variable {ctx} {start : Disk} {world world' : World} {state state' : JobState} {move : JobMove}

theorem rank_jobStep (hstep : ctx.JobStep world state move world' state') :
    ctx.rank state' < ctx.rank state := by
  have hset {position : Nat} {fileJob : FileJob} (fileJob' : FileJob)
      (hget : state.files[position]? = some fileJob)
      (hlt : ctx.fileRank fileJob' < ctx.fileRank fileJob) :
      ctx.rank { state with files := state.files.set position fileJob' } < ctx.rank state := by
    have hmain : ctx.mainRank { state with files := state.files.set position fileJob' } =
        ctx.mainRank state := by
      simp only [mainRank, List.length_set]
    rw [rank, hmain]
    exact Nat.add_lt_add_left (Machine.sum_map_set_lt hget hlt) _
  cases hstep with
  | unnamed hstage | filtered hstage | directory hstage | unchanged hstage =>
      simp only [rank, mainRank, hstage, List.map_cons, List.sum_cons, List.length_cons]
      omega
  | @spawned file rest name _ hstage =>
      have hinitial : ctx.fileRank ⟨ctx.job.fileTask file name, .initial, none⟩ + 1 =
          ctx.spawnCost file := by
        simp [fileRank, FileContext.rank, FileContext.mainRank, FileContext.tasksRank,
          FileState.initial, spawnCost, fileContext, DepotJob.fileTask]
      simp only [rank, mainRank, hstage, List.map_cons, List.sum_cons, List.length_cons,
        List.map_append, List.sum_append, List.length_append, List.map_nil, List.sum_nil,
        List.length_nil]
      omega
  | spawnDone hstage | deleteDone hstage | deleted hstage | kept hstage | awaitFailed hstage
  | awaitDone hstage =>
      simp only [rank, mainRank, hstage, List.map_nil, List.sum_nil, List.length_cons]
      omega
  | awaited hstage hget =>
      have hlt := (List.getElem?_eq_some_iff.mp hget).1
      simp only [rank, mainRank, hstage]
      omega
  | deleteBegun hstage _ hold =>
      simp only [rank, mainRank, hstage, previousFiles, hold]
      omega
  | file hget hfile =>
      refine hset _ hget ?_
      have hlt := FileContext.rank_step hfile
      simp only [fileRank]
      exact Nat.add_lt_add_right hlt _
  | reported hget hnone | reportedError hget hnone =>
      refine hset _ hget ?_
      simp [fileRank, hnone]

/-- Until the download has returned, some move without a fault is enabled. -/
theorem job_progress_of_locks
    (hlocks : ∀ (position : Nat) (fileJob : FileJob), state.files[position]? = some fileJob →
      FileContext.Locks fileJob.state)
    (hrunning : ∀ outcome, state.stage ≠ .returned outcome) :
    ∃ move next, move.Faultless ∧ ctx.step (world, state) move = some next := by
  have hmain (hstep : (ctx.mainStep world state none).isSome) :
      ∃ move next, move.Faultless ∧ ctx.step (world, state) move = some next := by
    obtain ⟨next, hnext⟩ := Option.isSome_iff_exists.mp hstep
    exact ⟨.main none, next, rfl, hnext⟩
  cases hstage : state.stage with
  | spawning rest => exact hmain (by cases rest <;> simp [mainStep, hstage])
  | deleting rest => exact hmain (by cases rest <;> simp [mainStep, hstage])
  | returned outcome => exact absurd hstage (hrunning outcome)
  | awaiting position =>
      cases hget : state.files[position]? with
      | none =>
          refine hmain ?_
          cases hold : ctx.job.previousManifest <;> simp [mainStep, hstage, hget, hold]
      | some fileJob =>
          cases hfinished : fileJob.finished with
          | some outcome =>
              refine hmain ?_
              cases outcome <;> simp [mainStep, hstage, hget, hfinished]
          | none =>
              cases hdone : fileJob.state.stage with
              | done outcome =>
                  refine ⟨.finish position, ?_⟩
                  have hstep : (ctx.finishStep world state position).isSome := by
                    obtain ⟨task, fileState, finished⟩ := fileJob
                    subst hfinished
                    cases outcome <;> simp_all [finishStep]
                  obtain ⟨next, hnext⟩ := Option.isSome_iff_exists.mp hstep
                  exact ⟨next, trivial, hnext⟩
              | _ =>
                  have hfile : ∃ move next, move.fault = none ∧
                      (ctx.fileContext position fileJob.task).step (world, fileJob.state) move =
                        some next :=
                    (hlocks position fileJob hget).file_progress (by simp [hdone])
                  obtain ⟨fileMove, next, hfault, hnext⟩ := hfile
                  refine ⟨.file position fileMove,
                    (next.1, state.withFile position fileJob next.2), hfault, ?_⟩
                  simp only [step, fileStep, hget, hnext, Option.map_some, JobState.withFile]

theorem job_progress (hshape : ctx.JobShape start world.disk state)
    (hrunning : ∀ outcome, state.stage ≠ .returned outcome) :
    ∃ move next, move.Faultless ∧ ctx.step (world, state) move = some next :=
  job_progress_of_locks (fun position fileJob hget => (hshape.shape position fileJob hget).locks)
    hrunning

end JobContext

end DepotDownloader.SteamClient
