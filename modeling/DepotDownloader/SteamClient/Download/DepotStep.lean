import DepotDownloader.SteamClient.Download.FileStep
import DepotDownloader.SteamClient.Download.Names

/-! # The steps of a depot download

What one move of `DepotJob::download` can do, stated once, and the shape that
every interleaving keeps: which entries have been passed, which tasks they have
become, and how far each task is.
-/

namespace DepotDownloader.SteamClient

open Foundation Foundation.LexPath Steam

namespace DepotJob

variable (job : DepotJob)

/-- The task that the loop makes of an entry on a given disk. -/
def spawnedTask (disk : Disk) (file : ManifestFile) : Option FileTask :=
  file.filename.bind fun filename =>
    if job.filteredOut filename ∨ file.isDirectory ∨ job.unchanged disk file filename then none
    else some (job.fileTask file filename)

variable {job} {disk : Disk} {file : ManifestFile} {task : FileTask}

theorem spawnedTask_eq_some : job.spawnedTask disk file = some task ↔
    ∃ filename, file.filename = some filename ∧ job.filteredOut filename = false ∧
      file.isDirectory = false ∧ job.unchanged disk file filename = false ∧
      task = job.fileTask file filename := by
  unfold spawnedTask
  rw [Option.bind_eq_some_iff]
  refine exists_congr fun filename => and_congr_right fun _ => ?_
  split
  next hskip =>
    simp only [reduceCtorEq, false_iff]
    rintro ⟨hfilter, hdir, hchanged, _⟩
    simp [hfilter, hdir, hchanged] at hskip
  next hspawn =>
    simp only [not_or, Bool.not_eq_true] at hspawn
    simp [hspawn, eq_comm]

end DepotJob

/-- What the deletion pass removes is listed before and not any more. -/
theorem removedName_eq_some {manifest : DepotManifest} {old : ManifestFile} {name : String} :
    removedName manifest old = some name ↔
      old.filename = some name ∧ old.isDirectory = false ∧ name ∉ manifestNames manifest := by
  unfold removedName
  cases hname : old.filename with
  | none => simp
  | some listed =>
      have hcontains : (manifest.files.filterMap ManifestFile.filename).contains listed = true ↔
          listed ∈ manifestNames manifest := List.contains_iff_mem
      simp only [hcontains, Option.some.injEq]
      split
      next hdir => simp [hdir]
      next hdir =>
        split
        next hkept =>
          simp only [reduceCtorEq, false_iff]
          rintro ⟨rfl, _, hmissing⟩
          exact hmissing hkept
        next hmissing =>
          rw [Option.some.injEq]
          constructor
          · rintro rfl
            exact ⟨rfl, by simpa using hdir, hmissing⟩
          · rintro ⟨rfl, _, _⟩
            rfl

/-- The entries that the spawning loop has not reached yet. -/
def JobStage.unspawned : JobStage → List ManifestFile
  | .spawning rest => rest
  | _ => []

/-- The deletion pass has begun, or the download has returned Ok. -/
def JobStage.deletes : JobStage → Bool
  | .deleting _ => true
  | .returned (.ok ()) => true
  | _ => false

attribute [simp] JobStage.unspawned JobStage.deletes

/-- The state with another state of one file task. -/
def JobState.withFile (state : JobState) (position : Nat) (fileJob : FileJob)
    (fileState : FileState) : JobState :=
  { state with files := state.files.set position { fileJob with state := fileState } }

@[simp] theorem JobState.withFile_stage (state : JobState) (position : Nat) (fileJob : FileJob)
    (fileState : FileState) : (state.withFile position fileJob fileState).stage = state.stage := rfl

namespace JobContext

variable (ctx : JobContext)

/-- What a move of a depot download can do. -/
inductive JobStep (world : World) (state : JobState) : JobMove → World → JobState → Prop
  | unnamed {file : ManifestFile} {rest : List ManifestFile} {fault : Option Nat}
      (hstage : state.stage = .spawning (file :: rest)) (hname : file.filename = none) :
      JobStep world state (.main fault) world { state with stage := .spawning rest }
  | filtered {file : ManifestFile} {rest : List ManifestFile} {filename : String}
      {fault : Option Nat} (hstage : state.stage = .spawning (file :: rest))
      (hname : file.filename = some filename) (hfilter : ctx.job.filteredOut filename = true) :
      JobStep world state (.main fault) (world.emit (.send (.fileSkipped filename)))
        { state with stage := .spawning rest, filesCompleted := state.filesCompleted + 1 }
  | directory {file : ManifestFile} {rest : List ManifestFile} {filename : String}
      {fault : Option Nat} (hstage : state.stage = .spawning (file :: rest))
      (hname : file.filename = some filename) (hfilter : ctx.job.filteredOut filename = false)
      (hdir : file.isDirectory = true) :
      JobStep world state (.main fault)
        ((world.emit (.send (.fileSkipped filename))).emit
          (ctx.progress (state.filesCompleted + 1)))
        { state with stage := .spawning rest, filesCompleted := state.filesCompleted + 1 }
  | unchanged {file : ManifestFile} {rest : List ManifestFile} {filename : String}
      {fault : Option Nat} (hstage : state.stage = .spawning (file :: rest))
      (hname : file.filename = some filename) (hfilter : ctx.job.filteredOut filename = false)
      (hdir : file.isDirectory = false)
      (hunchanged : ctx.job.unchanged world.disk file filename = true) :
      JobStep world state (.main fault) (world.emit (.send (.fileSkipped filename)))
        { state with stage := .spawning rest, filesCompleted := state.filesCompleted + 1 }
  | spawned {file : ManifestFile} {rest : List ManifestFile} {filename : String}
      {fault : Option Nat} (hstage : state.stage = .spawning (file :: rest))
      (hname : file.filename = some filename) (hfilter : ctx.job.filteredOut filename = false)
      (hdir : file.isDirectory = false)
      (hchanged : ctx.job.unchanged world.disk file filename = false) :
      JobStep world state (.main fault)
        (world.emit (.send (.fileStarted filename file.chunks.length file.size)))
        { state with
          stage := .spawning rest
          files := state.files ++ [⟨ctx.job.fileTask file filename, .initial, none⟩] }
  | spawnDone {fault : Option Nat} (hstage : state.stage = .spawning []) :
      JobStep world state (.main fault) world { state with stage := .awaiting 0 }
  | awaited {position : Nat} {fileJob : FileJob} {fault : Option Nat}
      (hstage : state.stage = .awaiting position)
      (hfile : state.files[position]? = some fileJob)
      (hfinished : fileJob.finished = some (.ok ())) :
      JobStep world state (.main fault) (world.emit (ctx.progress (state.filesCompleted + 1)))
        { state with
          stage := .awaiting (position + 1), filesCompleted := state.filesCompleted + 1 }
  | awaitFailed {position : Nat} {fileJob : FileJob} {error : DownloadError} {fault : Option Nat}
      (hstage : state.stage = .awaiting position)
      (hfile : state.files[position]? = some fileJob)
      (hfinished : fileJob.finished = some (.error error)) :
      JobStep world state (.main fault) world { state with stage := .returned (.error error) }
  | awaitDone {position : Nat} {fault : Option Nat} (hstage : state.stage = .awaiting position)
      (hend : state.files[position]? = none) (hfresh : ctx.job.previousManifest = none) :
      JobStep world state (.main fault) world { state with stage := .returned (.ok ()) }
  | deleteBegun {position : Nat} {old : DepotManifest} {fault : Option Nat}
      (hstage : state.stage = .awaiting position) (hend : state.files[position]? = none)
      (hold : ctx.job.previousManifest = some old) :
      JobStep world state (.main fault) world { state with stage := .deleting old.files }
  | deleted {old : ManifestFile} {rest : List ManifestFile} {name : String}
      (hstage : state.stage = .deleting (old :: rest))
      (hremoved : removedName ctx.manifest old = some name)
      (hpresent : world.disk.present (ctx.job.finalPlace name) = true) :
      JobStep world state (.main none)
        ((world.withDisk (world.disk.remove (ctx.job.finalPlace name))).emit
          (.removeFile (ctx.job.finalPath name)))
        { state with stage := .deleting rest }
  | kept {old : ManifestFile} {rest : List ManifestFile} {fault : Option Nat}
      (hstage : state.stage = .deleting (old :: rest))
      (hkept : ∀ name, removedName ctx.manifest old = some name →
        world.disk.present (ctx.job.finalPlace name) = false ∨ fault.isSome) :
      JobStep world state (.main fault) world { state with stage := .deleting rest }
  | deleteDone {fault : Option Nat} (hstage : state.stage = .deleting []) :
      JobStep world state (.main fault) world { state with stage := .returned (.ok ()) }
  | file {position : Nat} {fileJob : FileJob} {move : FileMove} {world' : World}
      {fileState : FileState} (hfile : state.files[position]? = some fileJob)
      (hstep : (ctx.fileContext position fileJob.task).step (world, fileJob.state) move =
        some (world', fileState)) :
      JobStep world state (.file position move) world' (state.withFile position fileJob fileState)
  | reported {position : Nat} {fileJob : FileJob} (hfile : state.files[position]? = some fileJob)
      (hfinished : fileJob.finished = none) (hdone : fileJob.state.stage = .done (.ok ())) :
      JobStep world state (.finish position) (ctx.report world fileJob.task)
        { state with
          files := state.files.set position { fileJob with finished := some (.ok ()) } }
  | reportedError {position : Nat} {fileJob : FileJob} {error : DownloadError}
      (hfile : state.files[position]? = some fileJob) (hfinished : fileJob.finished = none)
      (hdone : fileJob.state.stage = .done (.error error)) :
      JobStep world state (.finish position) world
        { state with
          files := state.files.set position { fileJob with finished := some (.error error) } }

variable {ctx} {world world' : World} {state state' : JobState} {move : JobMove}

theorem spawnFile_cases {file : ManifestFile} {rest : List ManifestFile} {fault : Option Nat}
    (hstage : state.stage = .spawning (file :: rest))
    (hstep : ctx.spawnFile world state file rest = (world', state')) :
    ctx.JobStep world state (.main fault) world' state' := by
  unfold spawnFile at hstep
  split at hstep
  next hname => cases hstep; exact .unnamed hstage hname
  next filename hname =>
    split at hstep
    next hfilter => cases hstep; exact .filtered hstage hname hfilter
    next hfilter =>
      rw [Bool.not_eq_true] at hfilter
      split at hstep
      next hdir => cases hstep; exact .directory hstage hname hfilter hdir
      next hdir =>
        rw [Bool.not_eq_true] at hdir
        split at hstep <;> cases hstep
        next hunchanged => exact .unchanged hstage hname hfilter hdir hunchanged
        next hchanged =>
          rw [Bool.not_eq_true] at hchanged
          exact .spawned hstage hname hfilter hdir hchanged

theorem deleteFile_cases {old : ManifestFile} {rest : List ManifestFile} {fault : Option Nat}
    (hstage : state.stage = .deleting (old :: rest)) :
    ctx.JobStep world state (.main fault) (ctx.deleteFile world old fault)
      { state with stage := .deleting rest } := by
  unfold deleteFile
  split
  next hremoved => exact .kept hstage fun name hname => by simp [hremoved] at hname
  next name hremoved =>
    split
    next hdelete =>
      rw [Bool.and_eq_true, Option.isNone_iff_eq_none] at hdelete
      obtain ⟨hpresent, rfl⟩ := hdelete
      exact .deleted hstage hremoved hpresent
    next hkeep =>
      refine .kept hstage fun other hother => ?_
      rw [hremoved, Option.some.injEq] at hother
      subst hother
      cases hpresent : world.disk.present (ctx.job.finalPlace name) with
      | false => exact .inl rfl
      | true => cases fault <;> simp_all

/-- Every move of a depot download is one of the listed steps. -/
theorem jobStep_cases (hstep : ctx.step (world, state) move = some (world', state')) :
    ctx.JobStep world state move world' state' := by
  cases move with
  | main fault =>
      replace hstep : ctx.mainStep world state fault = some (world', state') := hstep
      unfold mainStep at hstep
      cases hstage : state.stage with
      | spawning rest =>
          cases rest with
          | nil => simp only [hstage] at hstep; cases hstep; exact .spawnDone hstage
          | cons file rest =>
              simp only [hstage, Option.some.injEq] at hstep
              exact spawnFile_cases hstage hstep
      | awaiting position =>
          simp only [hstage] at hstep
          split at hstep
          next hend =>
            split at hstep <;> cases hstep
            next hfresh => exact .awaitDone hstage hend hfresh
            next old hold => exact .deleteBegun hstage hend hold
          next fileJob hfile =>
            split at hstep <;> cases hstep
            next error hfinished => exact .awaitFailed hstage hfile hfinished
            next hfinished => exact .awaited hstage hfile hfinished
      | deleting rest =>
          cases rest with
          | nil => simp only [hstage] at hstep; cases hstep; exact .deleteDone hstage
          | cons old rest =>
              simp only [hstage] at hstep
              cases hstep
              exact deleteFile_cases hstage
      | returned outcome => simp only [hstage] at hstep; cases hstep
  | file position fileMove =>
      replace hstep : ctx.fileStep world state position fileMove = some (world', state') := hstep
      unfold fileStep at hstep
      split at hstep
      next => cases hstep
      next fileJob hfile =>
        obtain ⟨next, hnext, heq⟩ := Option.map_eq_some_iff.mp hstep
        cases heq
        exact .file hfile hnext
  | finish position =>
      replace hstep : ctx.finishStep world state position = some (world', state') := hstep
      unfold finishStep at hstep
      split at hstep
      next task fileState hfile =>
        split at hstep <;> cases hstep
        next hdone => exact .reported hfile rfl hdone
        next error hdone => exact .reportedError hfile rfl hdone
      next => cases hstep

theorem deletes_of_step (hstep : ctx.JobStep world state move world' state')
    (hdeletes : state.stage.deletes = true) : state'.stage.deletes = true := by
  cases hstep <;> simp_all

end JobContext

end DepotDownloader.SteamClient
