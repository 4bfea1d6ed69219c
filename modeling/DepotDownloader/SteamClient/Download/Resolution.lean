import DepotDownloader.Foundation.Stuttering
import DepotDownloader.SteamClient.Download.Effects
import DepotDownloader.SteamClient.Download.Outcome

/-! # Downloads on a disk that resolves names

On many disks several spellings lead to one file: letter case may not count, or
both slashes separate. The deletion pass compares names as strings, while the
disk resolves them. The download here reads and writes at the place that a name
resolves to and does everything else as before. It keeps the new files when no
removed name resolves to one of them.
-/

namespace DepotDownloader.SteamClient

open Foundation Foundation.LexPath Steam

/-- A download on a disk that takes every name for the spelling it resolves to.
Two names lead to one file when their spellings do. -/
structure ResolvingContext extends JobContext where
  spell : String → String

namespace ResolvingContext

variable (ctx : ResolvingContext)

def finalPlace (filename : String) : Place := ctx.job.finalPlace (ctx.spell filename)

def stagingPlace (filename : String) : Place := ctx.job.stagingPlace (ctx.spell filename)

/-- The previous manifest is searched for the string, the disk for the file. -/
def unchanged (disk : Disk) (file : ManifestFile) (filename : String) : Bool :=
  (ctx.job.oldFile filename).any fun old =>
    old.shaContent == file.shaContent && file.shaContent.isSome &&
      disk.present (ctx.finalPlace filename)

/-- A task as the disk takes it: its paths lead to the spelling of its name. -/
def resolved (task : FileTask) : FileTask :=
  { task with
    path := ctx.job.finalPath (ctx.spell task.filename)
    filename := ctx.spell task.filename }

def spawnFile (world : World) (state : JobState) (file : ManifestFile)
    (rest : List ManifestFile) : JobConfig :=
  let next : JobState := { state with stage := .spawning rest }
  match file.filename with
  | none => (world, next)
  | some filename =>
      if ctx.job.filteredOut filename then
        (world.emit (.send (.fileSkipped filename)),
          { next with filesCompleted := state.filesCompleted + 1 })
      else if file.isDirectory then
        ((world.emit (.send (.fileSkipped filename))).emit
          (ctx.progress (state.filesCompleted + 1)),
          { next with filesCompleted := state.filesCompleted + 1 })
      else if ctx.unchanged world.disk file filename then
        (world.emit (.send (.fileSkipped filename)),
          { next with filesCompleted := state.filesCompleted + 1 })
      else
        (world.emit (.send (.fileStarted filename file.chunks.length file.size)),
          { next with
            files := state.files ++ [⟨ctx.job.fileTask file filename, .initial, none⟩] })

/-- The name is compared as a string, its file is looked up and removed by the disk. -/
def deleteFile (world : World) (old : ManifestFile) (fault : Option Nat) : World :=
  match removedName ctx.manifest old with
  | none => world
  | some name =>
      if world.disk.present (ctx.finalPlace name) && fault.isNone then
        (world.withDisk (world.disk.remove (ctx.finalPlace name))).emit
          (.removeFile (ctx.job.finalPath name))
      else world

def mainStep (world : World) (state : JobState) (fault : Option Nat) : Option JobConfig :=
  match state.stage with
  | .spawning (file :: rest) => some (ctx.spawnFile world state file rest)
  | .deleting (old :: rest) =>
      some (ctx.deleteFile world old fault, { state with stage := .deleting rest })
  | _ => ctx.toJobContext.mainStep world state fault

/-- The permissions are set where the name resolves to, the completion event carries the
name. -/
def report (world : World) (task : FileTask) : World :=
  let permitted :=
    if task.flags.any DepotFileFlags.isExecutable &&
        world.disk.present (ctx.finalPlace task.filename)
    then world.emit (.setPermissions task.path) else world
  permitted.emit (.send (.fileCompleted task.filename))

def finishStep (world : World) (state : JobState) (position : Nat) : Option JobConfig :=
  match state.files[position]? with
  | some ⟨task, fileState, none⟩ =>
      match fileState.stage with
      | .done (.ok ()) =>
          some (ctx.report world task, { state with
            files := state.files.set position ⟨task, fileState, some (.ok ())⟩ })
      | .done (.error error) =>
          some (world, { state with
            files := state.files.set position ⟨task, fileState, some (.error error)⟩ })
      | _ => none
  | _ => none

def fileStep (world : World) (state : JobState) (position : Nat) (move : FileMove) :
    Option JobConfig :=
  match state.files[position]? with
  | none => none
  | some fileJob =>
      ((ctx.fileContext position (ctx.resolved fileJob.task)).step (world, fileJob.state) move).map
        fun next => (next.1, { state with
          files := state.files.set position { fileJob with state := next.2 } })

def step (config : JobConfig) : JobMove → Option JobConfig
  | .main fault => ctx.mainStep config.1 config.2 fault
  | .file position move => ctx.fileStep config.1 config.2 position move
  | .finish position => ctx.finishStep config.1 config.2 position

def machine : Machine JobConfig JobMove where
  step := ctx.step

def download (disk : Disk) (moves : List JobMove) : Option JobConfig :=
  ctx.machine.run (⟨disk, []⟩, ctx.initial) moves

end ResolvingContext

namespace FileContext

variable {ctx : FileContext} {world world' : World} {state state' : FileState}

/-- A name that is not the staging file's keeps its file, or is the final name and
has one. -/
theorem link_step {move : FileMove}
    (hstep : ctx.step (world, state) move = some (world', state')) {place : Place}
    (hplace : place ≠ ctx.stagingPlace) :
    world'.disk.link place = world.disk.link place ∨
      (place = ctx.finalPlace ∧ world'.disk.present place = true) := by
  rcases step_cases hstep with hmain | ⟨_, hchunk⟩
  · cases hmain with
    | created => exact .inl (FileTree.openTruncate_changesOnly _ _ place hplace).1
    | renamed hstage hrename =>
        by_cases hfinal : place = ctx.finalPlace
        · obtain ⟨ino, hlink⟩ := FileTree.rename_source hrename
          rw [hfinal, FileTree.present_iff_read, World.emit_disk, World.withDisk_disk,
            FileTree.rename_read_target hrename]
          exact .inr ⟨rfl, _, FileTree.read_of_link hlink⟩
        · refine .inl (FileTree.rename_changesOnly hrename place ?_).1
          rintro (heq | heq)
          · exact hplace heq
          · exact hfinal heq
    | _ => exact .inl rfl
  · cases hchunk <;> exact .inl rfl

end FileContext

namespace ResolvingContext

variable (ctx : ResolvingContext)

/-- What a move of a download on a resolving disk can do. -/
inductive ResolvingStep (world : World) (state : JobState) : JobMove → World → JobState → Prop
  | passed {file : ManifestFile} {rest : List ManifestFile} {world' : World} {completed : Nat}
      {fault : Option Nat} (hstage : state.stage = .spawning (file :: rest))
      (hdisk : world'.disk = world.disk)
      (hskip : ∀ name, ctx.Selected file name →
        world.disk.present (ctx.finalPlace name) = true) :
      ResolvingStep world state (.main fault) world'
        { state with stage := .spawning rest, filesCompleted := completed }
  | spawned {file : ManifestFile} {rest : List ManifestFile} {filename : String} {world' : World}
      {fault : Option Nat} (hstage : state.stage = .spawning (file :: rest))
      (hname : file.filename = some filename) (hfilter : ctx.job.filteredOut filename = false)
      (hdir : file.isDirectory = false) (hdisk : world'.disk = world.disk) :
      ResolvingStep world state (.main fault) world'
        { state with
          stage := .spawning rest
          files := state.files ++ [⟨ctx.job.fileTask file filename, .initial, none⟩] }
  | deleted {old : ManifestFile} {rest : List ManifestFile} {name : String} {world' : World}
      (hstage : state.stage = .deleting (old :: rest))
      (hremoved : removedName ctx.manifest old = some name)
      (hpresent : world.disk.present (ctx.finalPlace name) = true)
      (hdisk : world'.disk = world.disk.remove (ctx.finalPlace name)) :
      ResolvingStep world state (.main none) world' { state with stage := .deleting rest }
  | kept {old : ManifestFile} {rest : List ManifestFile} {fault : Option Nat}
      (hstage : state.stage = .deleting (old :: rest)) :
      ResolvingStep world state (.main fault) world { state with stage := .deleting rest }
  | turned {world' : World} {state' : JobState} {fault : Option Nat}
      (hjob : ctx.JobStep world state (.main fault) world' state')
      (hdisk : world'.disk = world.disk) (hfiles : state'.files = state.files)
      (hunspawned : state.stage.unspawned = []) (hunspawned' : state'.stage.unspawned = []) :
      ResolvingStep world state (.main fault) world' state'
  | file {position : Nat} {fileJob : FileJob} {move : FileMove} {world' : World}
      {fileState : FileState} (hfile : state.files[position]? = some fileJob)
      (hstep : (ctx.fileContext position (ctx.resolved fileJob.task)).step (world, fileJob.state)
        move = some (world', fileState)) :
      ResolvingStep world state (.file position move) world'
        (state.withFile position fileJob fileState)
  | reported {position : Nat} {fileJob : FileJob} {outcome : Outcome} {world' : World}
      (hfile : state.files[position]? = some fileJob) (hfinished : fileJob.finished = none)
      (hdone : fileJob.state.stage = .done outcome) (hdisk : world'.disk = world.disk) :
      ResolvingStep world state (.finish position) world'
        { state with files := state.files.set position { fileJob with finished := some outcome } }

variable {ctx} {start disk : Disk} {world world' : World} {state state' : JobState}
  {move : JobMove}

theorem report_disk (world : World) (task : FileTask) :
    (ctx.report world task).disk = world.disk := by
  unfold report
  split <;> rfl

theorem spawnFile_cases {file : ManifestFile} {rest : List ManifestFile} {fault : Option Nat}
    (hstage : state.stage = .spawning (file :: rest))
    (hstep : ctx.spawnFile world state file rest = (world', state')) :
    ctx.ResolvingStep world state (.main fault) world' state' := by
  unfold spawnFile at hstep
  split at hstep
  next hname =>
    cases hstep
    refine .passed hstage rfl fun name hselected => ?_
    rw [hselected.2.1] at hname
    cases hname
  next filename hname =>
    have hsame {name : String} (hselected : ctx.Selected file name) : name = filename :=
      Option.some.inj (hselected.2.1.symm.trans hname)
    split at hstep
    next hfilter =>
      cases hstep
      refine .passed hstage rfl fun name hselected => ?_
      have hkept := hselected.2.2.1
      rw [hsame hselected, hfilter] at hkept
      cases hkept
    next hfilter =>
      split at hstep
      next hdir =>
        cases hstep
        refine .passed hstage rfl fun name hselected => ?_
        have hfile := hselected.2.2.2
        rw [hdir] at hfile
        cases hfile
      next hdir =>
        split at hstep <;> cases hstep
        next hunchanged =>
          refine .passed hstage rfl fun name hselected => ?_
          obtain ⟨old, _, hboth⟩ := (Option.any_eq_true _ _).mp hunchanged
          rw [hsame hselected]
          exact (Bool.and_eq_true_iff.mp hboth).2
        next =>
          rw [Bool.not_eq_true] at hfilter hdir
          exact .spawned hstage hname hfilter hdir rfl

theorem deleteFile_cases {old : ManifestFile} {rest : List ManifestFile} {fault : Option Nat}
    (hstage : state.stage = .deleting (old :: rest)) :
    ctx.ResolvingStep world state (.main fault) (ctx.deleteFile world old fault)
      { state with stage := .deleting rest } := by
  unfold deleteFile
  split
  next => exact .kept hstage
  next name hremoved =>
    split
    next hdelete =>
      rw [Bool.and_eq_true, Option.isNone_iff_eq_none] at hdelete
      obtain ⟨hpresent, rfl⟩ := hdelete
      exact .deleted hstage hremoved hpresent rfl
    next => exact .kept hstage

/-- Every move of a download on a resolving disk is one of the listed steps. -/
theorem step_cases (hstep : ctx.step (world, state) move = some (world', state')) :
    ctx.ResolvingStep world state move world' state' := by
  cases move with
  | main fault =>
      replace hstep : ctx.mainStep world state fault = some (world', state') := hstep
      unfold mainStep at hstep
      split at hstep
      next file rest hstage =>
        rw [Option.some.injEq] at hstep
        exact spawnFile_cases hstage hstep
      next old rest hstage =>
        cases hstep
        exact deleteFile_cases hstage
      -- all other moves of the loop are those of the download without resolution
      next hspawning hdeleting =>
        have hjob : ctx.JobStep world state (.main fault) world' state' :=
          JobContext.jobStep_cases hstep
        have hquiet : world'.disk = world.disk ∧ state'.files = state.files ∧
            state.stage.unspawned = [] ∧ state'.stage.unspawned = [] := by
          cases hjob with
          | unnamed hstage | filtered hstage | directory hstage | unchanged hstage
          | spawned hstage => exact absurd hstage (hspawning _ _)
          | deleted hstage | kept hstage => exact absurd hstage (hdeleting _ _)
          | spawnDone hstage | awaited hstage | awaitFailed hstage | awaitDone hstage
          | deleteBegun hstage | deleteDone hstage =>
              rw [hstage]
              exact ⟨rfl, rfl, rfl, rfl⟩
        exact .turned hjob hquiet.1 hquiet.2.1 hquiet.2.2.1 hquiet.2.2.2
  | file position fileMove =>
      replace hstep : ctx.fileStep world state position fileMove = some (world', state') := hstep
      unfold fileStep at hstep
      split at hstep
      next => cases hstep
      next fileJob hfile =>
        obtain ⟨next, hnext, heq⟩ := Option.map_eq_some_iff.mp hstep
        cases heq
        exact .file hfile hnext
  | finish position =>
      replace hstep : ctx.finishStep world state position = some (world', state') := hstep
      unfold finishStep at hstep
      split at hstep
      next task fileState hfile =>
        split at hstep <;> cases hstep
        next hdone => exact .reported hfile rfl hdone (report_disk _ _)
        next error hdone => exact .reported hfile rfl hdone rfl
      next => cases hstep

variable (ctx) in
/-- A name of the new manifest leads to the place. -/
def Lists (place : Place) : Prop :=
  ∃ name ∈ manifestNames ctx.manifest, ctx.finalPlace name = place

variable (ctx) in
/-- The place is one of the two of a file that the job downloads. -/
def Uses (place : Place) : Prop :=
  ∃ file name, ctx.Selected file name ∧
    (place = ctx.stagingPlace name ∨ place = ctx.finalPlace name)

variable (ctx) in
/-- A removed name that leads to a file of the new manifest finds nothing there, at the
start or from the job, and no staging file is in the place of a new file. -/
structure SparesNew (start : Disk) : Prop where
  removed : ∀ previous, ctx.job.previousManifest = some previous → ∀ old ∈ previous.files,
    ∀ name, removedName ctx.manifest old = some name → ctx.Lists (ctx.finalPlace name) →
      start.present (ctx.finalPlace name) = false ∧ ¬ ctx.Uses (ctx.finalPlace name)
  staged : ∀ file name file' name', ctx.Selected file name → ctx.Selected file' name' →
    ctx.stagingPlace name ≠ ctx.finalPlace name'

variable (ctx) in
/-- The selected entries that the loop has passed are on the disk or have a task, and a
task that has returned Ok has left its file. -/
structure Resolved (start disk : Disk) (state : JobState) : Prop where
  listed : ∀ file ∈ state.stage.unspawned, file ∈ ctx.manifest.files
  passed : ∀ file name, ctx.Selected file name → file ∈ state.stage.unspawned ∨
    disk.present (ctx.finalPlace name) = true ∨
      ctx.job.fileTask file name ∈ state.files.map FileJob.task
  tasks : ∀ task ∈ state.files.map FileJob.task,
    ∃ file name, ctx.Selected file name ∧ task = ctx.job.fileTask file name
  finished : ∀ fileJob ∈ state.files, fileJob.finished = some (.ok ()) →
    fileJob.state.stage = .done (.ok ())
  present : ∀ fileJob ∈ state.files, fileJob.state.stage = .done (.ok ()) →
    disk.present (ctx.finalPlace fileJob.task.filename) = true
  awaited : ∀ position, state.stage = .awaiting position → ∀ earlier < position,
    ∃ fileJob, state.files[earlier]? = some fileJob ∧ fileJob.finished = some (.ok ())
  deleting : ∀ rest, state.stage = .deleting rest →
    ∃ previous, ctx.job.previousManifest = some previous ∧ ∀ old ∈ rest, old ∈ previous.files
  complete : state.stage.deletes = true →
    ∀ fileJob ∈ state.files, fileJob.state.stage = .done (.ok ())
  untouched : ∀ place, ¬ ctx.Uses place → disk.present place = true → start.present place = true

theorem Resolved.initial : ctx.Resolved start start ctx.initial where
  listed _ hmem := hmem
  passed _ _ hselected := .inl hselected.1
  tasks := by simp [JobContext.initial]
  finished := by simp [JobContext.initial]
  present := by simp [JobContext.initial]
  awaited _ h := by cases h
  deleting _ h := by cases h
  complete h := by cases h
  untouched _ _ hpresent := hpresent

/-- A step keeps the tasks, or appends the one of the entry that the loop passes. -/
theorem tasks_cases (hstep : ctx.ResolvingStep world state move world' state') :
    state'.files.map FileJob.task = state.files.map FileJob.task ∨
      ∃ file rest filename, state.stage = .spawning (file :: rest) ∧
        file.filename = some filename ∧ ctx.job.filteredOut filename = false ∧
        file.isDirectory = false ∧
        state'.files.map FileJob.task =
          state.files.map FileJob.task ++ [ctx.job.fileTask file filename] := by
  cases hstep with
  | passed | deleted | kept => exact .inl rfl
  | turned _ _ hfiles => exact .inl (by rw [hfiles])
  | spawned hstage hname hfilter hdir =>
      exact .inr ⟨_, _, _, hstage, hname, hfilter, hdir, List.map_append⟩
  | file hget | reported hget => exact .inl (JobContext.map_task_set _ hget rfl)

/-- Where every name is its own spelling, and the paths of the tasks are those of their
names, a step is the one of the download without resolution. -/
theorem step_resolving {ctx : JobContext} {config : JobConfig} (move : JobMove)
    (hpaths : ∀ task ∈ config.2.files.map FileJob.task,
      task.path = ctx.job.finalPath task.filename) :
    (ResolvingContext.mk ctx id).step config move = ctx.step config move := by
  obtain ⟨world, state⟩ := config
  have hpath {position : Nat} {fileJob : FileJob} (hget : state.files[position]? = some fileJob) :
      fileJob.task.path = ctx.job.finalPath fileJob.task.filename :=
    hpaths _ (List.mem_map_of_mem (List.mem_of_getElem? hget))
  cases move with
  | main fault =>
      change ResolvingContext.mainStep _ world state fault = ctx.mainStep world state fault
      unfold ResolvingContext.mainStep
      split
      next file rest hstage =>
        unfold JobContext.mainStep
        rw [hstage]
        rfl
      next old rest hstage =>
        unfold JobContext.mainStep
        rw [hstage]
        rfl
      next => rfl
  | file position fileMove =>
      change ResolvingContext.fileStep _ world state position fileMove =
        ctx.fileStep world state position fileMove
      unfold ResolvingContext.fileStep JobContext.fileStep
      cases hget : state.files[position]? with
      | none => rfl
      | some fileJob =>
          have hsame : (ResolvingContext.mk ctx id).resolved fileJob.task = fileJob.task :=
            congrArg (fun path => { fileJob.task with path := path }) (hpath hget).symm
          simp only [hsame]
  | finish position =>
      change ResolvingContext.finishStep _ world state position =
        ctx.finishStep world state position
      unfold ResolvingContext.finishStep JobContext.finishStep
      cases hget : state.files[position]? with
      | none => rfl
      | some fileJob =>
          have hplace : ctx.job.place fileJob.task.path =
              ctx.job.finalPlace fileJob.task.filename := by
            rw [hpath hget]
            rfl
          have hreport : (ResolvingContext.mk ctx id).report world fileJob.task =
              ctx.report world fileJob.task := by
            unfold report JobContext.report
            rw [hplace]
            rfl
          obtain ⟨task, fileState, finished⟩ := fileJob
          cases finished with
          | none =>
              obtain ⟨stage⟩ := fileState
              cases stage with
              | done outcome =>
                  cases outcome with
                  | ok _ => exact congrArg (fun reported => some (reported, _)) hreport
                  | error error => rfl
              | _ => rfl
          | some outcome => rfl

/-- The tasks of a download keep the paths of their names. -/
theorem paths_step (hpaths : ∀ task ∈ state.files.map FileJob.task,
      task.path = ctx.job.finalPath task.filename)
    (hstep : ctx.ResolvingStep world state move world' state') :
    ∀ task ∈ state'.files.map FileJob.task, task.path = ctx.job.finalPath task.filename := by
  rcases tasks_cases hstep with htasks | ⟨file, rest, filename, _, _, _, _, htasks⟩ <;> rw [htasks]
  · exact hpaths
  · exact List.forall_mem_append.mpr ⟨hpaths, List.forall_mem_singleton.mpr rfl⟩

/-- Where every name is its own spelling the download is the one of before. -/
theorem download_resolving (ctx : JobContext) (disk : Disk) (moves : List JobMove) :
    (ResolvingContext.mk ctx id).download disk moves = ctx.download disk moves :=
  Machine.run_eq_of_invariant
    (fun config move (hpaths : ∀ task ∈ config.2.files.map FileJob.task,
      task.path = ctx.job.finalPath task.filename) => step_resolving move hpaths)
    (fun _ _ _ hpaths hstep => paths_step hpaths (step_cases hstep))
    (by simp [JobContext.initial]) moves

/-- What a step does to the file at a place. -/
inductive PlaceChange (ctx : ResolvingContext) (world : World) (state : JobState) (move : JobMove)
    (world' : World) (place : Place) : Prop
  | same (hlink : world'.disk.link place = world.disk.link place)
  | staging {file : ManifestFile} {name : String} {position : Nat} {fileMove : FileMove}
      (hmove : move = .file position fileMove) (hselected : ctx.Selected file name)
      (hplace : place = ctx.stagingPlace name)
  | installed {file : ManifestFile} {name : String} (hselected : ctx.Selected file name)
      (hplace : place = ctx.finalPlace name) (hpresent : world'.disk.present place = true)
  | deleted {old : ManifestFile} {rest : List ManifestFile} {name : String}
      (hstage : state.stage = .deleting (old :: rest))
      (hremoved : removedName ctx.manifest old = some name)
      (hpresent : world.disk.present (ctx.finalPlace name) = true)
      (hplace : place = ctx.finalPlace name)

namespace Resolved

theorem task_spec (hresolved : ctx.Resolved start disk state) {fileJob : FileJob}
    (hmem : fileJob ∈ state.files) :
    ∃ file name, ctx.Selected file name ∧ fileJob.task = ctx.job.fileTask file name :=
  hresolved.tasks _ (List.mem_map_of_mem hmem)

/-- A removed name that has a file leads to none of the new manifest's files. -/
theorem not_lists (hresolved : ctx.Resolved start disk state) (hspares : ctx.SparesNew start)
    {old : ManifestFile} {rest : List ManifestFile} {name : String}
    (hstage : state.stage = .deleting (old :: rest))
    (hremoved : removedName ctx.manifest old = some name)
    (hpresent : disk.present (ctx.finalPlace name) = true) :
    ¬ ctx.Lists (ctx.finalPlace name) := by
  intro hlists
  -- the place was empty at the start and no task works there, so the file came from nowhere
  obtain ⟨previous, hprevious, hrest⟩ := hresolved.deleting _ hstage
  obtain ⟨habsent, hunused⟩ :=
    hspares.removed previous hprevious old (hrest old List.mem_cons_self) name hremoved hlists
  have hstart := hresolved.untouched _ hunused hpresent
  rw [habsent] at hstart
  cases hstart

section Step

variable (hresolved : ctx.Resolved start world.disk state)
  (hspares : ctx.SparesNew start) (hstep : ctx.ResolvingStep world state move world' state')

include hresolved hstep in
theorem place_cases (place : Place) : ctx.PlaceChange world state move world' place := by
  cases hstep with
  | passed _ hdisk | spawned _ _ _ _ hdisk | turned _ hdisk | reported _ _ _ hdisk =>
      exact .same (by rw [hdisk])
  | kept => exact .same rfl
  | @deleted old rest name _ hstage hremoved hpresent hdisk =>
      by_cases hplace : place = ctx.finalPlace name
      · exact .deleted hstage hremoved hpresent hplace
      · refine .same ?_
        rw [hdisk]
        exact (FileTree.remove_changesOnly _ _ place hplace).1
  | @file position fileJob fileMove _ _ hget hfile =>
      obtain ⟨file, name, hselected, htask⟩ := hresolved.task_spec (List.mem_of_getElem? hget)
      rw [htask] at hfile
      -- a task works under the two places of the entry that it was spawned for
      by_cases hplace : place = ctx.stagingPlace name
      · exact .staging rfl hselected hplace
      · rcases FileContext.link_step hfile hplace with hlink | ⟨hfinal, hpresent⟩
        · exact .same hlink
        · exact .installed hselected hfinal hpresent

include hresolved hspares hstep

/-- Only its own task takes a file from a place that a name of the new manifest leads to,
and that as a staging file. -/
theorem present_step {place : Place} (hlists : ctx.Lists place)
    (hpresent : world.disk.present place = true) : world'.disk.present place = true ∨
      (∃ position fileMove, move = .file position fileMove) ∧
        ∃ file name, ctx.Selected file name ∧ place = ctx.stagingPlace name := by
  cases hresolved.place_cases hstep place with
  | same hlink =>
      left
      unfold FileTree.present
      rw [hlink]
      exact hpresent
  | staging hmove hselected hplace => exact .inr ⟨⟨_, _, hmove⟩, _, _, hselected, hplace⟩
  | installed _ _ hafter => exact .inl hafter
  | deleted hstage hremoved hfound hplace =>
      exact absurd (hplace ▸ hlists) (hresolved.not_lists hspares hstage hremoved hfound)

theorem final_step {file : ManifestFile} {name : String} (hselected : ctx.Selected file name)
    (hpresent : world.disk.present (ctx.finalPlace name) = true) :
    world'.disk.present (ctx.finalPlace name) = true := by
  have hlists : ctx.Lists (ctx.finalPlace name) :=
    ⟨name, List.mem_filterMap.mpr ⟨file, hselected.1, hselected.2.1⟩, rfl⟩
  rcases hresolved.present_step hspares hstep hlists hpresent with
    hafter | ⟨_, other, name', hother, heq⟩
  · exact hafter
  · exact absurd heq.symm (hspares.staged other name' file name hother hselected)

end Step

/-- Nothing new appears where the job does not work. -/
theorem untouched_step (hresolved : ctx.Resolved start world.disk state)
    (hstep : ctx.ResolvingStep world state move world' state') {place : Place}
    (hunused : ¬ ctx.Uses place) (hpresent : world'.disk.present place = true) :
    start.present place = true := by
  refine hresolved.untouched place hunused ?_
  cases hresolved.place_cases hstep place with
  | same hlink =>
      unfold FileTree.present at hpresent ⊢
      rw [← hlink]
      exact hpresent
  | staging _ hselected hplace => exact absurd ⟨_, _, hselected, .inl hplace⟩ hunused
  | installed hselected hplace => exact absurd ⟨_, _, hselected, .inr hplace⟩ hunused
  | deleted _ _ hfound hplace =>
      rw [hplace]
      exact hfound

section Step

variable (hresolved : ctx.Resolved start world.disk state)
  (hstep : ctx.ResolvingStep world state move world' state')

include hresolved hstep

theorem listed_step {file : ManifestFile} (hmem : file ∈ state'.stage.unspawned) :
    file ∈ ctx.manifest.files := by
  cases hstep with
  | passed hstage | spawned hstage =>
      exact hresolved.listed file (by rw [hstage]; exact List.mem_cons_of_mem _ hmem)
  | deleted | kept => cases hmem
  | turned _ _ _ _ hunspawned' =>
      rw [hunspawned'] at hmem
      cases hmem
  | file | reported => exact hresolved.listed file hmem

theorem tasks_step {task : FileTask} (hmem : task ∈ state'.files.map FileJob.task) :
    ∃ file name, ctx.Selected file name ∧ task = ctx.job.fileTask file name := by
  rcases tasks_cases hstep with
    htasks | ⟨file, rest, filename, hstage, hname, hfilter, hdir, htasks⟩
  · exact hresolved.tasks task (htasks ▸ hmem)
  · rw [htasks, List.mem_append, List.mem_singleton] at hmem
    rcases hmem with hmem | hmem
    · exact hresolved.tasks task hmem
    · have hfile := hresolved.listed file (by rw [hstage]; exact List.mem_cons_self)
      exact ⟨file, filename, ⟨hfile, hname, hfilter, hdir⟩, hmem⟩

theorem finished_step {fileJob' : FileJob} (hmem' : fileJob' ∈ state'.files)
    (hfinished : fileJob'.finished = some (.ok ())) : fileJob'.state.stage = .done (.ok ()) := by
  cases hstep with
  | passed | deleted | kept => exact hresolved.finished _ hmem' hfinished
  | turned _ _ hfiles => exact hresolved.finished _ (hfiles ▸ hmem') hfinished
  | spawned =>
      rcases List.mem_append.mp hmem' with hmem | hmem
      · exact hresolved.finished _ hmem hfinished
      · rw [List.mem_singleton.mp hmem] at hfinished
        cases hfinished
  | file hget hfile =>
      rcases List.mem_or_eq_of_mem_set hmem' with hmem | rfl
      · exact hresolved.finished _ hmem hfinished
      · have hdone := hresolved.finished _ (List.mem_of_getElem? hget) hfinished
        exact FileContext.stage_of_done hdone hfile
  | reported hget _ hdone =>
      rcases List.mem_or_eq_of_mem_set hmem' with hmem | rfl
      · exact hresolved.finished _ hmem hfinished
      · rw [← Option.some.inj hfinished]
        exact hdone

theorem awaited_step {position : Nat} (hstage' : state'.stage = .awaiting position)
    {earlier : Nat} (hlt : earlier < position) :
    ∃ fileJob, state'.files[earlier]? = some fileJob ∧ fileJob.finished = some (.ok ()) := by
  cases hstep with
  | passed | spawned | deleted | kept => cases hstage'
  | turned hjob =>
      cases hjob with
      | awaited hstage hget hfinished =>
          cases hstage'
          rcases Nat.lt_succ_iff_lt_or_eq.mp hlt with hbefore | rfl
          · exact hresolved.awaited _ hstage earlier hbefore
          · exact ⟨_, hget, hfinished⟩
      | spawnDone =>
          cases hstage'
          omega
      | _ => cases hstage'
  | file hget => exact JobContext.awaited_set _ hget id (hresolved.awaited _ hstage' _ hlt)
  | reported hget hnone =>
      refine JobContext.awaited_set _ hget (fun h => ?_) (hresolved.awaited _ hstage' _ hlt)
      rw [hnone] at h
      cases h

theorem deleting_step {rest : List ManifestFile} (hstage' : state'.stage = .deleting rest) :
    ∃ previous, ctx.job.previousManifest = some previous ∧ ∀ old ∈ rest, old ∈ previous.files := by
  cases hstep with
  | passed | spawned => cases hstage'
  | deleted hstage | kept hstage =>
      cases hstage'
      obtain ⟨previous, hprevious, hrest⟩ := hresolved.deleting _ hstage
      exact ⟨previous, hprevious, fun old hmem => hrest old (List.mem_cons_of_mem _ hmem)⟩
  | turned hjob =>
      cases hjob with
      | deleteBegun _ _ hprevious =>
          cases hstage'
          exact ⟨_, hprevious, fun _ hmem => hmem⟩
      | deleted hstage | kept hstage =>
          cases hstage'
          obtain ⟨previous, hprevious, hrest⟩ := hresolved.deleting _ hstage
          exact ⟨previous, hprevious, fun old hmem => hrest old (List.mem_cons_of_mem _ hmem)⟩
      | _ => cases hstage'
  | file | reported => exact hresolved.deleting _ hstage'

/-- The loop leaves the awaiting stage without an error when every task has returned Ok. -/
theorem complete_step (hdeletes' : state'.stage.deletes = true) {fileJob' : FileJob}
    (hmem' : fileJob' ∈ state'.files) : fileJob'.state.stage = .done (.ok ()) := by
  -- the end of the list is reached only past a handle for every task
  have hended {position : Nat} (hstage : state.stage = .awaiting position)
      (hend : state.files[position]? = none) (hmem : fileJob' ∈ state.files) :
      fileJob'.state.stage = .done (.ok ()) := by
    obtain ⟨earlier, hearlier⟩ := List.mem_iff_getElem?.mp hmem
    have hlt := (List.getElem?_eq_some_iff.mp hearlier).1
    have hlength := List.getElem?_eq_none_iff.mp hend
    obtain ⟨found, hfound, hfinished⟩ := hresolved.awaited _ hstage earlier (by omega)
    rw [hearlier, Option.some.injEq] at hfound
    exact hresolved.finished _ hmem (hfound ▸ hfinished)
  cases hstep with
  | passed | spawned => cases hdeletes'
  | deleted hstage | kept hstage => exact hresolved.complete (by simp [hstage]) _ hmem'
  | turned hjob _ hfiles =>
      have hmem : fileJob' ∈ state.files := hfiles ▸ hmem'
      cases hjob with
      | awaitDone hstage hend | deleteBegun hstage hend => exact hended hstage hend hmem
      | deleted hstage | kept hstage | deleteDone hstage =>
          exact hresolved.complete (by simp [hstage]) _ hmem
      | _ => cases hdeletes'
  | file hget hfile =>
      rcases List.mem_or_eq_of_mem_set hmem' with hmem | rfl
      · exact hresolved.complete hdeletes' _ hmem
      · have hdone := hresolved.complete hdeletes' _ (List.mem_of_getElem? hget)
        exact FileContext.stage_of_done hdone hfile
  | reported hget =>
      rcases List.mem_or_eq_of_mem_set hmem' with hmem | rfl
      · exact hresolved.complete hdeletes' _ hmem
      · have hdone := hresolved.complete hdeletes' _ (List.mem_of_getElem? hget)
        exact hdone

theorem passed_step (hspares : ctx.SparesNew start) {file : ManifestFile} {name : String}
    (hselected : ctx.Selected file name) : file ∈ state'.stage.unspawned ∨
      world'.disk.present (ctx.finalPlace name) = true ∨
        ctx.job.fileTask file name ∈ state'.files.map FileJob.task := by
  have htasks (hmem : ctx.job.fileTask file name ∈ state.files.map FileJob.task) :
      ctx.job.fileTask file name ∈ state'.files.map FileJob.task := by
    rcases tasks_cases hstep with hsame | ⟨_, _, _, _, _, _, _, happend⟩
    · exact hsame ▸ hmem
    · rw [happend]
      exact List.mem_append_left _ hmem
  rcases hresolved.passed file name hselected with hmem | hpresent | hmem
  · cases hstep with
    | passed hstage hdisk hskip =>
        rw [hstage] at hmem
        rcases List.mem_cons.mp hmem with rfl | hrest
        · exact .inr (.inl (hdisk ▸ hskip name hselected))
        · exact .inl hrest
    | spawned hstage hname =>
        rw [hstage] at hmem
        rcases List.mem_cons.mp hmem with rfl | hrest
        -- this is the entry whose task was spawned
        · rw [hselected.2.1, Option.some.injEq] at hname
          subst hname
          refine .inr (.inr ?_)
          rw [List.map_append]
          exact List.mem_append_right _ List.mem_cons_self
        · exact .inl hrest
    | deleted hstage | kept hstage =>
        rw [hstage] at hmem
        cases hmem
    | turned _ _ _ hunspawned =>
        rw [hunspawned] at hmem
        cases hmem
    | file | reported => exact .inl hmem
  · exact .inr (.inl (hresolved.final_step hspares hstep hselected hpresent))
  · exact .inr (.inr (htasks hmem))

theorem present_of_step (hspares : ctx.SparesNew start) {fileJob' : FileJob}
    (hmem' : fileJob' ∈ state'.files) (hdone' : fileJob'.state.stage = .done (.ok ())) :
    world'.disk.present (ctx.finalPlace fileJob'.task.filename) = true := by
  have hkept {fileJob : FileJob} (hmem : fileJob ∈ state.files)
      (hdone : fileJob.state.stage = .done (.ok ())) :
      world'.disk.present (ctx.finalPlace fileJob.task.filename) = true := by
    obtain ⟨file, name, hselected, htask⟩ := hresolved.task_spec hmem
    have hpresent := hresolved.present _ hmem hdone
    rw [htask] at hpresent ⊢
    exact hresolved.final_step hspares hstep hselected hpresent
  cases hstep with
  | passed | deleted | kept => exact hkept hmem' hdone'
  | turned _ _ hfiles => exact hkept (hfiles ▸ hmem') hdone'
  | spawned =>
      rcases List.mem_append.mp hmem' with hmem | hmem
      · exact hkept hmem hdone'
      · rw [List.mem_singleton.mp hmem] at hdone'
        cases hdone'
  | @file position fileJob _ _ _ hget hfile =>
      rcases List.mem_or_eq_of_mem_set hmem' with hmem | rfl
      · exact hkept hmem hdone'
      -- the task has returned Ok before this move, or returns it now
      · by_cases hdone : fileJob.state.stage = .done (.ok ())
        · have hfinal := hkept (List.mem_of_getElem? hget) hdone
          exact hfinal
        · exact FileContext.present_of_done hdone hdone' hfile
  | reported hget =>
      rcases List.mem_or_eq_of_mem_set hmem' with hmem | rfl
      · exact hkept hmem hdone'
      · have hfinal := hkept (List.mem_of_getElem? hget) hdone'
        exact hfinal

end Step

theorem step (hresolved : ctx.Resolved start world.disk state) (hspares : ctx.SparesNew start)
    (hstep : ctx.step (world, state) move = some (world', state')) :
    ctx.Resolved start world'.disk state' := by
  have hcases := step_cases hstep
  exact
    { listed := fun _ => hresolved.listed_step hcases
      passed := fun _ _ => hresolved.passed_step hcases hspares
      tasks := fun _ => hresolved.tasks_step hcases
      finished := fun _ => hresolved.finished_step hcases
      present := fun _ => hresolved.present_of_step hcases hspares
      awaited := fun _ hstage _ => hresolved.awaited_step hcases hstage
      deleting := fun _ => hresolved.deleting_step hcases
      complete := fun hdeletes _ => hresolved.complete_step hcases hdeletes
      untouched := fun _ => hresolved.untouched_step hcases }

theorem run {moves : List JobMove} (hspares : ctx.SparesNew start)
    (hrun : ctx.download start moves = some (world, state)) :
    ctx.Resolved start world.disk state := by
  have hstep : ∀ (config : JobConfig) (move : JobMove) (next : JobConfig),
      ctx.Resolved start config.1.disk config.2 → True →
        ctx.machine.step config move = some next → ctx.Resolved start next.1.disk next.2 :=
    fun _ _ _ hresolved _ hnext => hresolved.step hspares hnext
  exact ctx.machine.run_invariant hstep (fun _ _ => trivial) .initial hrun

end Resolved

/-- In every run of a download whose removed names keep away from the new files: once it
has returned Ok every selected file is there, and no step before or after takes a file
from a place that a name of the new manifest leads to, but for a task with its staging
file. -/
theorem deletion_spares (hspares : ctx.SparesNew start) {moves : List JobMove}
    (hrun : ctx.download start moves = some (world, state)) :
    (state.stage = .returned (.ok ()) → ∀ file name, ctx.Selected file name →
      world.disk.present (ctx.finalPlace name) = true) ∧
    (∀ move world' state', ctx.machine.step (world, state) move = some (world', state') →
      ∀ place, world.disk.present place = true → world'.disk.present place = false →
        ((∃ position fileMove, move = .file position fileMove) ∧
          ∃ file name, ctx.Selected file name ∧ place = ctx.stagingPlace name) ∨
        ∀ name ∈ manifestNames ctx.manifest, ctx.finalPlace name ≠ place) := by
  have hresolved := Resolved.run hspares hrun
  constructor
  · intro hok file name hselected
    rcases hresolved.passed file name hselected with hmem | hpresent | hmem
    · rw [hok] at hmem
      cases hmem
    · exact hpresent
    · obtain ⟨fileJob, hfileJob, htask⟩ := List.mem_map.mp hmem
      have hpresent := hresolved.present fileJob hfileJob
        (hresolved.complete (by simp [hok]) fileJob hfileJob)
      rw [htask] at hpresent
      exact hpresent
  · intro move world' state' hstep place hbefore hafter
    by_cases hlists : ctx.Lists place
    · rcases hresolved.present_step hspares (step_cases hstep) hlists hbefore with hkept | hstaging
      · rw [hafter] at hkept
        cases hkept
      · exact .inl hstaging
    · exact .inr fun name hmem heq => hlists ⟨name, hmem, heq⟩

/-- A disk on which letter case does not count. -/
def caseless (manifest : DepotManifest) (previous : Option DepotManifest) : ResolvingContext where
  toJobContext := offline manifest previous
  spell name := String.ofList (name.toList.map Char.toLower)

/-- A release with `a.txt` in the place of `B.txt`. -/
def renamedRelease : ResolvingContext :=
  caseless (manifestOf [zeroFile "a.txt" 0]) (some (manifestOf [zeroFile "B.txt" 1]))

/-- The old file, under the spelling of the disk. -/
def renamedDisk : Disk := .ofFiles [(["home", "game", "b.txt"], [98])]

/-- The moves up to the deletion pass. -/
def renamedMoves : List JobMove :=
  List.replicate 2 (.main none) ++ offlineMoves 0 ++ List.replicate 2 (.main none)

theorem renamedRelease_sparesNew : renamedRelease.SparesNew renamedDisk := by
  have hselected {file : ManifestFile} {name : String} (h : renamedRelease.Selected file name) :
      name = "a.txt" := by
    have hfile : file = zeroFile "a.txt" 0 := List.mem_singleton.mp h.1
    have hname := h.2.1
    rw [hfile] at hname
    exact (Option.some.inj hname).symm
  constructor
  · rintro previous hprevious old hold name hremoved ⟨other, hother, hplace⟩
    cases hprevious
    rw [List.mem_singleton.mp hold] at hremoved
    cases hremoved
    have hother' : other = "a.txt" := List.mem_singleton.mp hother
    subst hother'
    exact absurd hplace (by decide +kernel)
  · intro file name file' name' h h'
    rw [hselected h, hselected h']
    decide +kernel

/-- The deletion pass finds `B.txt` under its other spelling and removes it. `a.txt` is there
when the job returns. -/
theorem deletion_spares_sample :
    ∃ world state world' state' last final,
      renamedRelease.download renamedDisk renamedMoves = some (world, state) ∧
      renamedRelease.machine.step (world, state) (.main none) = some (world', state') ∧
      world.disk.present ["home", "game", "b.txt"] = true ∧
      world'.disk.present ["home", "game", "b.txt"] = false ∧
      (∀ name ∈ manifestNames renamedRelease.manifest,
        renamedRelease.finalPlace name ≠ ["home", "game", "b.txt"]) ∧
      renamedRelease.download renamedDisk (renamedMoves ++ List.replicate 2 (.main none)) =
        some (last, final) ∧
      final.stage = .returned (.ok ()) ∧
      last.disk.present ["home", "game", "a.txt"] = true := by
  have hany : (renamedRelease.download renamedDisk renamedMoves).any (fun config =>
      config.1.disk.present ["home", "game", "b.txt"] &&
        ((renamedRelease.machine.step config (.main none)).any fun next =>
          !next.1.disk.present ["home", "game", "b.txt"])) = true := by decide +kernel
  have hreturned : (renamedRelease.download renamedDisk
      (renamedMoves ++ List.replicate 2 (.main none))).any
        (fun config => config.2.stage == .returned (.ok ())) = true := by decide +kernel
  obtain ⟨⟨world, state⟩, hrun, hboth⟩ := Machine.exists_of_run_any _ hany
  obtain ⟨hpresent, hstep⟩ := Bool.and_eq_true_iff.mp hboth
  obtain ⟨⟨world', state'⟩, hstep, hremoved⟩ := (Option.any_eq_true _ _).mp hstep
  obtain ⟨⟨last, final⟩, hfinal, hok⟩ := Machine.exists_of_run_any _ hreturned
  have hremoved : world'.disk.present ["home", "game", "b.txt"] = false := by simpa using hremoved
  have hok : final.stage = .returned (.ok ()) := by simpa using hok
  have hmem : renamedRelease.Selected (zeroFile "a.txt" 0) "a.txt" :=
    ⟨List.mem_singleton_self _, rfl, rfl, rfl⟩
  have hplace : renamedRelease.finalPlace "a.txt" = ["home", "game", "a.txt"] := by decide +kernel
  refine ⟨world, state, world', state', last, final, hrun, hstep, hpresent, hremoved, ?_, hfinal,
    hok, ?_⟩
  · rcases (deletion_spares renamedRelease_sparesNew hrun).2 _ _ _ hstep _ hpresent hremoved with
      ⟨⟨_, _, hmove⟩, _⟩ | hunlisted
    · cases hmove
    · exact hunlisted
  · rw [← hplace]
    exact (deletion_spares renamedRelease_sparesNew hfinal).1 hok _ _ hmem

/-- A release that changes the letter case of a name: the deletion pass of a successful
download removes the file that it has just installed. -/
theorem deletion_hits_new_case :
    ∃ moves world state,
      (caseless (manifestOf [zeroFile "a.txt" 0]) (some (manifestOf [zeroFile "A.txt" 0]))).download
        .empty moves = some (world, state) ∧
      state.stage = .returned (.ok ()) ∧
      (caseless (manifestOf [zeroFile "a.txt" 0])
        (some (manifestOf [zeroFile "A.txt" 0]))).Selected (zeroFile "a.txt" 0) "a.txt" ∧
      (caseless (manifestOf [zeroFile "a.txt" 0])
        (some (manifestOf [zeroFile "A.txt" 0]))).finalPlace "A.txt" =
          (caseless (manifestOf [zeroFile "a.txt" 0])
            (some (manifestOf [zeroFile "A.txt" 0]))).finalPlace "a.txt" ∧
      world.disk.present ((caseless (manifestOf [zeroFile "a.txt" 0])
        (some (manifestOf [zeroFile "A.txt" 0]))).finalPlace "a.txt") = false := by
  let ctx := caseless (manifestOf [zeroFile "a.txt" 0]) (some (manifestOf [zeroFile "A.txt" 0]))
  have hany : (ctx.download .empty
      (List.replicate 2 (.main none) ++ offlineMoves 0 ++ List.replicate 4 (.main none))).any
        (fun config => config.2.stage == .returned (.ok ()) &&
          !config.1.disk.present (ctx.finalPlace "a.txt")) = true := by decide +kernel
  obtain ⟨⟨world, state⟩, hrun, hboth⟩ := Machine.exists_of_run_any _ hany
  rw [Bool.and_eq_true, beq_iff_eq, Bool.not_eq_true'] at hboth
  exact ⟨_, world, state, hrun, hboth.1, ⟨List.mem_singleton_self _, rfl, rfl, rfl⟩,
    by decide +kernel, hboth.2⟩

end ResolvingContext

end DepotDownloader.SteamClient
