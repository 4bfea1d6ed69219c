import DepotDownloader.SteamClient.Download.FileTask

/-! # The download of a depot

`DepotJob::download`: a loop that skips files or spawns their tasks, a loop that
awaits the tasks in the order of the manifest, and the deletion of the files
that only the previous manifest lists. The spawned tasks run while the loops do,
and go on running after the job has returned an error.
-/

namespace DepotDownloader.SteamClient

open Foundation Foundation.LexPath Steam

/-- A spawned file task. `finished` is what its handle will give. -/
structure FileJob where
  task : FileTask
  state : FileState
  finished : Option Outcome

inductive JobStage where
  | spawning (rest : List ManifestFile)
  | awaiting (position : Nat)
  | deleting (rest : List ManifestFile)
  | returned (outcome : Outcome)
  deriving DecidableEq

structure JobState where
  stage : JobStage
  filesCompleted : Nat
  files : List FileJob

/-- A move of the job's own loop, of one of the file tasks, or of a file task
whose `download_file` has returned and that now reports its result. -/
inductive JobMove where
  | main (fault : Option Nat)
  | file (position : Nat) (move : FileMove)
  | finish (position : Nat)
  deriving DecidableEq

namespace DepotJob

variable (job : DepotJob)

def filteredOut (filename : String) : Bool :=
  job.fileFilter.any fun filter => !filter.selects filename

/-- The entry of that name in the previous manifest. -/
def oldFile (filename : String) : Option ManifestFile :=
  job.previousManifest.bind fun old => old.files.find? fun file => file.filename == some filename

/-- The content hash is unchanged and the file is there. -/
def unchanged (disk : Disk) (file : ManifestFile) (filename : String) : Bool :=
  (job.oldFile filename).any fun old =>
    old.shaContent == file.shaContent && file.shaContent.isSome &&
      disk.present (job.finalPlace filename)

def fileTask (file : ManifestFile) (filename : String) : FileTask where
  path := job.finalPath filename
  size := file.size
  flags := file.flags
  chunks := file.chunks
  oldChunks := (job.oldFile filename).map ManifestFile.chunks
  filename := filename

end DepotJob

/-- The deletion pass removes the file of an entry of the previous manifest. -/
def removedName (manifest : DepotManifest) (old : ManifestFile) : Option String :=
  match old.filename with
  | none => none
  | some name =>
      if old.isDirectory then none
      else if (manifest.files.filterMap ManifestFile.filename).contains name then none
      else some name

/-- The data that every step of a depot download reads. -/
structure JobContext where
  job : DepotJob
  codecs : Codecs
  fetcher : ChunkFetcher
  manifest : DepotManifest
  /-- What fails without a trace in the file task at a position. -/
  silent : Nat → SilentFailures := fun _ => .none

abbrev JobConfig := World × JobState

namespace JobContext

variable (ctx : JobContext)

def fileContext (position : Nat) (task : FileTask) : FileContext where
  job := ctx.job
  codecs := ctx.codecs
  fetcher := ctx.fetcher
  task := task
  file := position
  silent := ctx.silent position

def initial : JobState where
  stage := .spawning ctx.manifest.files
  filesCompleted := 0
  files := []

def progress (filesCompleted : Nat) : Effect :=
  .send (.depotProgress filesCompleted ctx.manifest.files.length)

/-- One iteration of the loop over the manifest's entries. -/
def spawnFile (world : World) (state : JobState) (file : ManifestFile)
    (rest : List ManifestFile) : JobConfig :=
  let next : JobState := { state with stage := .spawning rest }
  match file.filename with
  | none => (world, next)
  | some filename =>
      if ctx.job.filteredOut filename then
        (world.emit (.send (.fileSkipped filename)),
          { next with filesCompleted := state.filesCompleted + 1 })
      else if file.isDirectory then
        ((world.emit (.send (.fileSkipped filename))).emit
          (ctx.progress (state.filesCompleted + 1)),
          { next with filesCompleted := state.filesCompleted + 1 })
      else if ctx.job.unchanged world.disk file filename then
        (world.emit (.send (.fileSkipped filename)),
          { next with filesCompleted := state.filesCompleted + 1 })
      else
        (world.emit (.send (.fileStarted filename file.chunks.length file.size)),
          { next with
            files := state.files ++ [⟨ctx.job.fileTask file filename, .initial, none⟩] })

/-- One iteration of the deletion pass. A file that cannot be removed stays. -/
def deleteFile (world : World) (old : ManifestFile) (fault : Option Nat) : World :=
  match removedName ctx.manifest old with
  | none => world
  | some name =>
      if world.disk.present (ctx.job.finalPlace name) && fault.isNone then
        (world.withDisk (world.disk.remove (ctx.job.finalPlace name))).emit
          (.removeFile (ctx.job.finalPath name))
      else world

def mainStep (world : World) (state : JobState) (fault : Option Nat) : Option JobConfig :=
  match state.stage with
  | .spawning [] => some (world, { state with stage := .awaiting 0 })
  | .spawning (file :: rest) => some (ctx.spawnFile world state file rest)
  | .awaiting position =>
      match state.files[position]? with
      | none =>
          match ctx.job.previousManifest with
          | none => some (world, { state with stage := .returned (.ok ()) })
          | some old => some (world, { state with stage := .deleting old.files })
      | some fileJob =>
          match fileJob.finished with
          | none => none
          | some (.error error) => some (world, { state with stage := .returned (.error error) })
          | some (.ok ()) =>
              some (world.emit (ctx.progress (state.filesCompleted + 1)),
                { state with
                  stage := .awaiting (position + 1)
                  filesCompleted := state.filesCompleted + 1 })
  | .deleting [] => some (world, { state with stage := .returned (.ok ()) })
  | .deleting (old :: rest) =>
      some (ctx.deleteFile world old fault, { state with stage := .deleting rest })
  | .returned _ => none

/-- Executable permissions and the completion event of a successful file. -/
def report (world : World) (task : FileTask) : World :=
  let permitted :=
    if task.flags.any DepotFileFlags.isExecutable && world.disk.present (ctx.job.place task.path)
    then world.emit (.setPermissions task.path) else world
  permitted.emit (.send (.fileCompleted task.filename))

def finishStep (world : World) (state : JobState) (position : Nat) : Option JobConfig :=
  match state.files[position]? with
  | some ⟨task, fileState, none⟩ =>
      match fileState.stage with
      | .done (.ok ()) =>
          some (ctx.report world task, { state with
            files := state.files.set position ⟨task, fileState, some (.ok ())⟩ })
      | .done (.error error) =>
          some (world, { state with
            files := state.files.set position ⟨task, fileState, some (.error error)⟩ })
      | _ => none
  | _ => none

def fileStep (world : World) (state : JobState) (position : Nat) (move : FileMove) :
    Option JobConfig :=
  match state.files[position]? with
  | none => none
  | some fileJob =>
      ((ctx.fileContext position fileJob.task).step (world, fileJob.state) move).map fun next =>
        (next.1, { state with
          files := state.files.set position { fileJob with state := next.2 } })

def step (config : JobConfig) : JobMove → Option JobConfig
  | .main fault => ctx.mainStep config.1 config.2 fault
  | .file position move => ctx.fileStep config.1 config.2 position move
  | .finish position => ctx.finishStep config.1 config.2 position

/-- A depot download with its file and chunk tasks. -/
def machine : Machine JobConfig JobMove where
  step := ctx.step

/-- Download on a disk, with the moves in the given order. -/
def download (disk : Disk) (moves : List JobMove) : Option JobConfig :=
  ctx.machine.run (⟨disk, []⟩, ctx.initial) moves

end JobContext

end DepotDownloader.SteamClient
