import DepotDownloader.Foundation.Machine
import DepotDownloader.SteamClient.Download.Job

/-! # The download of one file

`download_file` and the chunk tasks it spawns, as one machine. A move lets the
file task or one chunk task go on to its next await point. Between any two
moves every other task may move, so a run is one interleaving. The permit that
a chunk task acquires first only delays it, as long as there is one at all, and is
not represented.

An operation on the file system may fail; a failing write has written a prefix
of its bytes. The limits of the host on file sizes and offsets are such
failures. Some calls are asked for an answer only, and the code takes their failure
for a `no` and goes on: which of these fail is part of the context.
-/

namespace DepotDownloader.SteamClient

open Foundation Foundation.LexPath Steam

/-- The shared handle of the staging file: an open file, its cursor, and the
chunk task that holds the mutex. -/
structure SharedFile where
  ino : Nat
  cursor : Nat
  holder : Option Nat
  deriving DecidableEq

abbrev Outcome := Except DownloadError Unit

inductive ChunkStage where
  | fetch (attempt : Nat)
  | process (raw : Bytes)
  | lock (offset : Nat) (data : Bytes)
  | seek (offset : Nat) (data : Bytes)
  | write (data : Bytes)
  | done (outcome : Outcome)
  deriving DecidableEq

/-- A spawned chunk task and the index of its chunk in the file. -/
structure ChunkTask where
  index : Nat
  chunk : ManifestChunk
  chunkId : ChunkId
  stage : ChunkStage
  deriving DecidableEq

/-- Where `download_file` stands. -/
inductive FileStage where
  | createStagingDir
  | createFinalDir
  | checkFinal
  | checkStaging
  | openStaging (resuming : Bool)
  | setLen
  | openOld
  | copyChunks (oldIno : Nat) (index : Nat)
  | spawnChunks (index : Nat)
  | awaitChunks (position : Nat)
  | rename
  | done (outcome : Outcome)
  deriving DecidableEq

structure FileState where
  stage : FileStage
  /-- Identifiers of the chunks found valid in the staging file. -/
  validChunks : List ChunkId
  file : Option SharedFile
  chunkTasks : List ChunkTask
  deriving DecidableEq

namespace FileState

def initial : FileState where
  stage := .createStagingDir
  validChunks := []
  file := none
  chunkTasks := []

def withStage (state : FileState) (stage : FileStage) : FileState := { state with stage := stage }

def fail (state : FileState) (error : DownloadError) : FileState :=
  state.withStage (.done (.error error))

end FileState

/-- A move of the file task itself or of the chunk task at a position of the
spawned tasks. A fault makes the operation of the move fail after that many
bytes. -/
inductive FileActor where
  | main
  | chunk (position : Nat)
  deriving DecidableEq

structure FileMove where
  actor : FileActor
  fault : Option Nat
  deriving DecidableEq

/-- The calls of a file task that fail without a trace: those of the checks of the
final and of the staging file, `task.path.exists()` in front of the copy loop, the
reads of chunks of the previous version, and `task.path.exists()` in the loop that
spawns the chunk tasks. No task makes one of them twice. -/
structure SilentFailures where
  final : FailingReads
  staging : FailingReads
  oldPresent : Bool
  oldChunk : Nat → Bool
  listed : Nat → Bool

/-- Every call succeeds. -/
def SilentFailures.none : SilentFailures where
  final := .none
  staging := .none
  oldPresent := false
  oldChunk _ := false
  listed _ := false

/-- The data that every step of a file task reads. -/
structure FileContext where
  job : DepotJob
  codecs : Codecs
  fetcher : ChunkFetcher
  task : FileTask
  /-- The position of the task among the spawned file tasks. -/
  file : Nat
  silent : SilentFailures := .none

namespace FileContext

variable (ctx : FileContext)

def stagingPath : Path := ctx.job.stagingPath ctx.task.filename

def stagingPlace : Place := ctx.job.place ctx.stagingPath

def finalPlace : Place := ctx.job.place ctx.task.path

/-- `old_chunks.iter().find(|oc| oc.id.as_ref() == Some(chunk_id))`. -/
def oldMatch (chunkId : ChunkId) : Option ManifestChunk :=
  ctx.task.oldChunks.bind fun oldChunks => oldChunks.find? fun old => old.id == some chunkId

/-- What `read_exact` gives of the previous version for the chunk at an index. -/
def readOld (oldData : Bytes) (index oldOffset size : Nat) : Option Bytes :=
  if ctx.silent.oldChunk index then none else Bytes.readAt oldData oldOffset size

/-- The loop skips the chunk at an index: validated in staging, or taken to be copied
from the previous version. -/
def skipsChunk (disk : Disk) (state : FileState) (index : Nat) (chunkId : ChunkId) : Bool :=
  state.validChunks.contains chunkId ||
    (match ctx.task.oldChunks with
    | some oldChunks =>
        (disk.present ctx.finalPlace && !ctx.silent.listed index) &&
          oldChunks.any fun old => old.id == some chunkId
    | none => false)

end FileContext

abbrev FileConfig := World × FileState

namespace FileContext

variable (ctx : FileContext)

/-- Open the staging file. A resumed file keeps its bytes, otherwise it is
created or truncated. -/
def openStaging (world : World) (state : FileState) (resuming : Bool) : FileConfig :=
  if resuming then
    match world.disk.link ctx.stagingPlace with
    | none => (world, state.fail .io)
    | some ino =>
        (world.emit (.openExisting ctx.stagingPath),
          { state with stage := .openOld, file := some ⟨ino, 0, none⟩ })
  else
    let opened := world.disk.openTruncate ctx.stagingPlace
    ((world.withDisk opened.1).emit (.createTruncate ctx.stagingPath),
      { state with stage := .setLen, file := some ⟨opened.2, 0, none⟩ })

/-- Seek and write under the mutex, in one go: nobody else holds the file. -/
def writeChunk (world : World) (file : SharedFile) (offset : Nat) (bytes : Bytes) :
    World × SharedFile :=
  (world.withDisk (world.disk.store file.ino
      (Bytes.writeAt (world.disk.data file.ino) offset bytes)),
    { file with cursor := offset + bytes.length })

/-- Copy one chunk out of the previous version of the file. -/
def copyChunk (world : World) (state : FileState) (file : SharedFile) (oldIno index : Nat)
    (chunk : ManifestChunk) (fault : Option Nat) : FileConfig :=
  let next := state.withStage (.copyChunks oldIno (index + 1))
  match chunk.id.bind ctx.oldMatch with
  | none => (world, next)
  | some old =>
      match old.offset, chunk.offset, chunk.uncompressedSize with
      | some oldOffset, some newOffset, some size =>
          match ctx.readOld (world.disk.data oldIno) index oldOffset size, fault with
          | none, none => (world, next)
          -- the seek in the previous version fails
          | none, some _ => (world, state.fail .io)
          | some buffer, none =>
              let written := writeChunk world file newOffset buffer
              (written.1, { next with file := some written.2 })
          | some buffer, some count =>
              let written := writeChunk world file newOffset (buffer.take count)
              (written.1, { next with file := some written.2 }.fail .io)
      | _, _, _ => (world, next)

/-- One iteration of the loop that spawns the chunk tasks. -/
def spawnChunk (world : World) (state : FileState) (index : Nat) (chunk : ManifestChunk) :
    FileState :=
  let next := state.withStage (.spawnChunks (index + 1))
  match chunk.id with
  | none => next
  | some chunkId =>
      if ctx.skipsChunk world.disk state index chunkId then next
      else { next with
        chunkTasks := state.chunkTasks ++ [⟨index, chunk, chunkId, .fetch 0⟩] }

/-- The file task goes on to its next await point. -/
def mainStep (world : World) (state : FileState) (fault : Option Nat) : Option FileConfig :=
  match state.stage with
  | .createStagingDir =>
      match ctx.stagingPath.parent with
      | none => some (world, state.withStage .createFinalDir)
      | some parent =>
          if fault.isSome then some (world, state.fail .io)
          else some (world.emit (.createDirAll parent), state.withStage .createFinalDir)
  | .createFinalDir =>
      match ctx.task.path.parent with
      | none => some (world, state.withStage .checkFinal)
      | some parent =>
          if fault.isSome then some (world, state.fail .io)
          else some (world.emit (.createDirAll parent), state.withStage .checkFinal)
  | .checkFinal =>
      -- only a file of the right size is opened
      if fileHasCorrectSize world.disk ctx.finalPlace ctx.task.size ctx.silent.final &&
          fault.isSome then
        some (world, state.fail .io)
      else if fileHasValidChunks world.disk ctx.finalPlace ctx.task.size ctx.task.chunks
          ctx.silent.final then
        some (world, state.withStage (.done (.ok ())))
      else some (world, state.withStage .checkStaging)
  | .checkStaging =>
      if fileHasCorrectSize world.disk ctx.stagingPlace ctx.task.size ctx.silent.staging then
        let valid := validChunkIds ((world.disk.read ctx.stagingPlace).getD []) ctx.task.chunks
          ctx.silent.staging
        if fault.isSome then some (world, state.fail .io)
        else if valid.length = ctx.task.chunks.length then
          some (world, { state with stage := .rename, validChunks := valid })
        else some (world, { state with stage := .openStaging true, validChunks := valid })
      else some (world, state.withStage (.openStaging false))
  | .openStaging resuming =>
      if fault.isSome then some (world, state.fail .io)
      else some (ctx.openStaging world state resuming)
  | .setLen =>
      match ctx.task.size, state.file with
      | some size, some file =>
          if fault.isSome then some (world, state.fail .io)
          else
            some (world.withDisk (world.disk.store file.ino
              (Bytes.resize (world.disk.data file.ino) size)), state.withStage .openOld)
      | none, some _ => some (world, state.withStage .openOld)
      | _, none => none
  | .openOld =>
      match ctx.task.oldChunks, world.disk.link ctx.finalPlace with
      | some _, some oldIno =>
          if ctx.silent.oldPresent then some (world, state.withStage (.spawnChunks 0))
          else if fault.isSome then some (world, state.fail .io)
          else some (world, state.withStage (.copyChunks oldIno 0))
      | _, _ => some (world, state.withStage (.spawnChunks 0))
  | .copyChunks oldIno index =>
      match ctx.task.chunks[index]?, state.file with
      | none, _ => some (world, state.withStage (.spawnChunks 0))
      | some chunk, some file => some (ctx.copyChunk world state file oldIno index chunk fault)
      | some _, none => none
  | .spawnChunks index =>
      match ctx.task.chunks[index]? with
      | none => some (world, state.withStage (.awaitChunks 0))
      | some chunk => some (world, ctx.spawnChunk world state index chunk)
  | .awaitChunks position =>
      match state.chunkTasks[position]? with
      | none => some (world, state.withStage .rename)
      | some chunkTask =>
          match chunkTask.stage with
          | .done (.ok ()) => some (world, state.withStage (.awaitChunks (position + 1)))
          | .done (.error error) => some (world, state.fail error)
          | _ => none
  | .rename =>
      match world.disk.rename ctx.stagingPlace ctx.finalPlace with
      | some disk =>
          if fault.isSome then some (world, state.fail .io)
          else
            some ((world.withDisk disk).emit (.rename ctx.stagingPath ctx.task.path),
              state.withStage (.done (.ok ())))
      | none => some (world, state.fail .io)
  | .done _ => none

def fetchCall (chunkTask : ChunkTask) (attempt : Nat) : FetchCall :=
  ⟨ctx.job.depotId, chunkTask.chunkId, ctx.file, chunkTask.index, attempt⟩

/-- The fetch of an attempt has answered. -/
def fetched (chunkTask : ChunkTask) (attempt : Nat) : ChunkStage :=
  match ctx.fetcher (ctx.fetchCall chunkTask attempt) with
  | .ok raw => .process raw
  | .error text =>
      if attempt + 1 < ctx.job.retry.maxAttempts then
        match ctx.job.retry.delay attempt with
        | some _ => .fetch (attempt + 1)
        | none => .done (.error .panic)
      else .done (.error (.fetch text))

/-- Decrypt, decompress and verify the raw data of a chunk task. -/
def processed (chunk : ManifestChunk) (raw : Bytes) : Except DownloadError Bytes :=
  match chunk.uncompressedSize, chunk.checksum with
  | none, _ => .error (.message "chunk missing expected size in manifest")
  | some _, none => .error (.message "chunk missing checksum in manifest")
  | some size, some checksum =>
      match processChunk ctx.codecs raw ctx.job.depotKey size checksum with
      | .error error => .error (.chunk error)
      | .ok decompressed => .ok decompressed

/-- The task at a position goes on to its next await point. -/
def chunkStep (world : World) (state : FileState) (position : Nat) (fault : Option Nat) :
    Option FileConfig :=
  match state.chunkTasks[position]?, state.file with
  | some chunkTask, some file =>
      let advance (stage : ChunkStage) : FileState :=
        { state with chunkTasks := state.chunkTasks.set position { chunkTask with stage := stage } }
      let withFile (file : SharedFile) (stage : ChunkStage) : FileState :=
        { advance stage with file := some file }
      match chunkTask.stage with
      | .fetch attempt =>
          if attempt < ctx.job.retry.maxAttempts then
            some (world.emit (.fetchChunk (ctx.fetchCall chunkTask attempt)),
              advance (ctx.fetched chunkTask attempt))
          -- the loop over no attempts leaves no data to unwrap
          else some (world, advance (.done (.error .panic)))
      | .process raw =>
          match ctx.processed chunkTask.chunk raw, chunkTask.chunk.offset with
          | .error error, _ => some (world, advance (.done (.error error)))
          | .ok data, some offset => some (world, advance (.lock offset data))
          | .ok data, none =>
              some (world.emit (.send (.chunkCompleted chunkTask.chunkId data.length)),
                advance (.done (.ok ())))
      | .lock offset data =>
          match file.holder with
          | some _ => none
          | none => some (world, withFile { file with holder := some position } (.seek offset data))
      | .seek offset data =>
          if fault.isSome then
            some (world, withFile { file with holder := none } (.done (.error .io)))
          else some (world, withFile { file with cursor := offset } (.write data))
      | .write data =>
          match fault with
          | some count =>
              let written := writeChunk world file file.cursor (data.take count)
              some (written.1, withFile { written.2 with holder := none } (.done (.error .io)))
          | none =>
              let written := writeChunk world file file.cursor data
              some (written.1.emit (.send (.chunkCompleted chunkTask.chunkId data.length)),
                withFile { written.2 with holder := none } (.done (.ok ())))
      | .done _ => none
  | _, _ => none

def step (config : FileConfig) (move : FileMove) : Option FileConfig :=
  match move.actor with
  | .main => ctx.mainStep config.1 config.2 move.fault
  | .chunk position => ctx.chunkStep config.1 config.2 position move.fault

/-- The file task and its chunk tasks. -/
def machine : Machine FileConfig FileMove where
  step := ctx.step

end FileContext

end DepotDownloader.SteamClient
