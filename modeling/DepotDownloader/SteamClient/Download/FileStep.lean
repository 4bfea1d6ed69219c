import DepotDownloader.SteamClient.Download.FileTask

/-! # The steps of a file task

What one move of `download_file` or of a chunk task can do, stated once: every
fact about all interleavings is a case analysis of these two relations.
-/

namespace DepotDownloader.SteamClient

open Foundation Foundation.LexPath Steam

/-- The order in which a file task goes through its stages. -/
def FileStage.phase : FileStage → Nat
  | .createStagingDir => 0
  | .createFinalDir => 1
  | .checkFinal => 2
  | .checkStaging => 3
  | .openStaging _ => 4
  | .setLen => 5
  | .openOld => 6
  | .copyChunks _ _ => 7
  | .spawnChunks _ => 8
  | .awaitChunks _ => 9
  | .rename => 10
  | .done _ => 11

attribute [simp] FileStage.phase

namespace FileState

@[simp] theorem withStage_stage (state : FileState) (stage : FileStage) :
    (state.withStage stage).stage = stage := rfl

@[simp] theorem withStage_file (state : FileState) (stage : FileStage) :
    (state.withStage stage).file = state.file := rfl

@[simp] theorem withStage_chunkTasks (state : FileState) (stage : FileStage) :
    (state.withStage stage).chunkTasks = state.chunkTasks := rfl

@[simp] theorem withStage_validChunks (state : FileState) (stage : FileStage) :
    (state.withStage stage).validChunks = state.validChunks := rfl

@[simp] theorem fail_stage (state : FileState) (error : DownloadError) :
    (state.fail error).stage = .done (.error error) := rfl

@[simp] theorem fail_file (state : FileState) (error : DownloadError) :
    (state.fail error).file = state.file := rfl

@[simp] theorem fail_chunkTasks (state : FileState) (error : DownloadError) :
    (state.fail error).chunkTasks = state.chunkTasks := rfl

@[simp] theorem fail_validChunks (state : FileState) (error : DownloadError) :
    (state.fail error).validChunks = state.validChunks := rfl

/-- The task at a position in its next stage. -/
def advance (state : FileState) (position : Nat) (chunkTask : ChunkTask) (stage : ChunkStage) :
    FileState :=
  { state with chunkTasks := state.chunkTasks.set position { chunkTask with stage := stage } }

end FileState

namespace FileContext

variable (ctx : FileContext)

/-- The staging file as its check sees it: without its metadata it is not there. -/
def seenStaging (staging : Option Bytes) : Option Bytes :=
  if ctx.silent.staging.metadata then none else staging

/-- The identifiers of the chunks that the check of the staging file finds valid. -/
def seenValid (data : Bytes) : List ChunkId :=
  validChunkIds data ctx.task.chunks ctx.silent.staging

/-- A chunk that the copy loop takes from the previous version of the file. -/
structure CopyPlan (oldData : Bytes) (index : Nat) (chunk : ManifestChunk) (offset : Nat)
    (buffer : Bytes) : Prop where
  placed : chunk.offset = some offset
  source : ∃ chunkId old oldOffset size, chunk.id = some chunkId ∧
    ctx.oldMatch chunkId = some old ∧ old.offset = some oldOffset ∧
    chunk.uncompressedSize = some size ∧ ctx.readOld oldData index oldOffset size = some buffer

/-- Why the file task returns an error without touching the disk. -/
def Fails (world : World) (state : FileState) (fault : Option Nat) : Prop :=
  fault.isSome ∨
  (state.stage = .openStaging true ∧ world.disk.link ctx.stagingPlace = none) ∨
  (∃ chunkTask error, chunkTask ∈ state.chunkTasks ∧ chunkTask.stage = .done (.error error)) ∨
  (state.stage = .rename ∧ world.disk.rename ctx.stagingPlace ctx.finalPlace = none)

/-- What a move of the file task itself can do. -/
inductive MainStep (world : World) (state : FileState) (fault : Option Nat) :
    World → FileState → Prop
  | stagingDir {parent : Path} (hstage : state.stage = .createStagingDir)
      (hparent : ctx.stagingPath.parent = some parent) :
      MainStep world state fault (world.emit (.createDirAll parent))
        (state.withStage .createFinalDir)
  | noStagingDir (hstage : state.stage = .createStagingDir)
      (hparent : ctx.stagingPath.parent = none) :
      MainStep world state fault world (state.withStage .createFinalDir)
  | finalDir {parent : Path} (hstage : state.stage = .createFinalDir)
      (hparent : ctx.task.path.parent = some parent) :
      MainStep world state fault (world.emit (.createDirAll parent)) (state.withStage .checkFinal)
  | noFinalDir (hstage : state.stage = .createFinalDir) (hparent : ctx.task.path.parent = none) :
      MainStep world state fault world (state.withStage .checkFinal)
  | finalValid (hstage : state.stage = .checkFinal)
      (hvalid : fileHasValidChunks world.disk ctx.finalPlace ctx.task.size ctx.task.chunks
        ctx.silent.final = true) :
      MainStep world state fault world (state.withStage (.done (.ok ())))
  | finalInvalid (hstage : state.stage = .checkFinal)
      (hinvalid : fileHasValidChunks world.disk ctx.finalPlace ctx.task.size ctx.task.chunks
        ctx.silent.final = false) :
      MainStep world state fault world (state.withStage .checkStaging)
  | stagingComplete {data : Bytes} (hstage : state.stage = .checkStaging)
      (hread : ctx.seenStaging (world.disk.read ctx.stagingPlace) = some data)
      (hsize : ctx.task.size = some data.length)
      (hall : (ctx.seenValid data).length = ctx.task.chunks.length) :
      MainStep world state fault world
        { state with stage := .rename, validChunks := ctx.seenValid data }
  | stagingPartial {data : Bytes} (hstage : state.stage = .checkStaging)
      (hread : ctx.seenStaging (world.disk.read ctx.stagingPlace) = some data)
      (hsize : ctx.task.size = some data.length)
      (hpart : (ctx.seenValid data).length ≠ ctx.task.chunks.length) :
      MainStep world state fault world
        { state with stage := .openStaging true, validChunks := ctx.seenValid data }
  | stagingMissing (hstage : state.stage = .checkStaging)
      (hmissing : ∀ data, ctx.seenStaging (world.disk.read ctx.stagingPlace) = some data →
        ctx.task.size ≠ some data.length) :
      MainStep world state fault world (state.withStage (.openStaging false))
  | resumed {ino : Nat} (hstage : state.stage = .openStaging true)
      (hlink : world.disk.link ctx.stagingPlace = some ino) :
      MainStep world state fault (world.emit (.openExisting ctx.stagingPath))
        { state with stage := .openOld, file := some ⟨ino, 0, none⟩ }
  | created (hstage : state.stage = .openStaging false) :
      MainStep world state fault
        ((world.withDisk (world.disk.openTruncate ctx.stagingPlace).1).emit
          (.createTruncate ctx.stagingPath))
        { state with
          stage := .setLen
          file := some ⟨(world.disk.openTruncate ctx.stagingPlace).2, 0, none⟩ }
  | sized {size : Nat} {file : SharedFile} (hstage : state.stage = .setLen)
      (hsize : ctx.task.size = some size) (hfile : state.file = some file) :
      MainStep world state fault
        (world.withDisk (world.disk.store file.ino
          (Bytes.resize (world.disk.data file.ino) size)))
        (state.withStage .openOld)
  | unsized (hstage : state.stage = .setLen) (hsize : ctx.task.size = none) :
      MainStep world state fault world (state.withStage .openOld)
  | oldOpened {oldIno : Nat} (hstage : state.stage = .openOld)
      (hold : ctx.task.oldChunks.isSome) (hlink : world.disk.link ctx.finalPlace = some oldIno)
      (hpresent : ctx.silent.oldPresent = false) :
      MainStep world state fault world (state.withStage (.copyChunks oldIno 0))
  | oldMissing (hstage : state.stage = .openOld)
      (hnone : ctx.task.oldChunks = none ∨ world.disk.link ctx.finalPlace = none ∨
        ctx.silent.oldPresent = true) :
      MainStep world state fault world (state.withStage (.spawnChunks 0))
  | copied {oldIno index offset : Nat} {chunk : ManifestChunk} {file : SharedFile}
      {buffer : Bytes} (hstage : state.stage = .copyChunks oldIno index)
      (hchunk : ctx.task.chunks[index]? = some chunk) (hfile : state.file = some file)
      (hplan : ctx.CopyPlan (world.disk.data oldIno) index chunk offset buffer) :
      MainStep world state fault (writeChunk world file offset buffer).1
        { state with
          stage := .copyChunks oldIno (index + 1)
          file := some (writeChunk world file offset buffer).2 }
  | copyFault {oldIno index offset count : Nat} {chunk : ManifestChunk} {file : SharedFile}
      {buffer : Bytes} (hstage : state.stage = .copyChunks oldIno index)
      (hchunk : ctx.task.chunks[index]? = some chunk) (hfile : state.file = some file)
      (hplan : ctx.CopyPlan (world.disk.data oldIno) index chunk offset buffer)
      (hfault : fault = some count) :
      MainStep world state fault (writeChunk world file offset (buffer.take count)).1
        { state with
          stage := .done (.error .io)
          file := some (writeChunk world file offset (buffer.take count)).2 }
  | notCopied {oldIno index : Nat} {chunk : ManifestChunk}
      (hstage : state.stage = .copyChunks oldIno index)
      (hchunk : ctx.task.chunks[index]? = some chunk)
      (hnone : ∀ offset buffer, ¬ ctx.CopyPlan (world.disk.data oldIno) index chunk offset buffer) :
      MainStep world state fault world (state.withStage (.copyChunks oldIno (index + 1)))
  | copyDone {oldIno index : Nat} (hstage : state.stage = .copyChunks oldIno index)
      (hend : ctx.task.chunks[index]? = none) :
      MainStep world state fault world (state.withStage (.spawnChunks 0))
  | chunkSkipped {index : Nat} {chunk : ManifestChunk} (hstage : state.stage = .spawnChunks index)
      (hchunk : ctx.task.chunks[index]? = some chunk)
      (hskip : ∀ chunkId, chunk.id = some chunkId →
        ctx.skipsChunk world.disk state index chunkId = true) :
      MainStep world state fault world (state.withStage (.spawnChunks (index + 1)))
  | chunkSpawned {index : Nat} {chunk : ManifestChunk} {chunkId : ChunkId}
      (hstage : state.stage = .spawnChunks index)
      (hchunk : ctx.task.chunks[index]? = some chunk) (hid : chunk.id = some chunkId)
      (hnoskip : ctx.skipsChunk world.disk state index chunkId = false) :
      MainStep world state fault world
        { state with
          stage := .spawnChunks (index + 1)
          chunkTasks := state.chunkTasks ++ [⟨index, chunk, chunkId, .fetch 0⟩] }
  | spawnDone {index : Nat} (hstage : state.stage = .spawnChunks index)
      (hend : ctx.task.chunks[index]? = none) :
      MainStep world state fault world (state.withStage (.awaitChunks 0))
  | awaited {position : Nat} {chunkTask : ChunkTask}
      (hstage : state.stage = .awaitChunks position)
      (htask : state.chunkTasks[position]? = some chunkTask)
      (hdone : chunkTask.stage = .done (.ok ())) :
      MainStep world state fault world (state.withStage (.awaitChunks (position + 1)))
  | awaitDone {position : Nat} (hstage : state.stage = .awaitChunks position)
      (hend : state.chunkTasks[position]? = none) :
      MainStep world state fault world (state.withStage .rename)
  | renamed {disk : Disk} (hstage : state.stage = .rename)
      (hrename : world.disk.rename ctx.stagingPlace ctx.finalPlace = some disk) :
      MainStep world state fault
        ((world.withDisk disk).emit (.rename ctx.stagingPath ctx.task.path))
        (state.withStage (.done (.ok ())))
  | failed {error : DownloadError} (hstage : state.stage.phase ≤ 10)
      (hcause : ctx.Fails world state fault) :
      MainStep world state fault world (state.fail error)

/-- What a move of the chunk task at a position can do. -/
inductive ChunkStep (world : World) (state : FileState) (position : Nat) (fault : Option Nat) :
    World → FileState → Prop
  | fetch {chunkTask : ChunkTask} {attempt : Nat}
      (htask : state.chunkTasks[position]? = some chunkTask)
      (hstage : chunkTask.stage = .fetch attempt)
      (hattempt : attempt < ctx.job.retry.maxAttempts) :
      ChunkStep world state position fault
        (world.emit (.fetchChunk (ctx.fetchCall chunkTask attempt)))
        (state.advance position chunkTask (ctx.fetched chunkTask attempt))
  | accepted {chunkTask : ChunkTask} {raw data : Bytes} {offset : Nat}
      (htask : state.chunkTasks[position]? = some chunkTask)
      (hstage : chunkTask.stage = .process raw)
      (hprocessed : ctx.processed chunkTask.chunk raw = .ok data)
      (hoffset : chunkTask.chunk.offset = some offset) :
      ChunkStep world state position fault world
        (state.advance position chunkTask (.lock offset data))
  | unplaced {chunkTask : ChunkTask} {raw data : Bytes}
      (htask : state.chunkTasks[position]? = some chunkTask)
      (hstage : chunkTask.stage = .process raw)
      (hprocessed : ctx.processed chunkTask.chunk raw = .ok data)
      (hoffset : chunkTask.chunk.offset = none) :
      ChunkStep world state position fault
        (world.emit (.send (.chunkCompleted chunkTask.chunkId data.length)))
        (state.advance position chunkTask (.done (.ok ())))
  | locked {chunkTask : ChunkTask} {file : SharedFile} {offset : Nat} {data : Bytes}
      (htask : state.chunkTasks[position]? = some chunkTask) (hfile : state.file = some file)
      (hstage : chunkTask.stage = .lock offset data) (hfree : file.holder = none) :
      ChunkStep world state position fault world
        { state.advance position chunkTask (.seek offset data) with
          file := some { file with holder := some position } }
  | sought {chunkTask : ChunkTask} {file : SharedFile} {offset : Nat} {data : Bytes}
      (htask : state.chunkTasks[position]? = some chunkTask) (hfile : state.file = some file)
      (hstage : chunkTask.stage = .seek offset data) :
      ChunkStep world state position fault world
        { state.advance position chunkTask (.write data) with
          file := some { file with cursor := offset } }
  | seekFault {chunkTask : ChunkTask} {file : SharedFile} {offset : Nat} {data : Bytes}
      (htask : state.chunkTasks[position]? = some chunkTask) (hfile : state.file = some file)
      (hstage : chunkTask.stage = .seek offset data) (hfault : fault.isSome) :
      ChunkStep world state position fault world
        { state.advance position chunkTask (.done (.error .io)) with
          file := some { file with holder := none } }
  | wrote {chunkTask : ChunkTask} {file : SharedFile} {data : Bytes}
      (htask : state.chunkTasks[position]? = some chunkTask) (hfile : state.file = some file)
      (hstage : chunkTask.stage = .write data) :
      ChunkStep world state position fault
        ((writeChunk world file file.cursor data).1.emit
          (.send (.chunkCompleted chunkTask.chunkId data.length)))
        { state.advance position chunkTask (.done (.ok ())) with
          file := some { (writeChunk world file file.cursor data).2 with holder := none } }
  | writeFault {chunkTask : ChunkTask} {file : SharedFile} {data : Bytes} {count : Nat}
      (htask : state.chunkTasks[position]? = some chunkTask) (hfile : state.file = some file)
      (hstage : chunkTask.stage = .write data) (hfault : fault = some count) :
      ChunkStep world state position fault (writeChunk world file file.cursor (data.take count)).1
        { state.advance position chunkTask (.done (.error .io)) with
          file := some
            { (writeChunk world file file.cursor (data.take count)).2 with holder := none } }
  | noAttempt {chunkTask : ChunkTask} {attempt : Nat}
      (htask : state.chunkTasks[position]? = some chunkTask)
      (hstage : chunkTask.stage = .fetch attempt)
      (hattempt : ctx.job.retry.maxAttempts ≤ attempt) :
      ChunkStep world state position fault world
        (state.advance position chunkTask (.done (.error .panic)))
  | rejected {chunkTask : ChunkTask} {raw : Bytes} {error : DownloadError}
      (htask : state.chunkTasks[position]? = some chunkTask)
      (hstage : chunkTask.stage = .process raw)
      (hprocessed : ctx.processed chunkTask.chunk raw = .error error) :
      ChunkStep world state position fault world
        (state.advance position chunkTask (.done (.error error)))

variable {ctx} {world world' : World} {state state' : FileState} {fault : Option Nat}

@[simp] theorem seenStaging_none : ctx.seenStaging none = none := by
  simp [seenStaging]

theorem seenStaging_eq_some {staging : Option Bytes} {data : Bytes} :
    ctx.seenStaging staging = some data ↔
      ctx.silent.staging.metadata = false ∧ staging = some data := by
  unfold seenStaging
  split
  next hfails => simp [hfails]
  next hreads => simp [hreads]

/-- The check of the staging file's size looks at the file that it sees. -/
theorem stagingSize_iff {disk : Disk} :
    fileHasCorrectSize disk ctx.stagingPlace ctx.task.size ctx.silent.staging = true ↔
      ∃ data, ctx.seenStaging (disk.read ctx.stagingPlace) = some data ∧
        ctx.task.size = some data.length := by
  simp only [fileHasCorrectSize_iff, seenStaging_eq_some, and_assoc, exists_and_left]

theorem readOld_eq_some {oldData buffer : Bytes} {index oldOffset size : Nat} :
    ctx.readOld oldData index oldOffset size = some buffer ↔
      ctx.silent.oldChunk index = false ∧ Bytes.readAt oldData oldOffset size = some buffer := by
  unfold readOld
  split
  next hfails => simp [hfails]
  next hreads => simp [hreads]

theorem CopyPlan.length {oldData buffer : Bytes} {index offset : Nat} {chunk : ManifestChunk}
    (hplan : ctx.CopyPlan oldData index chunk offset buffer) :
    chunk.uncompressedSize = some buffer.length := by
  obtain ⟨_, _, _, size, _, _, _, hsize, hread⟩ := hplan.source
  rw [hsize, Bytes.length_of_readAt (readOld_eq_some.mp hread).2]

theorem openStaging_cases {resuming : Bool} (hstage : state.stage = .openStaging resuming)
    (hstep : ctx.openStaging world state resuming = (world', state')) :
    ctx.MainStep world state fault world' state' := by
  unfold openStaging at hstep
  split at hstep
  next hresuming =>
    subst hresuming
    split at hstep <;> cases hstep
    next hlink => exact .failed (by simp [hstage]) (.inr (.inl ⟨hstage, hlink⟩))
    next ino hlink => exact .resumed hstage hlink
  next hresuming =>
    rw [Bool.not_eq_true] at hresuming
    subst hresuming
    cases hstep
    exact .created hstage

theorem copyChunk_cases {file : SharedFile} {oldIno index : Nat} {chunk : ManifestChunk}
    (hstage : state.stage = .copyChunks oldIno index)
    (hchunk : ctx.task.chunks[index]? = some chunk) (hfile : state.file = some file)
    (hstep : ctx.copyChunk world state file oldIno index chunk fault = (world', state')) :
    ctx.MainStep world state fault world' state' := by
  unfold copyChunk at hstep
  split at hstep
  next hmatch =>
    cases hstep
    refine .notCopied hstage hchunk fun offset buffer hplan => ?_
    obtain ⟨chunkId, old, _, _, hid, hold, _⟩ := hplan.source
    simp [hid, hold] at hmatch
  next old hmatch =>
    obtain ⟨chunkId, hid, hold⟩ := Option.bind_eq_some_iff.mp hmatch
    have hunique : ∀ offset buffer,
        ctx.CopyPlan (world.disk.data oldIno) index chunk offset buffer →
        ∃ oldOffset size, old.offset = some oldOffset ∧ chunk.offset = some offset ∧
          chunk.uncompressedSize = some size ∧
          ctx.readOld (world.disk.data oldIno) index oldOffset size = some buffer := by
      intro offset buffer hplan
      obtain ⟨chunkId', old', oldOffset, size, hid', hold', hoffset, hsize, hread⟩ := hplan.source
      rw [hid, Option.some.injEq] at hid'
      rw [← hid', hold, Option.some.injEq] at hold'
      exact ⟨oldOffset, size, hold' ▸ hoffset, hplan.placed, hsize, hread⟩
    split at hstep
    next oldOffset newOffset size hoffset hplaced hsize =>
      split at hstep <;> cases hstep
      next hread =>
        refine .notCopied hstage hchunk fun offset buffer hplan => ?_
        obtain ⟨_, _, hoffset', _, hsize', hread'⟩ := hunique offset buffer hplan
        rw [hoffset, Option.some.injEq] at hoffset'
        rw [hsize, Option.some.injEq] at hsize'
        rw [← hoffset', ← hsize', hread] at hread'
        cases hread'
      next hread => exact .failed (by simp [hstage]) (.inl rfl)
      next buffer hread =>
        exact .copied hstage hchunk hfile
          ⟨hplaced, chunkId, old, oldOffset, size, hid, hold, hoffset, hsize, hread⟩
      next buffer count hread =>
        exact .copyFault hstage hchunk hfile
          ⟨hplaced, chunkId, old, oldOffset, size, hid, hold, hoffset, hsize, hread⟩ rfl
    next hmissing =>
      cases hstep
      refine .notCopied hstage hchunk fun offset buffer hplan => ?_
      obtain ⟨oldOffset, size, hoffset, hplaced, hsize, _⟩ := hunique offset buffer hplan
      exact hmissing oldOffset offset size hoffset hplaced hsize

theorem spawnChunk_cases {index : Nat} {chunk : ManifestChunk}
    (hstage : state.stage = .spawnChunks index) (hchunk : ctx.task.chunks[index]? = some chunk) :
    ctx.MainStep world state fault world (ctx.spawnChunk world state index chunk) := by
  unfold spawnChunk
  split
  next hid => exact .chunkSkipped hstage hchunk fun chunkId hsome => by simp [hid] at hsome
  next chunkId hid =>
    split
    next hskip =>
      refine .chunkSkipped hstage hchunk fun other hother => ?_
      rw [hid, Option.some.injEq] at hother
      exact hother ▸ hskip
    next hskip => exact .chunkSpawned hstage hchunk hid (Bool.not_eq_true _ ▸ hskip)

/-- Every move of the file task is one of the listed steps. -/
theorem mainStep_cases
    (hstep : ctx.mainStep world state fault = some (world', state')) :
    ctx.MainStep world state fault world' state' := by
  have hfailed (hfault : fault.isSome = true) (hphase : state.stage.phase ≤ 10)
      (heq : (world, state.fail .io) = (world', state')) :
      ctx.MainStep world state fault world' state' := by
    cases heq
    exact .failed hphase (.inl hfault)
  unfold mainStep at hstep
  cases hstage : state.stage with
  | createStagingDir =>
      simp only [hstage] at hstep
      split at hstep
      next hparent => cases hstep; exact .noStagingDir hstage hparent
      next parent hparent =>
        split at hstep <;> rw [Option.some.injEq] at hstep
        next hfault => exact hfailed hfault (by simp [hstage]) hstep
        next => cases hstep; exact .stagingDir hstage hparent
  | createFinalDir =>
      simp only [hstage] at hstep
      split at hstep
      next hparent => cases hstep; exact .noFinalDir hstage hparent
      next parent hparent =>
        split at hstep <;> rw [Option.some.injEq] at hstep
        next hfault => exact hfailed hfault (by simp [hstage]) hstep
        next => cases hstep; exact .finalDir hstage hparent
  | checkFinal =>
      simp only [hstage] at hstep
      split at hstep
      next hfault =>
        rw [Option.some.injEq] at hstep
        exact hfailed (Bool.and_eq_true_iff.mp hfault).2 (by simp [hstage]) hstep
      next =>
        split at hstep <;> cases hstep
        next hvalid => exact .finalValid hstage hvalid
        next hvalid => exact .finalInvalid hstage (Bool.not_eq_true _ ▸ hvalid)
  | checkStaging =>
      simp only [hstage] at hstep
      split at hstep
      next hsize =>
        obtain ⟨data, hseen, hlength⟩ := stagingSize_iff.mp hsize
        simp only [(seenStaging_eq_some.mp hseen).2, Option.getD_some] at hstep
        split at hstep
        next hfault =>
          rw [Option.some.injEq] at hstep
          exact hfailed hfault (by simp [hstage]) hstep
        next =>
          split at hstep <;> cases hstep
          next hall => exact .stagingComplete hstage hseen hlength hall
          next hpart => exact .stagingPartial hstage hseen hlength hpart
      next hsize =>
        cases hstep
        refine .stagingMissing hstage fun data hseen hlength => hsize ?_
        exact stagingSize_iff.mpr ⟨data, hseen, hlength⟩
  | openStaging resuming =>
      simp only [hstage] at hstep
      split at hstep <;> rw [Option.some.injEq] at hstep
      next hfault => exact hfailed hfault (by simp [hstage]) hstep
      next => exact openStaging_cases hstage hstep
  | setLen =>
      simp only [hstage] at hstep
      split at hstep
      next size file hsize hfile =>
        split at hstep <;> rw [Option.some.injEq] at hstep
        next hfault => exact hfailed hfault (by simp [hstage]) hstep
        next => cases hstep; exact .sized hstage hsize hfile
      next hsize _ => cases hstep; exact .unsized hstage hsize
      next => cases hstep
  | openOld =>
      simp only [hstage] at hstep
      split at hstep
      next old oldIno hold hlink =>
        split at hstep
        next hsilent => cases hstep; exact .oldMissing hstage (.inr (.inr hsilent))
        next hsilent =>
          split at hstep <;> rw [Option.some.injEq] at hstep
          next hfault => exact hfailed hfault (by simp [hstage]) hstep
          next =>
            cases hstep
            exact .oldOpened hstage (by simp [hold]) hlink (Bool.not_eq_true _ ▸ hsilent)
      next hmissing =>
        cases hstep
        refine .oldMissing hstage ?_
        cases hold : ctx.task.oldChunks with
        | none => exact .inl rfl
        | some old =>
            cases hlink : world.disk.link ctx.finalPlace with
            | none => exact .inr (.inl rfl)
            | some oldIno => exact (hmissing old oldIno hold hlink).elim
  | copyChunks oldIno index =>
      simp only [hstage] at hstep
      split at hstep
      next hend => cases hstep; exact .copyDone hstage hend
      next chunk file hchunk hfile =>
        rw [Option.some.injEq] at hstep
        exact copyChunk_cases hstage hchunk hfile hstep
      next => cases hstep
  | spawnChunks index =>
      simp only [hstage] at hstep
      split at hstep <;> cases hstep
      next hend => exact .spawnDone hstage hend
      next chunk hchunk => exact spawnChunk_cases hstage hchunk
  | awaitChunks position =>
      simp only [hstage] at hstep
      split at hstep
      next hend => cases hstep; exact .awaitDone hstage hend
      next chunkTask htask =>
        split at hstep
        next hdone => cases hstep; exact .awaited hstage htask hdone
        next error hdone =>
          cases hstep
          exact .failed (by simp [hstage])
            (.inr (.inr (.inl ⟨chunkTask, error, List.mem_of_getElem? htask, hdone⟩)))
        next => cases hstep
  | rename =>
      simp only [hstage] at hstep
      split at hstep
      next disk hrename =>
        split at hstep <;> rw [Option.some.injEq] at hstep
        next hfault => exact hfailed hfault (by simp [hstage]) hstep
        next => cases hstep; exact .renamed hstage hrename
      next hrename =>
        cases hstep
        exact .failed (by simp [hstage]) (.inr (.inr (.inr ⟨hstage, hrename⟩)))
  | done outcome =>
      simp only [hstage] at hstep
      cases hstep

/-- Every move of a chunk task is one of the listed steps. -/
theorem chunkStep_cases {position : Nat}
    (hstep : ctx.chunkStep world state position fault = some (world', state')) :
    ctx.ChunkStep world state position fault world' state' := by
  unfold chunkStep at hstep
  split at hstep
  next chunkTask file htask hfile =>
    cases hstage : chunkTask.stage with
    | fetch attempt =>
        simp only [hstage] at hstep
        split at hstep <;> cases hstep
        next hattempt => exact .fetch htask hstage hattempt
        next hattempt => exact .noAttempt htask hstage (Nat.le_of_not_lt hattempt)
    | process raw =>
        simp only [hstage] at hstep
        split at hstep <;> cases hstep
        next error hprocessed => exact .rejected htask hstage hprocessed
        next data offset hprocessed hoffset => exact .accepted htask hstage hprocessed hoffset
        next data hprocessed hoffset => exact .unplaced htask hstage hprocessed hoffset
    | lock offset data =>
        simp only [hstage] at hstep
        split at hstep <;> cases hstep
        next hfree => exact .locked htask hfile hstage hfree
    | seek offset data =>
        simp only [hstage] at hstep
        split at hstep <;> cases hstep
        next hfault => exact .seekFault htask hfile hstage hfault
        next => exact .sought htask hfile hstage
    | write data =>
        simp only [hstage] at hstep
        split at hstep <;> cases hstep
        next count => exact .writeFault htask hfile hstage rfl
        next => exact .wrote htask hfile hstage
    | done outcome =>
        simp only [hstage] at hstep
        cases hstep
  next => cases hstep

theorem step_cases {move : FileMove}
    (hstep : ctx.step (world, state) move = some (world', state')) :
    ctx.MainStep world state move.fault world' state' ∨
      ∃ position, ctx.ChunkStep world state position move.fault world' state' := by
  unfold step at hstep
  split at hstep
  · exact .inl (mainStep_cases hstep)
  · exact .inr ⟨_, chunkStep_cases hstep⟩

end FileContext

end DepotDownloader.SteamClient
