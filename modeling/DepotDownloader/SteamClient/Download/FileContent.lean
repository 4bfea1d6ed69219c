import DepotDownloader.SteamClient.Download.Assembly
import DepotDownloader.SteamClient.Download.FileShape

/-! # The content of a file task

The staging file of a file task holds acceptable bytes for every chunk that the
task counts on, and at its end every chunk is one of these. The invariant says
so for any notion of acceptable bytes that the sources of the task respect: the
staging file it resumes, the previous version it copies from, and the answers
of the fetcher.
-/

namespace DepotDownloader.SteamClient

open Foundation Foundation.LexPath Steam

namespace FileStage

/-- The copy loop is past the chunk at an index. -/
def copied : FileStage → Nat → Prop
  | .copyChunks _ next, index => index < next
  | stage, _ => 8 ≤ stage.phase

/-- The loop that spawns the chunk tasks is past the chunk at an index. -/
def spawned : FileStage → Nat → Prop
  | .spawnChunks next, index => index < next
  | stage, _ => 9 ≤ stage.phase

attribute [simp] copied spawned

theorem copied_of_phase {stage : FileStage} (hphase : 8 ≤ stage.phase) (index : Nat) :
    stage.copied index := by
  cases stage <;> simp_all

end FileStage

namespace FileState

/-- No chunk task has failed. -/
def Healthy (state : FileState) : Prop :=
  ∀ chunkTask ∈ state.chunkTasks, ∀ error, chunkTask.stage ≠ .done (.error error)

variable {state : FileState} {position : Nat} {chunkTask other : ChunkTask} {stage : ChunkStage}

theorem mem_advance (hmem : other ∈ (state.advance position chunkTask stage).chunkTasks) :
    other = { chunkTask with stage := stage } ∨ other ∈ state.chunkTasks :=
  (List.mem_or_eq_of_mem_set hmem).symm

theorem mem_advance_self (htask : state.chunkTasks[position]? = some chunkTask) :
    { chunkTask with stage := stage } ∈ (state.advance position chunkTask stage).chunkTasks :=
  List.mem_set (List.getElem?_eq_some_iff.mp htask).1 _

theorem mem_advance_of_ne (htask : state.chunkTasks[position]? = some chunkTask)
    (hmem : other ∈ state.chunkTasks) (hne : other ≠ chunkTask) :
    other ∈ (state.advance position chunkTask stage).chunkTasks := by
  obtain ⟨place, hget⟩ := List.mem_iff_getElem?.mp hmem
  refine List.mem_of_getElem? (i := place) ?_
  rw [advance, List.getElem?_set_ne, hget]
  rintro rfl
  rw [htask, Option.some.injEq] at hget
  exact hne hget.symm

theorem Healthy.of_advance (htask : state.chunkTasks[position]? = some chunkTask)
    (hpending : ∀ outcome, chunkTask.stage ≠ .done outcome)
    (hhealthy : (state.advance position chunkTask stage).Healthy) : state.Healthy := by
  intro other hmem error herror
  refine hhealthy other (mem_advance_of_ne htask hmem ?_) error herror
  rintro rfl
  exact hpending _ herror

end FileState

namespace FileContext

variable (ctx : FileContext)

/-- The fetcher failed on every earlier attempt and gave the raw data on this
one. -/
structure Answered (chunkTask : ChunkTask) (attempt : Nat) (raw : Bytes) : Prop where
  failed : ∀ earlier < attempt, ∃ text, ctx.fetcher (ctx.fetchCall chunkTask earlier) = .error text
  answer : ctx.fetcher (ctx.fetchCall chunkTask attempt) = .ok raw

/-- Every source of a file's bytes gives bytes that are acceptable. -/
structure Sound (spec : Assembly) : Prop where
  layout : Layout ctx.task.size ctx.task.chunks spec.length
  apart : ctx.stagingPlace ≠ ctx.finalPlace ∨ ctx.task.oldChunks = none
  resumed : ∀ data, spec.staging = some data → data.length = spec.length →
    ∀ index chunk chunkId, ctx.task.chunks[index]? = some chunk → chunk.id = some chunkId →
      chunkId ∈ ctx.seenValid data → spec.Placed data index chunk
  copyable : ∀ oldData, spec.final = some oldData → ∀ index chunk chunkId,
    ctx.task.chunks[index]? = some chunk → chunk.id = some chunkId →
      (ctx.oldMatch chunkId).isSome → ctx.silent.oldPresent = false ∧
        ∃ offset buffer, ctx.CopyPlan oldData index chunk offset buffer
  copied : ∀ oldData, spec.final = some oldData → ∀ index chunk offset buffer,
    ctx.task.chunks[index]? = some chunk → ctx.CopyPlan oldData index chunk offset buffer →
      spec.good index buffer
  processed : ∀ chunkTask attempt raw data, ctx.TaskShape chunkTask →
    ctx.Answered chunkTask attempt raw → ctx.processed chunkTask.chunk raw = .ok data →
      spec.good chunkTask.index data

/-- What a chunk task carries with it is acceptable. -/
def TaskGood (spec : Assembly) (chunkTask : ChunkTask) : Prop :=
  match chunkTask.stage with
  | .fetch attempt =>
      ∀ earlier < attempt, ∃ text, ctx.fetcher (ctx.fetchCall chunkTask earlier) = .error text
  | .process raw => ∃ attempt, ctx.Answered chunkTask attempt raw
  | .lock _ data | .seek _ data | .write data =>
      spec.good chunkTask.index data ∧ chunkTask.chunk.uncompressedSize = some data.length
  | .done _ => True

/-- The task counts on the chunk being in the staging file: it was found valid
there, a chunk task has written it, or the copy loop has. -/
def Settled (spec : Assembly) (state : FileState) (index : Nat) (chunk : ManifestChunk) : Prop :=
  (∃ chunkId ∈ state.validChunks, chunk.id = some chunkId) ∨
  (∃ chunkTask ∈ state.chunkTasks, chunkTask.index = index ∧ chunkTask.stage = .done (.ok ())) ∨
  (spec.final.isSome ∧ state.stage.copied index ∧
    ∃ chunkId, chunk.id = some chunkId ∧ (ctx.oldMatch chunkId).isSome)

/-- The final file of a download that has succeeded: it was valid already, or
every chunk of it is in place. -/
def Complete (spec : Assembly) (data : Bytes) : Prop :=
  (spec.final = some data ∧ data.length = spec.length ∧
    ∀ chunk ∈ ctx.task.chunks, chunkValid data chunk = true) ∨
  spec.Assembled ctx.task.chunks (fun _ _ => True) data

structure FileContent (spec : Assembly) (disk : Disk) (state : FileState) : Prop where
  final : state.stage ≠ .done (.ok ()) →
    ctx.stagingPlace ≠ ctx.finalPlace ∨ state.stage.phase ≤ 4 →
      disk.read ctx.finalPlace = spec.final
  staging : state.stage.phase ≤ 4 → ctx.seenStaging (disk.read ctx.stagingPlace) = spec.staging
  fresh : state.stage.phase ≤ 3 ∨ state.stage = .openStaging false ∨ state.stage = .setLen →
    state.validChunks = []
  zero : state.stage = .openStaging false ∨ state.stage = .setLen →
    spec.background = Bytes.resize [] spec.length
  blank : state.stage = .setLen → disk.read ctx.stagingPlace = some []
  resumed : state.stage = .openStaging true → spec.staging = some spec.background ∧
    state.validChunks = ctx.seenValid spec.background
  tasks : ∀ chunkTask ∈ state.chunkTasks, ctx.TaskGood spec chunkTask
  assembled : 6 ≤ state.stage.phase → state.stage.phase ≤ 10 → state.Healthy →
    ∃ data, disk.read ctx.stagingPlace = some data ∧
      spec.Assembled ctx.task.chunks (ctx.Settled spec state) data
  covered : state.stage.phase ≤ 10 → ∀ index chunk, ctx.task.chunks[index]? = some chunk →
    state.stage.spawned index →
      ctx.Settled spec state index chunk ∨ ∃ chunkTask ∈ state.chunkTasks, chunkTask.index = index
  result : state.stage = .done (.ok ()) →
    ∃ data, disk.read ctx.finalPlace = some data ∧ ctx.Complete spec data

variable {ctx} {spec : Assembly} {disk disk' : Disk} {world world' : World}
  {state state' : FileState} {fault : Option Nat}

/-- The file task spawns at most one chunk task in a move. -/
theorem MainStep.chunkTasks
    (hstep : ctx.MainStep world state fault world' state') :
    state'.chunkTasks = state.chunkTasks ∨ ∃ spawned : ChunkTask, spawned.stage = .fetch 0 ∧
      state'.chunkTasks = state.chunkTasks ++ [spawned] := by
  cases hstep with
  | chunkSpawned => exact .inr ⟨_, rfl, rfl⟩
  | _ => exact .inl rfl

theorem MainStep.healthy
    (hstep : ctx.MainStep world state fault world' state') (hhealthy : state.Healthy) :
    state'.Healthy := by
  intro chunkTask hmem error
  rcases hstep.chunkTasks with hsame | ⟨spawned, hfetch, hmore⟩
  · exact hhealthy chunkTask (hsame ▸ hmem) error
  · rw [hmore] at hmem
    rcases List.mem_append.mp hmem with hold | hnew
    · exact hhealthy chunkTask hold error
    · rw [List.mem_singleton.mp hnew, hfetch]
      simp

/-- A file task that renames, or has returned Ok, has no failed chunk task. -/
theorem FileShape.healthy_of_complete (hshape : ctx.FileShape disk state)
    (hstage : state.stage = .rename ∨ state.stage = .done (.ok ())) : state.Healthy := by
  intro chunkTask hmem error herror
  rw [hshape.complete hstage chunkTask hmem] at herror
  cases herror

/-- Without faults and with all chunk tasks healthy the file task cannot fail: it
resumes nothing that is missing and renames what is there. -/
theorem MainStep.unfailed (hstep : ctx.MainStep world state none world' state')
    (hhealthy : state.Healthy) (hfresh : state.stage ≠ .openStaging true)
    (hstaged : state.stage = .rename → ∃ data, world.disk.read ctx.stagingPlace = some data)
    (error : DownloadError) : state'.stage ≠ .done (.error error) := by
  cases hstep with
  | copyFault _ _ _ _ hfault => cases hfault
  | failed _ hcause =>
      exfalso
      rcases hcause with hfault | ⟨hstage, _⟩ | ⟨task, error, hmem, herror⟩ | ⟨hstage, hrename⟩
      · cases hfault
      · exact hfresh hstage
      · exact hhealthy task hmem error herror
      · obtain ⟨data, hread⟩ := hstaged hstage
        obtain ⟨ino, hlink, _⟩ := Option.map_eq_some_iff.mp hread
        have hmoves : ∃ disk, world.disk.rename ctx.stagingPlace ctx.finalPlace = some disk :=
          FileTree.rename_isSome hlink
        simp [hrename] at hmoves
  | _ => simp

/-- What passes the check of a chunk task has the length and the checksum
that its chunk announces. -/
theorem processed_ok {chunk : ManifestChunk} {raw data : Bytes}
    (hprocessed : ctx.processed chunk raw = .ok data) :
    chunk.uncompressedSize = some data.length ∧
      chunk.checksum = some (SteamAdler32.compute data) := by
  unfold processed at hprocessed
  split at hprocessed
  next => cases hprocessed
  next => cases hprocessed
  next size checksum hsize hchecksum =>
    split at hprocessed <;> cases hprocessed
    next hok =>
      obtain ⟨rfl, rfl⟩ := processChunk_ok hok
      exact ⟨hsize, hchecksum⟩

theorem FileContent.initial (hfinal : disk.read ctx.finalPlace = spec.final)
    (hstaging : ctx.seenStaging (disk.read ctx.stagingPlace) = spec.staging) :
    ctx.FileContent spec disk .initial where
  final _ _ := hfinal
  staging _ := hstaging
  fresh _ := rfl
  zero h := by simp [FileState.initial] at h
  blank h := by simp [FileState.initial] at h
  resumed h := by simp [FileState.initial] at h
  tasks := by simp [FileState.initial]
  assembled h := by simp [FileState.initial] at h
  covered _ _ _ _ h := by simp [FileState.initial] at h
  result h := by simp [FileState.initial] at h

/-- Steps of other tasks leave both names of the file alone. -/
theorem FileContent.of_sameAt (hcontent : ctx.FileContent spec disk state)
    (hstaging : FileTree.SameAt ctx.stagingPlace disk disk')
    (hfinal : FileTree.SameAt ctx.finalPlace disk disk') : ctx.FileContent spec disk' state where
  final h hname := hfinal.read_eq.trans (hcontent.final h hname)
  staging h := by
    rw [hstaging.read_eq]
    exact hcontent.staging h
  fresh := hcontent.fresh
  zero := hcontent.zero
  blank h := hstaging.read_eq.trans (hcontent.blank h)
  resumed := hcontent.resumed
  tasks := hcontent.tasks
  assembled hlow hhigh hhealthy := by
    rw [hstaging.read_eq]
    exact hcontent.assembled hlow hhigh hhealthy
  covered := hcontent.covered
  result h := by
    rw [hfinal.read_eq]
    exact hcontent.result h

/-- The file task goes on before it has looked at the staging file. -/
theorem FileContent.early (hcontent : ctx.FileContent spec disk state) {stage : FileStage}
    (hbefore : state.stage.phase ≤ 3) (hafter : stage.phase ≤ 3) :
    ctx.FileContent spec disk (state.withStage stage) where
  final _ _ := hcontent.final (fun h => by simp [h] at hbefore) (.inr (by omega))
  staging _ := hcontent.staging (by omega)
  fresh _ := hcontent.fresh (.inl hbefore)
  zero h := by rcases h with h | h <;> simp_all
  blank h := by simp_all
  resumed h := by simp_all
  tasks := hcontent.tasks
  assembled h := by simp only [FileState.withStage_stage] at h; omega
  covered _ _ _ _ h := by cases stage <;> simp_all
  result h := by simp_all

/-- The file task goes on after the staging file has its length. -/
theorem FileContent.late (hcontent : ctx.FileContent spec disk state) {stage : FileStage}
    (hbefore : 6 ≤ state.stage.phase ∧ state.stage.phase ≤ 10)
    (hafter : 6 ≤ stage.phase ∧ stage.phase ≤ 10)
    (hsettled : ∀ index chunk, ctx.task.chunks[index]? = some chunk →
      ctx.Settled spec (state.withStage stage) index chunk → ctx.Settled spec state index chunk)
    (hcovered : ∀ index chunk, ctx.task.chunks[index]? = some chunk → stage.spawned index →
      ctx.Settled spec (state.withStage stage) index chunk ∨
        ∃ chunkTask ∈ state.chunkTasks, chunkTask.index = index) :
    ctx.FileContent spec disk (state.withStage stage) where
  final _ hname := by
    refine hcontent.final (fun h => by simp [h] at hbefore) (.inl (hname.resolve_right fun h => ?_))
    simp only [FileState.withStage_stage] at h
    omega
  staging h := by simp only [FileState.withStage_stage] at h; omega
  fresh h := by
    rcases h with h | h | h
    · simp only [FileState.withStage_stage] at h; omega
    · simp_all
    · simp_all
  zero h := by rcases h with h | h <;> simp_all
  blank h := by simp_all
  resumed h := by simp_all
  tasks := hcontent.tasks
  assembled _ _ hhealthy := by
    obtain ⟨data, hread, hassembled⟩ := hcontent.assembled hbefore.1 hbefore.2 hhealthy
    exact ⟨data, hread, hassembled.mono hsettled⟩
  covered _ := hcovered
  result h := by simp_all

/-- Nothing is promised of the staging file of a task that has failed. -/
theorem FileContent.failed {error : DownloadError} (hstage : state.stage = .done (.error error))
    (hfinal : ctx.stagingPlace ≠ ctx.finalPlace → disk.read ctx.finalPlace = spec.final)
    (htasks : ∀ chunkTask ∈ state.chunkTasks, ctx.TaskGood spec chunkTask) :
    ctx.FileContent spec disk state where
  final _ hname := hfinal (hname.resolve_right (by simp [hstage]))
  staging h := by simp [hstage] at h
  fresh h := by simp [hstage] at h
  zero h := by simp [hstage] at h
  blank h := by simp [hstage] at h
  resumed h := by simp [hstage] at h
  tasks := htasks
  assembled _ h := by simp [hstage] at h
  covered h := by simp [hstage] at h
  result h := by simp [hstage] at h

section Background

variable {data : Bytes}

theorem background_eq_of_length (hstaging : spec.staging = some data)
    (hlength : data.length = spec.length) : spec.background = data := by
  simp [Assembly.background, hstaging, hlength]

theorem background_eq_zero (hnone : ∀ data, spec.staging = some data → data.length ≠ spec.length) :
    spec.background = Bytes.resize [] spec.length := by
  unfold Assembly.background
  split
  next data hstaging => rw [if_neg (hnone data hstaging)]
  next => rfl

end Background

theorem Sound.apart_of_old (hsound : ctx.Sound spec) (hold : ctx.task.oldChunks.isSome) :
    ctx.stagingPlace ≠ ctx.finalPlace :=
  hsound.apart.resolve_right fun hnone => by simp [hnone] at hold

/-- What counts as valid in the resumed staging file is in place there. -/
theorem Sound.background_placed (hsound : ctx.Sound spec)
    (hstaging : spec.staging = some spec.background) {index : Nat} {chunk : ManifestChunk}
    {chunkId : ChunkId} (hchunk : ctx.task.chunks[index]? = some chunk)
    (hid : chunk.id = some chunkId)
    (hvalid : chunkId ∈ ctx.seenValid spec.background) :
    spec.Placed spec.background index chunk :=
  hsound.resumed _ hstaging Assembly.length_background index chunk chunkId hchunk hid hvalid

/-- A staging file of the right size is what the assembly starts from. -/
theorem FileContent.found_staging (hsound : ctx.Sound spec)
    (hcontent : ctx.FileContent spec disk state) (hstage : state.stage = .checkStaging)
    {data : Bytes} (hseen : ctx.seenStaging (disk.read ctx.stagingPlace) = some data)
    (hsize : ctx.task.size = some data.length) :
    spec.staging = some data ∧ spec.background = data := by
  have hstaging : spec.staging = some data := by
    rw [← hcontent.staging (by simp [hstage]), hseen]
  rw [hsound.layout.size, Option.some.injEq] at hsize
  exact ⟨hstaging, background_eq_of_length hstaging hsize.symm⟩

theorem FileContent.stagingComplete (hsound : ctx.Sound spec)
    (hcontent : ctx.FileContent spec disk state) (hstage : state.stage = .checkStaging)
    {data : Bytes} (hseen : ctx.seenStaging (disk.read ctx.stagingPlace) = some data)
    (hsize : ctx.task.size = some data.length)
    (hall : (ctx.seenValid data).length = ctx.task.chunks.length) :
    ctx.FileContent spec disk
      { state with stage := .rename, validChunks := ctx.seenValid data } := by
  obtain ⟨hstaging, hbackground⟩ := hcontent.found_staging hsound hstage hseen hsize
  rw [← hbackground] at hstaging hseen hall ⊢
  have hread := (seenStaging_eq_some.mp hseen).2
  have hvalid {index : Nat} {chunk : ManifestChunk}
      (hchunk : ctx.task.chunks[index]? = some chunk) :
      ∃ chunkId ∈ ctx.seenValid spec.background, chunk.id = some chunkId := by
    obtain ⟨chunkId, hid⟩ := Option.isSome_iff_exists.mp
      (hsound.layout.complete chunk (List.mem_of_getElem? hchunk)).id
    obtain ⟨hread, hgood⟩ :=
      verifyChunks_eq_nil.mp (verifyChunks_of_validChunkIds_length hall) index chunk hchunk
    exact ⟨chunkId, mem_validChunkIds.mpr ⟨index, chunk, hchunk, hread, hgood, hid⟩, hid⟩
  exact
    { final := fun _ _ => hcontent.final (by simp [hstage]) (.inr (by simp [hstage]))
      staging := fun h => by simp at h
      fresh := fun h => by simp at h
      zero := fun h => by simp at h
      blank := fun h => by cases h
      resumed := fun h => by cases h
      tasks := hcontent.tasks
      assembled := fun _ _ _ => by
        refine ⟨_, hread, Assembly.assembled_background fun index chunk hchunk _ => ?_⟩
        obtain ⟨chunkId, hmem, hid⟩ := hvalid hchunk
        exact hsound.background_placed hstaging hchunk hid hmem
      covered := fun _ index chunk hchunk _ => .inl (.inl (hvalid hchunk))
      result := fun h => by cases h }

theorem FileContent.stagingPartial (hsound : ctx.Sound spec)
    (hcontent : ctx.FileContent spec disk state) (hstage : state.stage = .checkStaging)
    {data : Bytes} (hseen : ctx.seenStaging (disk.read ctx.stagingPlace) = some data)
    (hsize : ctx.task.size = some data.length) :
    ctx.FileContent spec disk
      { state with stage := .openStaging true, validChunks := ctx.seenValid data } := by
  obtain ⟨hstaging, hbackground⟩ := hcontent.found_staging hsound hstage hseen hsize
  exact
    { final := fun _ _ => hcontent.final (by simp [hstage]) (.inr (by simp [hstage]))
      staging := fun _ => hcontent.staging (by simp [hstage])
      fresh := fun h => by simp at h
      zero := fun h => by simp at h
      blank := fun h => by cases h
      resumed := fun _ => by rw [hbackground]; exact ⟨hstaging, rfl⟩
      tasks := hcontent.tasks
      assembled := fun h => by simp at h
      covered := fun _ _ _ _ h => by simp at h
      result := fun h => by cases h }

theorem FileContent.stagingMissing (hsound : ctx.Sound spec)
    (hcontent : ctx.FileContent spec disk state) (hstage : state.stage = .checkStaging)
    (hmissing : ∀ data, ctx.seenStaging (disk.read ctx.stagingPlace) = some data →
      ctx.task.size ≠ some data.length) :
    ctx.FileContent spec disk (state.withStage (.openStaging false)) where
  final _ _ := hcontent.final (by simp [hstage]) (.inr (by simp [hstage]))
  staging _ := hcontent.staging (by simp [hstage])
  fresh _ := hcontent.fresh (.inl (by simp [hstage]))
  zero _ := by
    refine background_eq_zero fun data hstaging hlength => ?_
    rw [← hcontent.staging (by simp [hstage])] at hstaging
    exact hmissing data hstaging (by rw [hsound.layout.size, hlength])
  blank h := by cases h
  resumed h := by cases h
  tasks := hcontent.tasks
  assembled h := by simp at h
  covered _ _ _ _ h := by simp at h
  result h := by cases h

/-- The staging file has been opened and has its length; only what was found
valid there counts. -/
theorem FileContent.opened (hidle : state.chunkTasks = [])
    (hfinal : ctx.stagingPlace ≠ ctx.finalPlace → disk.read ctx.finalPlace = spec.final)
    (hstage : state.stage = .openOld)
    (hread : disk.read ctx.stagingPlace = some spec.background)
    (hvalid : ∀ index chunk, ctx.task.chunks[index]? = some chunk →
      (∃ chunkId ∈ state.validChunks, chunk.id = some chunkId) →
        spec.Placed spec.background index chunk) :
    ctx.FileContent spec disk state where
  final _ hname := hfinal (hname.resolve_right (by simp [hstage]))
  staging h := by simp [hstage] at h
  fresh h := by simp [hstage] at h
  zero h := by simp [hstage] at h
  blank h := by simp [hstage] at h
  resumed h := by simp [hstage] at h
  tasks := by simp [hidle]
  assembled _ _ _ := by
    refine ⟨_, hread, Assembly.assembled_background fun index chunk hchunk hsettled => ?_⟩
    rcases hsettled with hvalid' | ⟨_, hmem, _⟩ | ⟨_, hcopied, _⟩
    · exact hvalid index chunk hchunk hvalid'
    · simp [hidle] at hmem
    · simp [hstage] at hcopied
  covered _ _ _ _ h := by simp [hstage] at h
  result h := by simp [hstage] at h

theorem FileContent.created (hcontent : ctx.FileContent spec disk state)
    (hstage : state.stage = .openStaging false) :
    ctx.FileContent spec (disk.openTruncate ctx.stagingPlace).1
      { state with
        stage := .setLen, file := some ⟨(disk.openTruncate ctx.stagingPlace).2, 0, none⟩ } where
  final _ hname := by
    have hapart := hname.resolve_right (by simp)
    rw [(FileTree.openTruncate_changesOnly disk _ _ hapart.symm).read_eq]
    exact hcontent.final (by simp [hstage]) (.inl hapart)
  staging h := by simp at h
  fresh _ := hcontent.fresh (.inr (.inl hstage))
  zero _ := hcontent.zero (.inl hstage)
  blank _ := by
    rw [FileTree.read_of_link (FileTree.openTruncate_link _ _), FileTree.openTruncate_data]
  resumed h := by cases h
  tasks := hcontent.tasks
  assembled h := by simp at h
  covered _ _ _ _ h := by simp at h
  result h := by cases h

/-- The copy loop has put one chunk of the previous version in place. -/
theorem FileContent.copied (hsound : ctx.Sound spec)
    (hcontent : ctx.FileContent spec disk state) (hshape : ctx.FileShape disk state)
    {oldIno index offset : Nat} {chunk : ManifestChunk} {file file' : SharedFile} {buffer : Bytes}
    (hstage : state.stage = .copyChunks oldIno index)
    (hchunk : ctx.task.chunks[index]? = some chunk) (hfile : state.file = some file)
    (hplan : ctx.CopyPlan (disk.data oldIno) index chunk offset buffer) :
    ctx.FileContent spec
      (disk.store file.ino (Bytes.writeAt (disk.data file.ino) offset buffer))
      { state with stage := .copyChunks oldIno (index + 1), file := some file' } := by
  have hlink := hshape.linked file hfile (by simp [hstage])
  have hidle := hshape.idle (by simp [hstage])
  have hold := hshape.old oldIno index hstage
  have hapart := hsound.apart_of_old hold.2
  have hfinal : spec.final = some (disk.data oldIno) := by
    rw [← hcontent.final (by simp [hstage]) (.inl hapart), FileTree.read_of_link hold.1]
  have hlength := hplan.length
  obtain ⟨data, hread, hassembled⟩ :=
    hcontent.assembled (by simp [hstage]) (by simp [hstage]) (by simp [FileState.Healthy, hidle])
  rw [FileTree.read_of_link hlink, Option.some.injEq] at hread
  exact
    { final := fun _ _ => by
        rw [(FileTree.store_changesOnly hlink _ _ hapart.symm).read_eq]
        exact hcontent.final (by simp [hstage]) (.inl hapart)
      staging := fun h => by simp at h
      fresh := fun h => by simp at h
      zero := fun h => by simp at h
      blank := fun h => by cases h
      resumed := fun h => by cases h
      tasks := hcontent.tasks
      assembled := fun _ _ _ => by
        refine ⟨_, FileTree.read_store_self hlink _, ?_⟩
        rw [hread]
        refine hassembled.write hsound.layout hchunk hplan.placed hlength
          (hsound.copied _ hfinal index chunk offset buffer hchunk hplan) ?_
        rintro other otherChunk hother hne (hvalid | htask | ⟨hsome, hcopied, hold⟩)
        · exact .inl hvalid
        · exact .inr (.inl htask)
        · refine .inr (.inr ⟨hsome, ?_, hold⟩)
          simp only [FileStage.copied] at hcopied
          simp only [hstage, FileStage.copied]
          omega
      covered := fun _ _ _ _ h => by simp at h
      result := fun h => by cases h }

/-- A skipped chunk is settled: it was found valid, or the copy loop, which is
done, has copied every chunk that the previous version lists. -/
theorem FileContent.skipped (hsound : ctx.Sound spec)
    (hcontent : ctx.FileContent spec disk state) {index : Nat}
    {chunk : ManifestChunk} {chunkId : ChunkId} (hstage : state.stage = .spawnChunks index)
    (hid : chunk.id = some chunkId) (hskip : ctx.skipsChunk disk state index chunkId = true)
    (other : Nat) : ctx.Settled spec state other chunk := by
  unfold skipsChunk at hskip
  rw [Bool.or_eq_true] at hskip
  rcases hskip with hvalid | hold
  · exact .inl ⟨chunkId, by simpa using hvalid, hid⟩
  · cases hchunks : ctx.task.oldChunks with
    | none => simp [hchunks] at hold
    | some oldChunks =>
        simp only [hchunks, Bool.and_eq_true] at hold
        obtain ⟨bytes, hbytes⟩ := FileTree.present_iff_read.mp hold.1.1
        rw [hcontent.final (by simp [hstage])
          (.inl (hsound.apart_of_old (by simp [hchunks])))] at hbytes
        refine .inr (.inr ⟨by simp [hbytes], by simp [hstage], chunkId, hid, ?_⟩)
        simpa [oldMatch, hchunks, List.find?_isSome] using hold.2

theorem FileContent.spawn (hcontent : ctx.FileContent spec disk state) {index : Nat}
    {chunk : ManifestChunk} {chunkId : ChunkId} (hstage : state.stage = .spawnChunks index) :
    ctx.FileContent spec disk
      { state with
        stage := .spawnChunks (index + 1)
        chunkTasks := state.chunkTasks ++ [⟨index, chunk, chunkId, .fetch 0⟩] } := by
  have hsettled {other : Nat} {otherChunk : ManifestChunk}
      (h : ctx.Settled spec state other otherChunk) : ctx.Settled spec
        { state with
          stage := .spawnChunks (index + 1)
          chunkTasks := state.chunkTasks ++ [⟨index, chunk, chunkId, .fetch 0⟩] }
        other otherChunk := by
    rcases h with hvalid | ⟨task, hmem, htask⟩ | ⟨hsome, _, hold⟩
    · exact .inl hvalid
    · exact .inr (.inl ⟨task, List.mem_append_left _ hmem, htask⟩)
    · exact .inr (.inr ⟨hsome, by simp, hold⟩)
  exact
    { final := fun _ hname =>
        hcontent.final (by simp [hstage]) (.inl (hname.resolve_right (by simp)))
      staging := fun h => by simp at h
      fresh := fun h => by simp at h
      zero := fun h => by simp at h
      blank := fun h => by cases h
      resumed := fun h => by cases h
      tasks := fun chunkTask hmem => by
        rcases List.mem_append.mp hmem with hmem | hmem
        · exact hcontent.tasks chunkTask hmem
        -- the new task has made no attempt yet
        · rw [List.mem_singleton.mp hmem]
          exact fun _ h => absurd h (Nat.not_lt_zero _)
      assembled := fun _ _ hhealthy => by
        obtain ⟨data, hread, hassembled⟩ := hcontent.assembled (by simp [hstage]) (by simp [hstage])
          fun chunkTask hmem => hhealthy chunkTask (List.mem_append_left _ hmem)
        refine ⟨data, hread, hassembled.mono ?_⟩
        rintro other otherChunk _ (hvalid | ⟨task, hmem, hindex, hdone⟩ | ⟨hsome, _, hold⟩)
        · exact .inl hvalid
        · rcases List.mem_append.mp hmem with hmem | hmem
          · exact .inr (.inl ⟨task, hmem, hindex, hdone⟩)
          · rw [List.mem_singleton.mp hmem] at hdone
            cases hdone
        · exact .inr (.inr ⟨hsome, by simp [hstage], hold⟩)
      covered := fun _ other otherChunk hother hspawned => by
        rcases Nat.lt_succ_iff_lt_or_eq.mp hspawned with hlt | rfl
        · rcases hcontent.covered (by simp [hstage]) other otherChunk hother
            (by simpa [hstage] using hlt) with h | ⟨task, hmem, hindex⟩
          · exact .inl (hsettled h)
          · exact .inr ⟨task, List.mem_append_left _ hmem, hindex⟩
        · exact .inr ⟨_, List.mem_append_right _ (List.mem_singleton_self _), rfl⟩
      result := fun h => by cases h }

/-- The rename puts the assembled file in place. -/
theorem FileContent.renamed (hcontent : ctx.FileContent spec disk state)
    (hshape : ctx.FileShape disk state) (hstage : state.stage = .rename)
    (hrename : disk.rename ctx.stagingPlace ctx.finalPlace = some disk') :
    ctx.FileContent spec disk' (state.withStage (.done (.ok ()))) where
  final h := absurd rfl h
  staging h := by simp at h
  fresh h := by simp at h
  zero h := by simp at h
  blank h := by cases h
  resumed h := by cases h
  tasks := hcontent.tasks
  assembled _ h := by simp at h
  covered h := by simp at h
  result _ := by
    have hdone := hshape.complete (.inl hstage)
    obtain ⟨data, hread, hassembled⟩ := hcontent.assembled (by simp [hstage]) (by simp [hstage])
      (hshape.healthy_of_complete (.inl hstage))
    refine ⟨data, (FileTree.rename_read_target hrename).trans hread, .inr ?_⟩
    refine hassembled.mono fun index chunk hchunk _ => ?_
    rcases hcontent.covered (by simp [hstage]) index chunk hchunk (by simp [hstage]) with
      hsettled | ⟨chunkTask, hmem, hindex⟩
    · exact hsettled
    · exact .inr (.inl ⟨chunkTask, hmem, hindex, hdone chunkTask hmem⟩)

theorem FileContent.mainStep (hsound : ctx.Sound spec)
    (hcontent : ctx.FileContent spec world.disk state) (hshape : ctx.FileShape world.disk state)
    (hstep : ctx.MainStep world state fault world' state') :
    ctx.FileContent spec world'.disk state' := by
  -- a stage past both loops counts on the same chunks
  have hlate {stage : FileStage} (hbefore : 8 ≤ state.stage.phase) (hhigh : state.stage.phase ≤ 10)
      (hafter : 8 ≤ stage.phase) (hlow : stage.phase ≤ 10)
      (hspawned : ∀ index chunk, ctx.task.chunks[index]? = some chunk → stage.spawned index →
        state.stage.spawned index ∨ ctx.Settled spec state index chunk) :
      ctx.FileContent spec world.disk (state.withStage stage) := by
    have hsame {index : Nat} {chunk : ManifestChunk} :
        ctx.Settled spec (state.withStage stage) index chunk ↔
          ctx.Settled spec state index chunk := by
      simp only [Settled, FileState.withStage_validChunks, FileState.withStage_chunkTasks,
        FileState.withStage_stage, FileStage.copied_of_phase hbefore,
        FileStage.copied_of_phase hafter]
    refine hcontent.late ⟨by omega, hhigh⟩ ⟨by omega, hlow⟩ (fun _ _ _ => hsame.mp)
      fun index chunk hchunk h => ?_
    rcases hspawned index chunk hchunk h with hold | hsettled
    · exact (hcontent.covered hhigh index chunk hchunk hold).imp_left hsame.mpr
    · exact .inl (hsame.mpr hsettled)
  cases hstep with
  | stagingDir hstage | noStagingDir hstage | finalDir hstage | noFinalDir hstage
  | finalInvalid hstage => exact hcontent.early (by simp [hstage]) (by simp)
  | finalValid hstage hvalid =>
      obtain ⟨data, hread, hsize, hall⟩ :=
        fileHasValidChunks_iff.mp (fileHasValidChunks_of_failing hvalid)
      rw [hsound.layout.size, Option.some.injEq] at hsize
      have hfinal := hcontent.final (by simp [hstage]) (.inr (by simp [hstage]))
      exact
        { final := fun h => absurd rfl h
          staging := fun h => by simp at h
          fresh := fun h => by simp at h
          zero := fun h => by simp at h
          blank := fun h => by cases h
          resumed := fun h => by cases h
          tasks := hcontent.tasks
          assembled := fun _ h => by simp at h
          covered := fun h => by simp at h
          result := fun _ => ⟨data, hread, .inl ⟨hfinal ▸ hread, hsize.symm, hall⟩⟩ }
  | stagingComplete hstage hseen hsize hall =>
      exact hcontent.stagingComplete hsound hstage hseen hsize hall
  | stagingPartial hstage hseen hsize => exact hcontent.stagingPartial hsound hstage hseen hsize
  | stagingMissing hstage hmissing => exact hcontent.stagingMissing hsound hstage hmissing
  | resumed hstage hlink =>
      obtain ⟨hstaging, hvalid⟩ := hcontent.resumed hstage
      refine .opened (hshape.idle (by simp [hstage]))
        (fun hapart => hcontent.final (by simp [hstage]) (.inl hapart)) rfl
        (seenStaging_eq_some.mp ((hcontent.staging (by simp [hstage])).trans hstaging)).2 ?_
      rintro index chunk hchunk ⟨chunkId, hmem, hid⟩
      exact hsound.background_placed hstaging hchunk hid (hvalid ▸ hmem)
  | created hstage => exact hcontent.created hstage
  | sized hstage hsize hfile =>
      have hlink := hshape.linked _ hfile (by simp [hstage])
      have hblank := hcontent.blank hstage
      rw [FileTree.read_of_link hlink, Option.some.injEq] at hblank
      rw [hsound.layout.size, Option.some.injEq] at hsize
      refine .opened (hshape.idle (by simp [hstage])) ?_ rfl ?_ ?_
      · intro hapart
        rw [World.withDisk_disk, (FileTree.store_changesOnly hlink _ _ hapart.symm).read_eq]
        exact hcontent.final (by simp [hstage]) (.inl hapart)
      · rw [World.withDisk_disk, FileTree.read_store_self hlink, hblank, ← hsize,
          hcontent.zero (.inr hstage)]
      · rintro index chunk _ ⟨chunkId, hmem, _⟩
        simp [hcontent.fresh (.inr (.inr hstage))] at hmem
  | unsized _ hsize =>
      rw [hsound.layout.size] at hsize
      cases hsize
  | oldOpened hstage =>
      refine hcontent.late (by simp [hstage]) (by simp) ?_ (by simp)
      rintro index chunk _ (hvalid | htask | ⟨_, hcopied, _⟩)
      · exact .inl hvalid
      · exact .inr (.inl htask)
      · simp at hcopied
  | oldMissing hstage hnone =>
      refine hcontent.late (by simp [hstage]) (by simp) ?_ (by simp)
      rintro index chunk hchunk (hvalid | htask | ⟨hsome, _, chunkId, hid, hold⟩)
      · exact .inl hvalid
      · exact .inr (.inl htask)
      · cases hchunks : ctx.task.oldChunks with
        | none => simp [oldMatch, hchunks] at hold
        | some oldChunks =>
            have hapart := hsound.apart_of_old (by simp [hchunks])
            obtain ⟨oldData, hfinal⟩ := Option.isSome_iff_exists.mp hsome
            rcases hnone.resolve_left (by simp [hchunks]) with hlink | hsilent
            · rw [← hcontent.final (by simp [hstage]) (.inl hapart)] at hsome
              simp [FileTree.read, hlink] at hsome
            · have hpresent := (hsound.copyable oldData hfinal index chunk chunkId hchunk hid
                hold).1
              rw [hsilent] at hpresent
              cases hpresent
  | copied hstage hchunk hfile hplan =>
      exact hcontent.copied hsound hshape hstage hchunk hfile hplan
  | copyFault hstage hchunk hfile =>
      have hlink := hshape.linked _ hfile (by simp [hstage])
      refine .failed rfl (fun hapart => ?_) hcontent.tasks
      simp only [writeChunk, World.withDisk_disk]
      rw [(FileTree.store_changesOnly hlink _ _ hapart.symm).read_eq]
      exact hcontent.final (by simp [hstage]) (.inl hapart)
  | @notCopied oldIno index chunk hstage hchunk hnone =>
      have hold := hshape.old oldIno index hstage
      have hfinal : spec.final = some (world.disk.data oldIno) := by
        rw [← hcontent.final (by simp [hstage]) (.inl (hsound.apart_of_old hold.2)),
          FileTree.read_of_link hold.1]
      refine hcontent.late (by simp [hstage]) (by simp) ?_ (by simp)
      rintro other otherChunk hother (hvalid | htask | ⟨hsome, hcopied, chunkId, hid, hold⟩)
      · exact .inl hvalid
      · exact .inr (.inl htask)
      · rcases Nat.lt_succ_iff_lt_or_eq.mp hcopied with hlt | rfl
        · exact .inr (.inr ⟨hsome, by simpa [hstage] using hlt, chunkId, hid, hold⟩)
        · rw [hchunk, Option.some.injEq] at hother
          subst hother
          obtain ⟨_, offset, buffer, hplan⟩ :=
            hsound.copyable _ hfinal _ chunk chunkId hchunk hid hold
          exact absurd hplan (hnone offset buffer)
  | @copyDone oldIno index hstage hend =>
      refine hcontent.late (by simp [hstage]) (by simp) ?_ (by simp)
      rintro other otherChunk hother (hvalid | htask | ⟨hsome, _, hold⟩)
      · exact .inl hvalid
      · exact .inr (.inl htask)
      · refine .inr (.inr ⟨hsome, ?_, hold⟩)
        obtain ⟨hlt, _⟩ := List.getElem?_eq_some_iff.mp hother
        have hle := List.getElem?_eq_none_iff.mp hend
        simp only [hstage, FileStage.copied]
        omega
  | @chunkSkipped index chunk hstage hchunk hskip =>
      refine hlate (by simp [hstage]) (by simp [hstage]) (by simp) (by simp) ?_
      intro other otherChunk hother hspawned
      rcases Nat.lt_succ_iff_lt_or_eq.mp hspawned with hlt | rfl
      · exact .inl (by simpa [hstage] using hlt)
      · rw [hchunk, Option.some.injEq] at hother
        subst hother
        obtain ⟨chunkId, hid⟩ := Option.isSome_iff_exists.mp
          (hsound.layout.complete chunk (List.mem_of_getElem? hchunk)).id
        exact .inr (hcontent.skipped hsound hstage hid (hskip chunkId hid) _)
  | chunkSpawned hstage => exact hcontent.spawn hstage
  | @spawnDone index hstage hend =>
      refine hlate (by simp [hstage]) (by simp [hstage]) (by simp) (by simp) ?_
      intro other otherChunk hother _
      obtain ⟨hlt, _⟩ := List.getElem?_eq_some_iff.mp hother
      have hle := List.getElem?_eq_none_iff.mp hend
      refine .inl ?_
      simp only [hstage, FileStage.spawned]
      omega
  | awaited hstage | awaitDone hstage =>
      exact hlate (by simp [hstage]) (by simp [hstage]) (by simp) (by simp)
        fun _ _ _ _ => .inl (by simp [hstage])
  | renamed hstage hrename => exact hcontent.renamed hshape hstage hrename
  | failed hphase =>
      refine .failed rfl (fun hapart => hcontent.final (fun h => ?_) (.inl hapart)) hcontent.tasks
      simp [h] at hphase

section Advance

variable {position : Nat} {chunkTask : ChunkTask} {stage : ChunkStage}
  {file' : Option SharedFile}

/-- A chunk task goes on: what counts as settled without it still does, and what
counts as settled afterwards did before or is its own chunk. -/
theorem settled_advance (htask : state.chunkTasks[position]? = some chunkTask)
    (hpending : ∀ outcome, chunkTask.stage ≠ .done outcome) {index : Nat} {chunk : ManifestChunk}
    (hsettled : ctx.Settled spec state index chunk) :
    ctx.Settled spec { state.advance position chunkTask stage with file := file' } index chunk := by
  rcases hsettled with hvalid | ⟨task, hmem, hindex, hdone⟩ | hcopied
  · exact .inl hvalid
  · refine .inr (.inl ⟨task, FileState.mem_advance_of_ne htask hmem ?_, hindex, hdone⟩)
    rintro rfl
    exact hpending _ hdone
  · exact .inr (.inr hcopied)

theorem settled_of_advance {index : Nat} {chunk : ManifestChunk}
    (hsettled :
      ctx.Settled spec { state.advance position chunkTask stage with file := file' } index chunk) :
    ctx.Settled spec state index chunk ∨ (stage = .done (.ok ()) ∧ chunkTask.index = index) := by
  rcases hsettled with hvalid | ⟨task, hmem, hindex, hdone⟩ | hcopied
  · exact .inl (.inl hvalid)
  · rcases FileState.mem_advance hmem with rfl | hmem
    · exact .inr ⟨hdone, hindex⟩
    · exact .inl (.inr (.inl ⟨task, hmem, hindex, hdone⟩))
  · exact .inl (.inr (.inr hcopied))

/-- A chunk task goes on, whatever this does to the staging file. -/
theorem FileContent.advanceOn (hcontent : ctx.FileContent spec disk state)
    (hshape : ctx.FileShape disk state)
    (htask : state.chunkTasks[position]? = some chunkTask)
    (hpending : ∀ outcome, chunkTask.stage ≠ .done outcome)
    (hgood : ctx.TaskGood spec { chunkTask with stage := stage })
    (hfinal : ctx.stagingPlace ≠ ctx.finalPlace →
      disk'.read ctx.finalPlace = disk.read ctx.finalPlace)
    (hassembled : 6 ≤ state.stage.phase → state.stage.phase ≤ 10 →
      (∀ error, stage ≠ .done (.error error)) → state.Healthy →
      ∃ data, disk'.read ctx.stagingPlace = some data ∧
        spec.Assembled ctx.task.chunks
          (fun index chunk => ctx.Settled spec state index chunk ∨
            (stage = .done (.ok ()) ∧ chunkTask.index = index)) data) :
    ctx.FileContent spec disk' { state.advance position chunkTask stage with file := file' } := by
  have hmem := List.mem_of_getElem? htask
  have hphase : 8 ≤ state.stage.phase := by
    by_contra hlow
    rw [hshape.idle (by omega)] at hmem
    cases hmem
  have hnotDone : state.stage ≠ .done (.ok ()) := fun h =>
    hpending _ (hshape.complete (.inr h) chunkTask hmem)
  exact
    { final := fun _ hname => by
        have hapart := hname.resolve_right fun h => by simp only [FileState.advance] at h; omega
        exact (hfinal hapart).trans (hcontent.final hnotDone (.inl hapart))
      staging := fun h => by simp only [FileState.advance] at h; omega
      fresh := fun h => by
        rcases h with h | h | h
        · simp only [FileState.advance] at h; omega
        · simp_all [FileState.advance]
        · simp_all [FileState.advance]
      zero := fun h => by rcases h with h | h <;> simp_all [FileState.advance]
      blank := fun h => by simp_all [FileState.advance]
      resumed := fun h => by simp_all [FileState.advance]
      tasks := fun task hmem' => by
        rcases FileState.mem_advance hmem' with rfl | hmem'
        · exact hgood
        · exact hcontent.tasks task hmem'
      assembled := fun hlow hhigh hhealthy => by
        have hself : ∀ error, stage ≠ .done (.error error) :=
          hhealthy _ (FileState.mem_advance_self htask)
        obtain ⟨data, hread, hdata⟩ := hassembled hlow hhigh hself
          (FileState.Healthy.of_advance htask hpending hhealthy)
        exact ⟨data, hread, hdata.mono fun _ _ _ => settled_of_advance⟩
      covered := fun hhigh index chunk hchunk hspawned => by
        rcases hcontent.covered hhigh index chunk hchunk hspawned with
          hsettled | ⟨task, htaskMem, hindex⟩
        · exact .inl (settled_advance htask hpending hsettled)
        · by_cases heq : task = chunkTask
          · exact .inr ⟨_, FileState.mem_advance_self htask, heq ▸ hindex⟩
          · exact .inr ⟨task, FileState.mem_advance_of_ne htask htaskMem heq, hindex⟩
      result := fun h => absurd h hnotDone }

/-- A chunk task goes on without touching the disk, and has not written its
chunk. -/
theorem FileContent.advance (hcontent : ctx.FileContent spec disk state)
    (hshape : ctx.FileShape disk state)
    (htask : state.chunkTasks[position]? = some chunkTask)
    (hpending : ∀ outcome, chunkTask.stage ≠ .done outcome)
    (hgood : ctx.TaskGood spec { chunkTask with stage := stage })
    (hnext : stage ≠ .done (.ok ())) :
    ctx.FileContent spec disk { state.advance position chunkTask stage with file := file' } := by
  refine hcontent.advanceOn hshape htask hpending hgood (fun _ => rfl)
    fun hlow hhigh _ hhealthy => ?_
  obtain ⟨data, hread, hassembled⟩ := hcontent.assembled hlow hhigh hhealthy
  refine ⟨data, hread, hassembled.mono fun _ _ _ h => ?_⟩
  exact h.resolve_right fun h => hnext h.1

end Advance

theorem FileContent.chunkStep {position : Nat} (hsound : ctx.Sound spec)
    (hcontent : ctx.FileContent spec world.disk state) (hshape : ctx.FileShape world.disk state)
    (hstep : ctx.ChunkStep world state position fault world' state') :
    ctx.FileContent spec world'.disk state' := by
  cases hstep with
  | @fetch chunkTask attempt htask hstage =>
      have hgood := hcontent.tasks _ (List.mem_of_getElem? htask)
      simp only [TaskGood, hstage] at hgood
      refine hcontent.advance hshape htask (by simp [hstage]) ?_ ?_
      · unfold fetched
        split
        next raw hanswer => exact ⟨attempt, hgood, hanswer⟩
        next text hanswer =>
          split
          · split
            · intro earlier hearlier
              rcases Nat.lt_succ_iff_lt_or_eq.mp hearlier with hlt | rfl
              · exact hgood earlier hlt
              · exact ⟨text, hanswer⟩
            · trivial
          · trivial
      · unfold fetched
        split
        · simp
        · split
          · split <;> simp
          · simp
  | @accepted chunkTask raw data offset htask hstage hprocessed =>
      have hmem := List.mem_of_getElem? htask
      have hgood := hcontent.tasks _ hmem
      simp only [TaskGood, hstage] at hgood
      obtain ⟨attempt, hanswered⟩ := hgood
      refine hcontent.advance hshape htask (by simp [hstage]) ⟨?_, ?_⟩ (by simp)
      · exact hsound.processed chunkTask attempt raw data (hshape.tasks _ hmem) hanswered hprocessed
      · exact (processed_ok hprocessed).1
  | unplaced htask _ _ hoffset =>
      obtain ⟨offset, _, hsome, _⟩ := (hsound.layout.complete _ (List.mem_of_getElem?
        (hshape.tasks _ (List.mem_of_getElem? htask)).indexed)).region
      rw [hoffset] at hsome
      cases hsome
  | locked htask _ hstage | sought htask _ hstage =>
      have hgood := hcontent.tasks _ (List.mem_of_getElem? htask)
      simp only [TaskGood, hstage] at hgood
      exact hcontent.advance hshape htask (by simp [hstage]) hgood (by simp)
  | seekFault htask _ hstage | noAttempt htask hstage | rejected htask hstage =>
      exact hcontent.advance hshape htask (by simp [hstage]) trivial (by simp)
  | @wrote chunkTask file data htask hfile hstage =>
      have hmem := List.mem_of_getElem? htask
      have hgood := hcontent.tasks _ hmem
      simp only [TaskGood, hstage] at hgood
      have hnotDone : state.stage ≠ .done (.ok ()) := fun h => by
        simpa [hstage] using hshape.complete (.inr h) _ hmem
      have hlink := hshape.linked file hfile hnotDone
      have hoffset := hshape.cursor file position chunkTask data hfile htask hstage
      -- the cursor is at the chunk's offset, so the write settles exactly its region
      refine hcontent.advanceOn hshape htask (by simp [hstage]) trivial ?_ ?_
      · exact fun hapart => (FileTree.store_changesOnly hlink _ _ hapart.symm).read_eq
      · intro hlow hhigh _ hhealthy
        obtain ⟨before, hread, hassembled⟩ := hcontent.assembled hlow hhigh hhealthy
        rw [FileTree.read_of_link hlink, Option.some.injEq] at hread
        refine ⟨_, FileTree.read_store_self hlink _, ?_⟩
        rw [hread]
        refine hassembled.write hsound.layout (hshape.tasks _ hmem).indexed hoffset hgood.2
          hgood.1 fun other _ _ hne hsettled => ?_
        exact hsettled.resolve_right fun h => hne h.2.symm
  | @writeFault chunkTask file data count htask hfile hstage =>
      have hmem := List.mem_of_getElem? htask
      have hnotDone : state.stage ≠ .done (.ok ()) := fun h => by
        simpa [hstage] using hshape.complete (.inr h) _ hmem
      have hlink := hshape.linked file hfile hnotDone
      refine hcontent.advanceOn hshape htask (by simp [hstage]) trivial ?_ ?_
      · exact fun hapart => (FileTree.store_changesOnly hlink _ _ hapart.symm).read_eq
      -- after a short write the task has failed and nothing is claimed of the file
      · intro _ _ hself
        exact absurd rfl (hself _)

/-- Every move keeps the content invariant of the file task that makes it. -/
theorem FileContent.step {move : FileMove} (hsound : ctx.Sound spec)
    (hcontent : ctx.FileContent spec world.disk state) (hshape : ctx.FileShape world.disk state)
    (hstep : ctx.step (world, state) move = some (world', state')) :
    ctx.FileContent spec world'.disk state' := by
  rcases step_cases hstep with hmain | ⟨_, hchunk⟩
  · exact hcontent.mainStep hsound hshape hmain
  · exact hcontent.chunkStep hsound hshape hchunk

end FileContext

end DepotDownloader.SteamClient
