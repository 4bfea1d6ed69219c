import DepotDownloader.SteamClient.Download.FreshFile
import DepotDownloader.SteamClient.Download.Installed

/-! # Copying chunks of the previous version

The copy loop takes a chunk from the previous version when it can read it there.
The loop that spawns the chunk tasks skips every chunk whose identifier
`old_chunks` lists, as long as it sees the previous version. The invariant tells what
the regions of the listed chunks hold on the way from the previous version and the
staging file to the final file.
-/

namespace DepotDownloader.SteamClient

open Foundation Foundation.LexPath Steam

/-- The data that a chunk task is about to write is what its chunk announces. -/
def ChunkTask.Fits (chunkTask : ChunkTask) : Prop :=
  match chunkTask.stage with
  | .lock _ data | .seek _ data | .write data => Matches chunkTask.chunk data
  | _ => True

/-- The task has written the chunk at an index. -/
structure ChunkTask.HasWritten (index : Nat) (chunkTask : ChunkTask) : Prop where
  index : chunkTask.index = index
  done : chunkTask.stage = .done (.ok ())
  placed : chunkTask.chunk.offset.isSome

namespace FileState

/-- Some chunk task has written the chunk at an index. -/
def HasWritten (state : FileState) (index : Nat) : Prop :=
  ∃ chunkTask ∈ state.chunkTasks, chunkTask.HasWritten index

variable {state : FileState} {position : Nat} {chunkTask : ChunkTask} {stage : ChunkStage}

/-- A chunk task goes on: some task has a property that this one lacked exactly
when another one had it or this one has it now. -/
theorem exists_mem_advance {property : ChunkTask → Prop}
    (htask : state.chunkTasks[position]? = some chunkTask) (hnot : ¬ property chunkTask) :
    (∃ other ∈ (state.advance position chunkTask stage).chunkTasks, property other) ↔
      (∃ other ∈ state.chunkTasks, property other) ∨
        property { chunkTask with stage := stage } := by
  constructor
  · rintro ⟨other, hmem, hother⟩
    rcases mem_advance hmem with rfl | hold
    · exact .inr hother
    · exact .inl ⟨other, hold, hother⟩
  · rintro (⟨other, hmem, hother⟩ | hself)
    · refine ⟨other, mem_advance_of_ne htask hmem ?_, hother⟩
      rintro rfl
      exact hnot hother
    · exact ⟨_, mem_advance_self htask, hself⟩

/-- A chunk task goes on and may have written its chunk. -/
theorem hasWritten_advance (htask : state.chunkTasks[position]? = some chunkTask)
    (hpending : ∀ outcome, chunkTask.stage ≠ .done outcome) {index : Nat} :
    (state.advance position chunkTask stage).HasWritten index ↔ state.HasWritten index ∨
      ({ chunkTask with stage := stage } : ChunkTask).HasWritten index :=
  exists_mem_advance htask fun hwritten => hpending _ hwritten.done

/-- A chunk task that has just been spawned has written nothing. -/
theorem hasWritten_spawn {spawned : ChunkTask} (hfetch : spawned.stage = .fetch 0) {index : Nat} :
    (∃ chunkTask ∈ state.chunkTasks ++ [spawned], chunkTask.HasWritten index) ↔
      state.HasWritten index := by
  constructor
  · rintro ⟨chunkTask, hmem, hwritten⟩
    rcases List.mem_append.mp hmem with hold | hnew
    · exact ⟨chunkTask, hold, hwritten⟩
    · have hdone := hwritten.done
      rw [List.mem_singleton.mp hnew, hfetch] at hdone
      cases hdone
  · rintro ⟨chunkTask, hmem, hwritten⟩
    exact ⟨chunkTask, List.mem_append_left _ hmem, hwritten⟩

end FileState

namespace FileContext

variable (ctx : FileContext)

/-- What the copy loop reads for the chunk at an index in the previous version. -/
def planned (oldData : Bytes) (index : Nat) (chunk : ManifestChunk) : Option Bytes :=
  if ctx.silent.oldPresent then none
  else
    (chunk.id.bind ctx.oldMatch).bind fun old =>
      old.offset.bind fun oldOffset =>
        chunk.uncompressedSize.bind fun size => ctx.readOld oldData index oldOffset size

/-- The check of the final file lets these bytes through. -/
structure SeesValid (oldData : Bytes) : Prop where
  metadata : ctx.silent.final.metadata = false
  size : ctx.task.size = some oldData.length
  chunks : ∀ index chunk, ctx.task.chunks[index]? = some chunk →
    ctx.silent.final.chunk index = false ∧ chunkValid oldData chunk = true

/-- The staging file that is resumed: one of the right size. -/
def resumable (staging : Option Bytes) : Option Bytes :=
  (ctx.seenStaging staging).filter fun data => ctx.task.size == some data.length

/-- The identifiers found valid in the staging file that is resumed. -/
def foundValid (staging : Option Bytes) : List ChunkId :=
  match ctx.resumable staging with
  | some data => ctx.seenValid data
  | none => []

/-- The bytes of the staging file when the copy loop starts. -/
def prepared (staging : Option Bytes) : Bytes :=
  (ctx.resumable staging).getD (Bytes.resize [] (ctx.task.size.getD 0))

/-- The staging file is complete as it is found. -/
def StagingComplete (staging : Option Bytes) : Prop :=
  ∃ data, ctx.resumable staging = some data ∧
    (ctx.seenValid data).length = ctx.task.chunks.length

/-- The identifier of the chunk was not found valid in the staging file. -/
def NotFound (staging : Option Bytes) (chunk : ManifestChunk) : Prop :=
  ∀ chunkId ∈ ctx.foundValid staging, chunk.id ≠ some chunkId

/-- The loop does not see the previous version at this index, so it spawns a chunk task
for the chunk although the chunk is listed. -/
def Refetched (staging : Option Bytes) (index : Nat) (chunk : ManifestChunk) : Prop :=
  ctx.silent.listed index = true ∧ ctx.NotFound staging chunk

/-- A listed chunk is supplied: it is fetched after all, or what the copy loop reads for
it is right, or the loop reads nothing and the chunk was found valid in the staging
file. -/
def Supplied (oldData : Bytes) (staging : Option Bytes) (index : Nat) (chunk : ManifestChunk) :
    Prop :=
  ctx.Refetched staging index chunk ∨
    match ctx.planned oldData index chunk with
    | some buffer => Matches chunk buffer
    | none => ¬ ctx.NotFound staging chunk

/-- The region of a chunk in the staging file, before or after the copy loop has
come past the chunk, and after a chunk task has written it. -/
structure RegionHolds (oldData : Bytes) (staging : Option Bytes) (index : Nat)
    (passed written : Prop) (data : Bytes) (chunk : ManifestChunk) (offset size : Nat) : Prop where
  fetched : written → ∃ bytes, Bytes.readAt data offset size = some bytes ∧ Matches chunk bytes
  taken : ∀ buffer, ¬ written → passed → ctx.planned oldData index chunk = some buffer →
    Bytes.readAt data offset size = some buffer
  kept : ¬ written → ¬ passed ∨ ctx.planned oldData index chunk = none →
    Bytes.readAt data offset size = Bytes.readAt (ctx.prepared staging) offset size

/-- The staging file has its length, and the regions of the listed chunks hold
what the copy loop and the chunk tasks have made of them. -/
structure ListedRegions (oldData : Bytes) (staging : Option Bytes) (passed written : Nat → Prop)
    (data : Bytes) : Prop where
  size : ctx.task.size = some data.length
  region : ∀ index chunk offset size, ctx.task.chunks[index]? = some chunk → ctx.Listed chunk →
    chunk.offset = some offset → chunk.uncompressedSize = some size →
      ctx.RegionHolds oldData staging index (passed index) (written index) data chunk offset size

variable {ctx} {oldData data buffer : Bytes} {staging : Option Bytes}
  {passed passed' written written' : Nat → Prop} {chunk : ManifestChunk} {index offset length : Nat}

theorem copyPlan_iff (hpresent : ctx.silent.oldPresent = false) :
    ctx.CopyPlan oldData index chunk offset buffer ↔
      chunk.offset = some offset ∧ ctx.planned oldData index chunk = some buffer := by
  unfold planned
  rw [if_neg (by simp [hpresent])]
  constructor
  · intro hplan
    obtain ⟨chunkId, old, oldOffset, size, hid, hold, hoffset, hsize, hread⟩ := hplan.source
    refine ⟨hplan.placed, ?_⟩
    simp [hid, hold, hoffset, hsize, hread]
  · intro hplan
    obtain ⟨hplaced, hplanned⟩ := hplan
    obtain ⟨old, hmatch, hrest⟩ := Option.bind_eq_some_iff.mp hplanned
    obtain ⟨chunkId, hid, hold⟩ := Option.bind_eq_some_iff.mp hmatch
    obtain ⟨oldOffset, hoffset, hrest⟩ := Option.bind_eq_some_iff.mp hrest
    obtain ⟨size, hsize, hread⟩ := Option.bind_eq_some_iff.mp hrest
    exact ⟨hplaced, chunkId, old, oldOffset, size, hid, hold, hoffset, hsize, hread⟩

theorem planned_of_absent (habsent : ctx.silent.oldPresent = true) :
    ctx.planned oldData index chunk = none := if_pos habsent

theorem planned_length (hplanned : ctx.planned oldData index chunk = some buffer) :
    chunk.uncompressedSize = some buffer.length := by
  unfold planned at hplanned
  split at hplanned
  next => cases hplanned
  next =>
    obtain ⟨_, _, hrest⟩ := Option.bind_eq_some_iff.mp hplanned
    obtain ⟨_, _, hrest⟩ := Option.bind_eq_some_iff.mp hrest
    obtain ⟨size, hsize, hread⟩ := Option.bind_eq_some_iff.mp hrest
    rw [hsize, Bytes.length_of_readAt (readOld_eq_some.mp hread).2]

/-- The check of the final file is a check of its bytes. -/
theorem finalValid_iff {disk : Disk} (hread : disk.read ctx.finalPlace = some oldData) :
    fileHasValidChunks disk ctx.finalPlace ctx.task.size ctx.task.chunks ctx.silent.final = true ↔
      ctx.SeesValid oldData := by
  rw [fileHasValidChunks_iff_of_failing]
  constructor
  · rintro ⟨hmetadata, data, hdata, hsize, hall⟩
    rw [hread, Option.some.injEq] at hdata
    subst hdata
    exact ⟨hmetadata, hsize, hall⟩
  · intro hsees
    exact ⟨hsees.metadata, oldData, hread, hsees.size, hsees.chunks⟩

theorem SeesValid.chunk_valid (hsees : ctx.SeesValid oldData) :
    ∀ chunk ∈ ctx.task.chunks, chunkValid oldData chunk = true := by
  intro chunk hmem
  obtain ⟨index, hindex⟩ := List.mem_iff_getElem?.mp hmem
  exact (hsees.chunks index chunk hindex).2

theorem resumable_eq_some : ctx.resumable staging = some data ↔
    ctx.seenStaging staging = some data ∧ ctx.task.size = some data.length := by
  unfold resumable
  rw [Option.filter_eq_some_iff, beq_iff_eq]

theorem resumable_read (hresumable : ctx.resumable staging = some data) : staging = some data :=
  (seenStaging_eq_some.mp (resumable_eq_some.mp hresumable).1).2

/-- A staging file that is not seen, or is of another size, is not resumed. -/
theorem resumable_eq_none (hmissing : ∀ data, ctx.seenStaging staging = some data →
    ctx.task.size ≠ some data.length) : ctx.resumable staging = none := by
  cases hresumable : ctx.resumable staging with
  | none => rfl
  | some data =>
      obtain ⟨hseen, hlength⟩ := resumable_eq_some.mp hresumable
      exact absurd hlength (hmissing data hseen)

@[simp] theorem resumable_none : ctx.resumable none = none :=
  resumable_eq_none fun data hseen => by simp at hseen

theorem foundValid_of_some (hresumable : ctx.resumable staging = some data) :
    ctx.foundValid staging = ctx.seenValid data := by
  simp only [foundValid, hresumable]

theorem foundValid_of_none (hresumable : ctx.resumable staging = none) :
    ctx.foundValid staging = [] := by
  simp only [foundValid, hresumable]

@[simp] theorem foundValid_none : ctx.foundValid none = [] := foundValid_of_none resumable_none

theorem stagingComplete_iff (hresumable : ctx.resumable staging = some data) :
    ctx.StagingComplete staging ↔ (ctx.seenValid data).length = ctx.task.chunks.length := by
  constructor
  · intro hcomplete
    obtain ⟨other, hother, hall⟩ := hcomplete
    obtain rfl : data = other := Option.some.inj (hresumable.symm.trans hother)
    exact hall
  · exact fun hall => ⟨data, hresumable, hall⟩

theorem not_stagingComplete (hresumable : ctx.resumable staging = none) :
    ¬ ctx.StagingComplete staging := by
  intro hcomplete
  obtain ⟨data, hdata, _⟩ := hcomplete
  rw [hresumable] at hdata
  cases hdata

/-- A resumed staging file is already prepared. -/
theorem staging_eq_prepared (hresumable : (ctx.resumable staging).isSome) :
    staging = some (ctx.prepared staging) := by
  obtain ⟨data, hdata⟩ := Option.isSome_iff_exists.mp hresumable
  rw [prepared, hdata]
  exact resumable_read hdata

/-- Before the copy loop the regions hold what the file was prepared with. -/
theorem ListedRegions.start (hsize : ctx.task.size = some (ctx.prepared staging).length)
    (hnone : ∀ index, ¬ written index) :
    ctx.ListedRegions oldData staging (fun _ => False) written (ctx.prepared staging) where
  size := hsize
  region index _ _ _ _ _ _ _ := ⟨fun hwritten => absurd hwritten (hnone index),
    fun _ _ hpassed => hpassed.elim, fun _ _ => rfl⟩

/-- The copy loop comes past a chunk that it cannot read. -/
theorem ListedRegions.pass (hregions : ctx.ListedRegions oldData staging passed written data)
    (hpassed : ∀ index chunk, ctx.task.chunks[index]? = some chunk → ctx.Listed chunk →
      (passed' index ↔ passed index) ∨ ctx.planned oldData index chunk = none) :
    ctx.ListedRegions oldData staging passed' written data where
  size := hregions.size
  region index chunk offset size hchunk hlisted hoffset hsize := by
    have hregion := hregions.region index chunk offset size hchunk hlisted hoffset hsize
    rcases hpassed index chunk hchunk hlisted with hsame | hnone
    · rwa [show passed' index = passed index from propext hsame]
    · refine ⟨hregion.fetched, ?_, fun hwritten _ => hregion.kept hwritten (.inr hnone)⟩
      intro buffer _ _ hplanned
      rw [hnone] at hplanned
      cases hplanned

/-- Only which chunks are written matters of the chunk tasks. -/
theorem ListedRegions.congr (hregions : ctx.ListedRegions oldData staging passed written data)
    (hwritten : ∀ index, written' index ↔ written index) :
    ctx.ListedRegions oldData staging passed written' data := by
  rwa [show written' = written from funext fun index => propext (hwritten index)]

/-- Writing the region of one chunk leaves the regions of the others alone. -/
theorem ListedRegions.write (hregions : ctx.ListedRegions oldData staging passed written data)
    (hlayout : Layout ctx.task.size ctx.task.chunks length)
    (hchunk : ctx.task.chunks[index]? = some chunk) (hoffset : chunk.offset = some offset)
    (hsize : chunk.uncompressedSize = some buffer.length)
    (hothers : ∀ other, other ≠ index →
      (passed' other ↔ passed other) ∧ (written' other ↔ written other))
    (hself : written' index ∧ Matches chunk buffer ∨
      ¬ written' index ∧ passed' index ∧ ctx.planned oldData index chunk = some buffer) :
    ctx.ListedRegions oldData staging passed' written' (Bytes.writeAt data offset buffer) := by
  have hfits : offset + buffer.length ≤ data.length := by
    obtain ⟨offset', size', hoffset', hsize', hle⟩ :=
      (hlayout.complete chunk (List.mem_of_getElem? hchunk)).region
    have hlength := hlayout.size.symm.trans hregions.size
    rw [Option.some.injEq] at hlength
    rw [hoffset, Option.some.injEq] at hoffset'
    rw [hsize, Option.some.injEq] at hsize'
    omega
  refine ⟨by rw [Bytes.length_writeAt hfits]; exact hregions.size, ?_⟩
  intro other otherChunk offset' size' hother hlisted hoffset' hsize'
  by_cases heq : other = index
  · subst heq
    rw [hchunk, Option.some.injEq] at hother
    subst hother
    rw [hoffset, Option.some.injEq] at hoffset'
    rw [hsize, Option.some.injEq] at hsize'
    subst hoffset' hsize'
    have hread := Bytes.readAt_writeAt_self hfits
    rcases hself with ⟨hwritten, hmatches⟩ | ⟨hnot, hnow, hplanned⟩
    · exact ⟨fun _ => ⟨buffer, hread, hmatches⟩, fun _ hnot => absurd hwritten hnot,
        fun hnot => absurd hwritten hnot⟩
    · refine ⟨fun hwritten => absurd hwritten hnot, ?_, ?_⟩
      · intro found _ _ hfound
        rw [hplanned, Option.some.injEq] at hfound
        rw [← hfound]
        exact hread
      · intro _ hkept
        rcases hkept with hbefore | hnone
        · exact absurd hnow hbefore
        · rw [hplanned] at hnone
          cases hnone
  · have hregion := hregions.region other otherChunk offset' size' hother hlisted hoffset' hsize'
    obtain ⟨hpassed, hwritten⟩ := hothers other heq
    have hread : Bytes.readAt (Bytes.writeAt data offset buffer) offset' size' =
        Bytes.readAt data offset' size' := by
      apply Bytes.readAt_writeAt_of_apart hfits
      exact hlayout.apart hother hchunk heq _ _ _ _ hoffset' hsize' hoffset hsize
    rw [propext hpassed, propext hwritten]
    exact ⟨by rw [hread]; exact hregion.fetched, by rw [hread]; exact hregion.taken,
      by rw [hread]; exact hregion.kept⟩

variable (ctx) in
/-- Neither the final file nor the staging file was found complete at the start. -/
structure Missed (oldData : Bytes) (staging : Option Bytes) : Prop where
  final : ¬ ctx.SeesValid oldData
  staging : ¬ ctx.StagingComplete staging

variable (ctx) in
/-- Before the task opens its staging file. -/
structure Untouched (oldData : Bytes) (staging : Option Bytes) (valid : List ChunkId) (disk : Disk)
    (state : FileState) : Prop where
  final : disk.read ctx.finalPlace = some oldData
  staging : disk.read ctx.stagingPlace = staging
  valid : state.validChunks = valid

variable (ctx) in
/-- From the open staging file on. A chunk task fetches a listed chunk exactly where the
loop does not see the previous version. -/
structure Copying (oldData : Bytes) (staging : Option Bytes) (passed : Nat → Prop) (disk : Disk)
    (state : FileState) : Prop where
  final : disk.read ctx.finalPlace = some oldData
  missed : ctx.Missed oldData staging
  opened : state.file.isSome
  valid : state.validChunks = ctx.foundValid staging
  fits : ∀ chunkTask ∈ state.chunkTasks, chunkTask.Fits
  unfetched : ∀ chunkTask ∈ state.chunkTasks, ctx.Listed chunkTask.chunk →
    ctx.Refetched staging chunkTask.index chunkTask.chunk
  covered : ∀ index chunk, ctx.task.chunks[index]? = some chunk → state.stage.spawned index →
    ctx.Listed chunk → ctx.Refetched staging index chunk →
      ∃ chunkTask ∈ state.chunkTasks, chunkTask.index = index
  regions : state.Healthy → ∃ data, disk.read ctx.stagingPlace = some data ∧
    ctx.ListedRegions oldData staging passed state.HasWritten data

variable (ctx) in
/-- What a download over a previous version leaves when it succeeds. -/
inductive Reused (oldData : Bytes) (staging : Option Bytes) (disk : Disk) (state : FileState) :
    Prop where
  | valid (hread : disk.read ctx.finalPlace = some oldData) (hfile : state.file = none)
      (hsees : ctx.SeesValid oldData)
  | finished {data : Bytes} (hread : disk.read ctx.finalPlace = some data)
      (hfile : state.file = none) (hresumable : ctx.resumable staging = some data)
      (hall : (ctx.seenValid data).length = ctx.task.chunks.length)
  | copied {data : Bytes} (hread : disk.read ctx.finalPlace = some data)
      (hmissed : ctx.Missed oldData staging) (hopened : state.file.isSome)
      (hvalid : state.validChunks = ctx.foundValid staging)
      (hunfetched : ∀ chunkTask ∈ state.chunkTasks, ctx.Listed chunkTask.chunk →
        ctx.Refetched staging chunkTask.index chunkTask.chunk)
      (hwritten : ∀ index chunk, ctx.task.chunks[index]? = some chunk → ctx.Listed chunk →
        (state.HasWritten index ↔ ctx.Refetched staging index chunk))
      (hregions : ctx.ListedRegions oldData staging (fun _ => True) state.HasWritten data)

variable (ctx) in
/-- What holds at a stage. -/
def ReusingAt (oldData : Bytes) (staging : Option Bytes) (disk : Disk) (state : FileState) :
    FileStage → Prop
  | .createStagingDir | .createFinalDir | .checkFinal => ctx.Untouched oldData staging [] disk state
  | .checkStaging =>
      ctx.Untouched oldData staging [] disk state ∧ ¬ ctx.SeesValid oldData
  | .openStaging resuming =>
      ctx.Untouched oldData staging (ctx.foundValid staging) disk state ∧
        ctx.Missed oldData staging ∧ resuming = (ctx.resumable staging).isSome
  | .setLen =>
      ctx.Untouched oldData (some []) (ctx.foundValid staging) disk state ∧
        ctx.Missed oldData staging ∧ ctx.resumable staging = none
  | .openOld => ctx.Copying oldData staging (fun _ => False) disk state
  | .copyChunks _ next =>
      ctx.Copying oldData staging (· < next) disk state ∧ ctx.silent.oldPresent = false
  | .spawnChunks _ | .awaitChunks _ => ctx.Copying oldData staging (fun _ => True) disk state
  | .rename =>
      (state.file = none ∧ ctx.StagingComplete staging ∧ disk.read ctx.stagingPlace = staging) ∨
        ctx.Copying oldData staging (fun _ => True) disk state
  | .done (.ok ()) => ctx.Reused oldData staging disk state
  | .done (.error _) => True

variable (ctx) in
def Reusing (oldData : Bytes) (staging : Option Bytes) (disk : Disk) (state : FileState) : Prop :=
  ctx.ReusingAt oldData staging disk state state.stage

variable {disk disk' : Disk} {world world' : World} {state state' : FileState} {fault : Option Nat}
  {position : Nat} {chunkTask : ChunkTask}

theorem Reusing.initial (hfinal : disk.read ctx.finalPlace = some oldData)
    (hstaging : disk.read ctx.stagingPlace = staging) :
    ctx.Reusing oldData staging disk .initial := by
  have huntouched : ctx.Untouched oldData staging [] disk .initial := ⟨hfinal, hstaging, rfl⟩
  exact huntouched

/-- The file task goes on, and no region of a listed chunk changes. -/
theorem Copying.goto (hcopying : ctx.Copying oldData staging passed disk state) (stage : FileStage)
    (hpassed : ∀ index chunk, ctx.task.chunks[index]? = some chunk → ctx.Listed chunk →
      (passed' index ↔ passed index) ∨ ctx.planned oldData index chunk = none)
    (hspawned : ∀ index chunk, ctx.task.chunks[index]? = some chunk →
      ctx.Refetched staging index chunk → stage.spawned index → state.stage.spawned index) :
    ctx.Copying oldData staging passed' disk (state.withStage stage) :=
  { hcopying with
    covered := by
      intro index chunk hchunk hlate hlisted hrefetched
      exact hcopying.covered index chunk hchunk (hspawned index chunk hchunk hrefetched hlate)
        hlisted hrefetched
    regions := by
      intro hhealthy
      obtain ⟨data, hread, hregions⟩ := hcopying.regions hhealthy
      exact ⟨data, hread, hregions.pass hpassed⟩ }

/-- A chunk task goes on. Unless it fails, it leaves the regions of the listed
chunks as they have to be. -/
theorem Copying.advance (hcopying : ctx.Copying oldData staging passed disk state)
    (htask : state.chunkTasks[position]? = some chunkTask)
    (hpending : ∀ outcome, chunkTask.stage ≠ .done outcome) {stage : ChunkStage}
    (hfits : ({ chunkTask with stage := stage } : ChunkTask).Fits) {file : Option SharedFile}
    (hopened : file.isSome) (hfinal : disk'.read ctx.finalPlace = disk.read ctx.finalPlace)
    (hregions : ∀ data, disk.read ctx.stagingPlace = some data →
      ctx.ListedRegions oldData staging passed state.HasWritten data →
        (∀ error, stage ≠ .done (.error error)) →
          ∃ data', disk'.read ctx.stagingPlace = some data' ∧
            ctx.ListedRegions oldData staging passed
              (state.advance position chunkTask stage).HasWritten data') :
    ctx.Copying oldData staging passed disk'
      { state.advance position chunkTask stage with file := file } where
  final := hfinal.trans hcopying.final
  missed := hcopying.missed
  opened := hopened
  valid := hcopying.valid
  fits := by
    intro other hmem
    rcases FileState.mem_advance hmem with rfl | hold
    · exact hfits
    · exact hcopying.fits other hold
  unfetched := by
    intro other hmem
    rcases FileState.mem_advance hmem with rfl | hold
    · exact hcopying.unfetched chunkTask (List.mem_of_getElem? htask)
    · exact hcopying.unfetched other hold
  covered := by
    intro index chunk hchunk hlate hlisted hrefetched
    obtain ⟨other, hmem, hindex⟩ := hcopying.covered index chunk hchunk hlate hlisted hrefetched
    by_cases heq : other = chunkTask
    · exact ⟨_, FileState.mem_advance_self htask, heq ▸ hindex⟩
    · exact ⟨other, FileState.mem_advance_of_ne htask hmem heq, hindex⟩
  regions := by
    intro hhealthy
    obtain ⟨data, hread, hlisted⟩ := hcopying.regions (.of_advance htask hpending hhealthy)
    exact hregions data hread hlisted (hhealthy _ (FileState.mem_advance_self htask))

/-- A chunk task goes on and writes nothing. -/
theorem Copying.advance_idle (hcopying : ctx.Copying oldData staging passed disk state)
    (htask : state.chunkTasks[position]? = some chunkTask)
    (hpending : ∀ outcome, chunkTask.stage ≠ .done outcome) {stage : ChunkStage}
    (hfits : ({ chunkTask with stage := stage } : ChunkTask).Fits) {file : Option SharedFile}
    (hopened : file.isSome) (hidle : stage = .done (.ok ()) → chunkTask.chunk.offset = none) :
    ctx.Copying oldData staging passed disk
      { state.advance position chunkTask stage with file := file } := by
  refine hcopying.advance htask hpending hfits hopened rfl fun data hread hregions _ => ?_
  refine ⟨data, hread, hregions.congr fun index => ?_⟩
  rw [FileState.hasWritten_advance htask hpending]
  refine or_iff_left fun hself => ?_
  have hplaced := hself.placed
  rw [show chunkTask.chunk.offset = none from hidle hself.done] at hplaced
  cases hplaced

/-- A fetch leads to raw data, to the next attempt or to an error. -/
theorem fetched_cases (chunkTask : ChunkTask) (attempt : Nat) :
    (∃ raw, ctx.fetched chunkTask attempt = .process raw) ∨
      ctx.fetched chunkTask attempt = .fetch (attempt + 1) ∨
        ∃ error, ctx.fetched chunkTask attempt = .done (.error error) := by
  unfold fetched
  split
  · exact .inl ⟨_, rfl⟩
  · split
    · split
      · exact .inr (.inl rfl)
      · exact .inr (.inr ⟨_, rfl⟩)
    · exact .inr (.inr ⟨_, rfl⟩)

theorem fetched_fits (chunkTask : ChunkTask) (attempt : Nat) :
    ({ chunkTask with stage := ctx.fetched chunkTask attempt } : ChunkTask).Fits := by
  unfold ChunkTask.Fits
  rcases ctx.fetched_cases chunkTask attempt with ⟨_, hnext⟩ | hnext | ⟨_, hnext⟩
  · simp only [hnext]
  · simp only [hnext]
  · simp only [hnext]

/-- The moves of the chunk tasks keep the regions of the listed chunks. -/
theorem Copying.chunkStep (hcopying : ctx.Copying oldData staging passed world.disk state)
    (hlayout : Layout ctx.task.size ctx.task.chunks length)
    (hapart : ctx.stagingPlace ≠ ctx.finalPlace) (hshape : ctx.FileShape world.disk state)
    (hrunning : state.stage ≠ .done (.ok ()))
    (hstep : ctx.ChunkStep world state position fault world' state') :
    ctx.Copying oldData staging passed world'.disk state' := by
  cases hstep with
  | @fetch chunkTask attempt htask hstage =>
      refine hcopying.advance_idle htask (by simp [hstage]) ?_ hcopying.opened fun hdone => ?_
      · exact fetched_fits chunkTask attempt
      rcases ctx.fetched_cases chunkTask attempt with ⟨_, hnext⟩ | hnext | ⟨_, hnext⟩ <;>
        simp [hnext] at hdone
  | accepted htask hstage hprocessed =>
      refine hcopying.advance_idle htask (by simp [hstage]) ?_ hcopying.opened (by simp)
      exact processed_ok hprocessed
  | unplaced htask hstage _ hoffset =>
      refine hcopying.advance_idle htask (by simp [hstage]) ?_ hcopying.opened fun _ => hoffset
      trivial
  | noAttempt htask hstage | rejected htask hstage =>
      refine hcopying.advance_idle htask (by simp [hstage]) ?_ hcopying.opened (by simp)
      trivial
  | locked htask _ hstage | sought htask _ hstage =>
      have hfits := hcopying.fits _ (List.mem_of_getElem? htask)
      simp only [ChunkTask.Fits, hstage] at hfits
      refine hcopying.advance_idle htask (by simp [hstage]) ?_ rfl (by simp)
      exact hfits
  | seekFault htask _ hstage =>
      refine hcopying.advance_idle htask (by simp [hstage]) ?_ rfl (by simp)
      trivial
  | @wrote chunkTask file data htask hfile hstage =>
      have hmem := List.mem_of_getElem? htask
      have hlink := hshape.linked file hfile hrunning
      have hoffset := hshape.cursor file position chunkTask data hfile htask hstage
      have hfits := hcopying.fits _ hmem
      simp only [ChunkTask.Fits, hstage] at hfits
      refine hcopying.advance htask (by simp [hstage]) ?_ rfl
        (FileTree.store_changesOnly hlink _ _ hapart.symm).read_eq ?_
      · trivial
      intro before hread hregions _
      rw [FileTree.read_of_link hlink, Option.some.injEq] at hread
      refine ⟨_, FileTree.read_store_self hlink _, ?_⟩
      rw [hread]
      -- the region of the task's own chunk is filled, and now counts as written
      apply hregions.write hlayout (hshape.tasks _ hmem).indexed hoffset hfits.1
      · intro other hne
        rw [FileState.hasWritten_advance htask (by simp [hstage])]
        exact ⟨Iff.rfl, or_iff_left fun hself => hne hself.index.symm⟩
      · refine .inl ⟨?_, hfits⟩
        exact ⟨_, FileState.mem_advance_self htask, rfl, rfl, by simp [hoffset]⟩
  | @writeFault chunkTask file data count htask hfile hstage =>
      have hlink := hshape.linked file hfile hrunning
      refine hcopying.advance htask (by simp [hstage]) ?_ rfl
        (FileTree.store_changesOnly hlink _ _ hapart.symm).read_eq ?_
      · trivial
      intro _ _ _ hsound
      exact absurd rfl (hsound _)

/-- Only a chunk task that has not ended goes on. -/
theorem chunkStep_pending (hstep : ctx.ChunkStep world state position fault world' state') :
    state'.stage = state.stage ∧ ∃ chunkTask ∈ state.chunkTasks,
      chunkTask.stage ≠ .done (.ok ()) := by
  cases hstep with
  | fetch htask hstage | accepted htask hstage | unplaced htask hstage | noAttempt htask hstage
  | rejected htask hstage | locked htask _ hstage | sought htask _ hstage
  | seekFault htask _ hstage | wrote htask _ hstage | writeFault htask _ hstage =>
      exact ⟨rfl, _, List.mem_of_getElem? htask, by simp [hstage]⟩

/-- A chunk task only goes on when the chunks are being fetched. -/
theorem late_of_pending (hshape : ctx.FileShape disk state) {chunkTask : ChunkTask}
    (hmem : chunkTask ∈ state.chunkTasks) : ¬ state.stage.phase ≤ 7 := by
  intro hphase
  rw [hshape.idle hphase] at hmem
  cases hmem

theorem Reusing.chunkStep (hreusing : ctx.Reusing oldData staging world.disk state)
    (hlayout : Layout ctx.task.size ctx.task.chunks length)
    (hapart : ctx.stagingPlace ≠ ctx.finalPlace) (hshape : ctx.FileShape world.disk state)
    (hstep : ctx.ChunkStep world state position fault world' state') :
    ctx.Reusing oldData staging world'.disk state' := by
  obtain ⟨hstage', chunkTask, hmem, hpending⟩ := chunkStep_pending hstep
  have hlate := late_of_pending hshape hmem
  unfold Reusing at hreusing ⊢
  rw [hstage']
  cases hstage : state.stage with
  | spawnChunks index =>
      rw [hstage] at hreusing
      exact Copying.chunkStep hreusing hlayout hapart hshape (by simp [hstage]) hstep
  | awaitChunks index =>
      rw [hstage] at hreusing
      exact Copying.chunkStep hreusing hlayout hapart hshape (by simp [hstage]) hstep
  | rename => exact absurd (hshape.complete (.inl hstage) _ hmem) hpending
  | done outcome =>
      cases outcome with
      | ok => exact absurd (hshape.complete (.inr hstage) _ hmem) hpending
      | error => trivial
  | _ => exact absurd (by simp [hstage]) hlate

theorem prepared_length (hlayout : Layout ctx.task.size ctx.task.chunks length) :
    ctx.task.size = some (ctx.prepared staging).length := by
  unfold prepared
  cases hresumable : ctx.resumable staging with
  | none => simp [hlayout.size]
  | some data => exact (resumable_eq_some.mp hresumable).2

/-- The staging file is open, has its length, and nothing has been copied. -/
theorem Untouched.open {valid : List ChunkId}
    (huntouched : ctx.Untouched oldData (some (ctx.prepared staging)) valid disk state)
    (hlayout : Layout ctx.task.size ctx.task.chunks length)
    (hvalid : valid = ctx.foundValid staging) (hmissed : ctx.Missed oldData staging)
    (hopened : state.file.isSome) (hstage : state.stage = .openOld)
    (hidle : state.chunkTasks = []) :
    ctx.Copying oldData staging (fun _ => False) disk state where
  final := huntouched.final
  missed := hmissed
  opened := hopened
  valid := huntouched.valid.trans hvalid
  fits := by simp [hidle]
  unfetched := by simp [hidle]
  covered _ _ _ hlate := by simp [hstage] at hlate
  regions _ := ⟨_, huntouched.staging,
    .start (prepared_length hlayout) (by simp [FileState.HasWritten, hidle])⟩

/-- The copy loop reads the previous version as it was at the start. -/
theorem Copying.oldData_eq (hcopying : ctx.Copying oldData staging passed disk state)
    (hshape : ctx.FileShape disk state) {oldIno index : Nat}
    (hstage : state.stage = .copyChunks oldIno index) : disk.data oldIno = oldData := by
  have hread := hcopying.final
  rw [FileTree.read_of_link (hshape.old oldIno index hstage).1, Option.some.injEq] at hread
  exact hread

/-- The copy loop has put one chunk in place. -/
theorem Copying.copy {index : Nat} (hcopying : ctx.Copying oldData staging (· < index) disk state)
    (hlayout : Layout ctx.task.size ctx.task.chunks length)
    (hapart : ctx.stagingPlace ≠ ctx.finalPlace) (hshape : ctx.FileShape disk state)
    {oldIno : Nat} {file file' : SharedFile} (hstage : state.stage = .copyChunks oldIno index)
    (hchunk : ctx.task.chunks[index]? = some chunk) (hfile : state.file = some file)
    (hpresent : ctx.silent.oldPresent = false)
    (hplan : ctx.CopyPlan (disk.data oldIno) index chunk offset buffer) :
    ctx.Copying oldData staging (· < index + 1)
      (disk.store file.ino (Bytes.writeAt (disk.data file.ino) offset buffer))
      { state with stage := .copyChunks oldIno (index + 1), file := some file' } := by
  rw [hcopying.oldData_eq hshape hstage] at hplan
  obtain ⟨hoffset, hplanned⟩ := (copyPlan_iff hpresent).mp hplan
  have hlink := hshape.linked file hfile (by simp [hstage])
  have hidle := hshape.idle (by simp [hstage])
  exact
    { hcopying with
      final := (FileTree.store_changesOnly hlink _ _ hapart.symm).read_eq.trans hcopying.final
      opened := rfl
      covered := fun _ _ _ hlate => by simp at hlate
      regions := by
        intro hhealthy
        obtain ⟨data, hread, hregions⟩ := hcopying.regions hhealthy
        rw [FileTree.read_of_link hlink, Option.some.injEq] at hread
        refine ⟨_, FileTree.read_store_self hlink _, ?_⟩
        rw [hread]
        apply hregions.write hlayout hchunk hoffset (planned_length hplanned)
        · intro other hne
          exact ⟨by omega, Iff.rfl⟩
        · exact .inr ⟨by simp [FileState.HasWritten, hidle], Nat.lt_succ_self index, hplanned⟩ }

/-- The copy loop comes past a chunk that it cannot read: the layout places every chunk. -/
theorem Copying.leave {index oldIno : Nat}
    (hcopying : ctx.Copying oldData staging (· < index) disk state)
    (hlayout : Layout ctx.task.size ctx.task.chunks length)
    (hchunk : ctx.task.chunks[index]? = some chunk) (hpresent : ctx.silent.oldPresent = false)
    (hnone : ∀ offset buffer, ¬ ctx.CopyPlan oldData index chunk offset buffer) :
    ctx.Copying oldData staging (· < index + 1) disk
      (state.withStage (.copyChunks oldIno (index + 1))) := by
  apply hcopying.goto
  · intro other otherChunk hother _
    by_cases heq : other = index
    · subst heq
      obtain rfl : chunk = otherChunk := Option.some.inj (hchunk.symm.trans hother)
      obtain ⟨offset, _, hoffset, _⟩ :=
        (hlayout.complete chunk (List.mem_of_getElem? hchunk)).region
      refine .inr (Option.eq_none_iff_forall_ne_some.mpr ?_)
      intro buffer hplanned
      exact hnone offset buffer ((copyPlan_iff hpresent).mpr ⟨hoffset, hplanned⟩)
    · exact .inl (by omega)
  · simp

/-- The copy loop is left out: no chunk is listed, or the previous version, which is on disk,
is not seen. -/
theorem Copying.leaveAll (hcopying : ctx.Copying oldData staging (fun _ => False) disk state)
    (hnone : ctx.task.oldChunks = none ∨ disk.link ctx.finalPlace = none ∨
      ctx.silent.oldPresent = true) :
    ctx.Copying oldData staging (fun _ => True) disk (state.withStage (.spawnChunks 0)) := by
  apply hcopying.goto
  · intro index chunk _ hlisted
    rcases hnone with hnone | hnone | habsent
    · obtain ⟨chunkId, _, hmatch⟩ := hlisted
      simp [oldMatch, hnone] at hmatch
    · have hread := hcopying.final
      simp [FileTree.read, hnone] at hread
    · exact .inr (planned_of_absent habsent)
  · simp

/-- The loop comes past a listed chunk exactly when it sees the previous version, or the
chunk was found valid. -/
theorem Copying.skips_iff (hcopying : ctx.Copying oldData staging passed disk state) {index : Nat}
    {chunkId : ChunkId} (hid : chunk.id = some chunkId) (hlisted : ctx.Listed chunk) :
    ctx.skipsChunk disk state index chunkId = true ↔ ¬ ctx.Refetched staging index chunk := by
  obtain ⟨listedId, hlistedId, hmatch⟩ := hlisted
  obtain rfl : listedId = chunkId := Option.some.inj (hlistedId.symm.trans hid)
  obtain ⟨old, hold⟩ := Option.isSome_iff_exists.mp hmatch
  obtain ⟨oldChunks, holdChunks, hfind⟩ := Option.bind_eq_some_iff.mp hold
  have hpresent := FileTree.present_iff_read.mpr ⟨_, hcopying.final⟩
  have hany : oldChunks.any (fun old => old.id == some listedId) = true :=
    List.any_eq_true.mpr ⟨old, List.mem_of_find?_eq_some hfind,
      by simpa using List.find?_some hfind⟩
  have hfound : ctx.NotFound staging chunk ↔ listedId ∉ ctx.foundValid staging := by
    constructor
    · exact fun hnot hmem => hnot listedId hmem hid
    · intro hnot other hmem hother
      obtain rfl : listedId = other := Option.some.inj (hid.symm.trans hother)
      exact hnot hmem
  simp only [skipsChunk, hcopying.valid, holdChunks, hpresent, hany, Refetched, hfound,
    Bool.true_and, Bool.and_true, Bool.or_eq_true, List.contains_iff_mem, Bool.not_eq_true']
  grind

/-- The loop comes past a chunk that is not fetched. -/
theorem Copying.skip {index : Nat} (hcopying : ctx.Copying oldData staging passed disk state)
    (hlayout : Layout ctx.task.size ctx.task.chunks length)
    (hstage : state.stage = .spawnChunks index) (hchunk : ctx.task.chunks[index]? = some chunk)
    (hskip : ∀ chunkId, chunk.id = some chunkId →
      ctx.skipsChunk disk state index chunkId = true) :
    ctx.Copying oldData staging passed disk (state.withStage (.spawnChunks (index + 1))) :=
  { hcopying with
    covered := by
      intro other otherChunk hother hlate hlisted hrefetched
      rcases Nat.lt_succ_iff_lt_or_eq.mp hlate with hlt | rfl
      · exact hcopying.covered other otherChunk hother (by simpa [hstage] using hlt) hlisted
          hrefetched
      · rw [hchunk, Option.some.injEq] at hother
        subst hother
        obtain ⟨chunkId, hid⟩ := Option.isSome_iff_exists.mp
          (hlayout.complete chunk (List.mem_of_getElem? hchunk)).id
        exact absurd hrefetched ((hcopying.skips_iff hid hlisted).mp (hskip chunkId hid)) }

/-- A chunk task is spawned for a chunk that is not listed, or that is fetched after
all. -/
theorem Copying.spawn {index : Nat} {chunkId : ChunkId}
    (hcopying : ctx.Copying oldData staging passed disk state)
    (hstage : state.stage = .spawnChunks index) (hid : chunk.id = some chunkId)
    (hnoskip : ctx.skipsChunk disk state index chunkId = false) :
    ctx.Copying oldData staging passed disk
      { state with
        stage := .spawnChunks (index + 1)
        chunkTasks := state.chunkTasks ++ [⟨index, chunk, chunkId, .fetch 0⟩] } :=
  { hcopying with
    fits := by
      intro chunkTask hmem
      rcases List.mem_append.mp hmem with hold | hnew
      · exact hcopying.fits chunkTask hold
      · rw [List.mem_singleton.mp hnew]
        trivial
    unfetched := by
      intro chunkTask hmem
      rcases List.mem_append.mp hmem with hold | hnew
      · exact hcopying.unfetched chunkTask hold
      · rw [List.mem_singleton.mp hnew]
        intro hlisted
        by_contra hkept
        rw [(hcopying.skips_iff hid hlisted).mpr hkept] at hnoskip
        cases hnoskip
    covered := by
      intro other otherChunk hother hlate hlisted hrefetched
      rcases Nat.lt_succ_iff_lt_or_eq.mp hlate with hlt | rfl
      · obtain ⟨chunkTask, hmem, hindex⟩ := hcopying.covered other otherChunk hother
          (by simpa [hstage] using hlt) hlisted hrefetched
        exact ⟨chunkTask, List.mem_append_left _ hmem, hindex⟩
      · exact ⟨_, List.mem_append_right _ (List.mem_singleton_self _), rfl⟩
    regions := by
      intro hhealthy
      obtain ⟨data, hread, hregions⟩ := hcopying.regions fun chunkTask hmem error =>
        hhealthy chunkTask (List.mem_append_left _ hmem) error
      exact ⟨data, hread, hregions.congr fun _ => FileState.hasWritten_spawn rfl⟩ }

/-- When the task renames, the listed chunks that have been written are those that were
fetched after all. -/
theorem Copying.hasWritten_iff (hcopying : ctx.Copying oldData staging passed disk state)
    (hlayout : Layout ctx.task.size ctx.task.chunks length) (hshape : ctx.FileShape disk state)
    (hstage : state.stage = .rename) {index : Nat} (hchunk : ctx.task.chunks[index]? = some chunk)
    (hlisted : ctx.Listed chunk) :
    state.HasWritten index ↔ ctx.Refetched staging index chunk := by
  have hindexed {chunkTask : ChunkTask} (hmem : chunkTask ∈ state.chunkTasks)
      (hindex : chunkTask.index = index) : chunkTask.chunk = chunk := by
    have htask := (hshape.tasks chunkTask hmem).indexed
    rw [hindex, hchunk, Option.some.injEq] at htask
    exact htask.symm
  constructor
  · rintro ⟨chunkTask, hmem, hwritten⟩
    have hsame := hindexed hmem hwritten.index
    have hrefetched := hcopying.unfetched chunkTask hmem (hsame ▸ hlisted)
    rwa [hwritten.index, hsame] at hrefetched
  · intro hrefetched
    obtain ⟨chunkTask, hmem, hindex⟩ :=
      hcopying.covered index chunk hchunk (by simp [hstage]) hlisted hrefetched
    obtain ⟨_, _, hoffset, _⟩ := (hlayout.complete chunk (List.mem_of_getElem? hchunk)).region
    refine ⟨chunkTask, hmem, hindex, hshape.complete (.inl hstage) chunkTask hmem, ?_⟩
    rw [hindexed hmem hindex, hoffset]
    rfl

/-- Before the staging file is opened only the stage and the valid identifiers
change. -/
theorem Untouched.goto {valid valid' : List ChunkId} {stage : FileStage}
    (huntouched : ctx.Untouched oldData staging valid disk state) :
    ctx.Untouched oldData staging valid' disk
      { state with stage := stage, validChunks := valid' } where
  final := huntouched.final
  staging := huntouched.staging
  valid := rfl

/-- The moves of the file task itself lead from stage to stage. -/
theorem Reusing.mainStep (hreusing : ctx.Reusing oldData staging world.disk state)
    (hlayout : Layout ctx.task.size ctx.task.chunks length)
    (hapart : ctx.stagingPlace ≠ ctx.finalPlace) (hshape : ctx.FileShape world.disk state)
    (hstep : ctx.MainStep world state fault world' state') :
    ctx.Reusing oldData staging world'.disk state' := by
  unfold Reusing at hreusing
  cases hstep with
  | stagingDir hstage | noStagingDir hstage | finalDir hstage | noFinalDir hstage =>
      rw [hstage] at hreusing
      exact ⟨hreusing.final, hreusing.staging, hreusing.valid⟩
  | finalValid hstage hvalid =>
      rw [hstage] at hreusing
      exact Reused.valid hreusing.final (hshape.unopened (by simp [hstage]))
        ((finalValid_iff hreusing.final).mp hvalid)
  | finalInvalid hstage hinvalid =>
      rw [hstage] at hreusing
      refine ⟨⟨hreusing.final, hreusing.staging, hreusing.valid⟩, ?_⟩
      intro hsees
      rw [(finalValid_iff hreusing.final).mpr hsees] at hinvalid
      cases hinvalid
  -- all chunks are valid in the staging file, so it is renamed as it is
  | @stagingComplete data hstage hseen hsize hall =>
      rw [hstage] at hreusing
      rw [hreusing.1.staging] at hseen
      refine .inl ⟨hshape.unopened (by simp [hstage]), ⟨data, ?_, hall⟩, hreusing.1.staging⟩
      exact resumable_eq_some.mpr ⟨hseen, hsize⟩
  | @stagingPartial data hstage hseen hsize hpart =>
      rw [hstage] at hreusing
      rw [hreusing.1.staging] at hseen
      have hresumable : ctx.resumable staging = some data :=
        resumable_eq_some.mpr ⟨hseen, hsize⟩
      refine ⟨⟨hreusing.1.final, hreusing.1.staging, (foundValid_of_some hresumable).symm⟩,
        ⟨hreusing.2, ?_⟩, ?_⟩
      · exact fun hcomplete => hpart ((stagingComplete_iff hresumable).mp hcomplete)
      · rw [hresumable]
        rfl
  | stagingMissing hstage hmissing =>
      rw [hstage] at hreusing
      rw [hreusing.1.staging] at hmissing
      have hresumable : ctx.resumable staging = none := resumable_eq_none hmissing
      refine ⟨⟨hreusing.1.final, hreusing.1.staging, ?_⟩,
        ⟨hreusing.2, not_stagingComplete hresumable⟩, ?_⟩
      · rw [foundValid_of_none hresumable]
        exact hreusing.1.valid
      · rw [hresumable]
        rfl
  | @resumed ino hstage hlink =>
      rw [hstage] at hreusing
      obtain ⟨huntouched, hmissed, hresuming⟩ := hreusing
      have hprepared := staging_eq_prepared hresuming.symm
      have hopen : ctx.Untouched oldData (some (ctx.prepared staging)) (ctx.foundValid staging)
          world.disk { state with stage := .openOld, file := some ⟨ino, 0, none⟩ } :=
        ⟨huntouched.final, huntouched.staging.trans hprepared, huntouched.valid⟩
      exact hopen.open hlayout rfl hmissed rfl rfl (hshape.idle (by simp [hstage]))
  | created hstage =>
      rw [hstage] at hreusing
      obtain ⟨huntouched, hmissed, hresuming⟩ := hreusing
      refine ⟨⟨?_, ?_, huntouched.valid⟩, hmissed,
        Option.isNone_iff_eq_none.mp (Option.isSome_eq_false_iff.mp hresuming.symm)⟩
      · exact (FileTree.openTruncate_changesOnly world.disk _ _ hapart.symm).read_eq.trans
          huntouched.final
      · rw [World.emit_disk, World.withDisk_disk,
          FileTree.read_of_link (FileTree.openTruncate_link _ _), FileTree.openTruncate_data]
  | @sized size file hstage hsize hfile =>
      rw [hstage] at hreusing
      obtain ⟨huntouched, hmissed, hresumable⟩ := hreusing
      have hlink := hshape.linked file hfile (by simp [hstage])
      have hblank := huntouched.staging
      rw [FileTree.read_of_link hlink, Option.some.injEq] at hblank
      have hopen : ctx.Untouched oldData (some (ctx.prepared staging)) (ctx.foundValid staging)
          (world.disk.store file.ino (Bytes.resize (world.disk.data file.ino) size))
          (state.withStage .openOld) := by
        refine ⟨?_, ?_, huntouched.valid⟩
        · exact (FileTree.store_changesOnly hlink _ _ hapart.symm).read_eq.trans huntouched.final
        · rw [FileTree.read_store_self hlink, hblank, prepared, hresumable, hsize]
          rfl
      exact hopen.open hlayout rfl hmissed (by simp [hfile]) rfl
        (hshape.idle (by simp [hstage]))
  | unsized hstage hsize =>
      rw [hlayout.size] at hsize
      cases hsize
  | oldOpened hstage hold hlink hpresent =>
      rw [hstage] at hreusing
      refine ⟨Copying.goto hreusing _ ?_ (by simp), hpresent⟩
      intro index chunk hchunk hlisted
      exact .inl ⟨fun hlt => absurd hlt (Nat.not_lt_zero index), False.elim⟩
  | oldMissing hstage hnone =>
      rw [hstage] at hreusing
      exact Copying.leaveAll hreusing hnone
  | copied hstage hchunk hfile hplan =>
      rw [hstage] at hreusing
      obtain ⟨hcopying, hpresent⟩ := hreusing
      exact ⟨hcopying.copy hlayout hapart hshape hstage hchunk hfile hpresent hplan, hpresent⟩
  | copyFault => trivial
  | notCopied hstage hchunk hnone =>
      rw [hstage] at hreusing
      obtain ⟨hcopying, hpresent⟩ := hreusing
      rw [hcopying.oldData_eq hshape hstage] at hnone
      exact ⟨hcopying.leave hlayout hchunk hpresent hnone, hpresent⟩
  | copyDone hstage hend =>
      rw [hstage] at hreusing
      refine hreusing.1.goto _ ?_ (by simp)
      intro index chunk hchunk hlisted
      have hindex := (List.getElem?_eq_some_iff.mp hchunk).1
      have hnext := List.getElem?_eq_none_iff.mp hend
      exact .inl ⟨fun _ => by omega, fun _ => trivial⟩
  | @chunkSkipped index chunk hstage hchunk hskip =>
      rw [hstage] at hreusing
      exact Copying.skip hreusing hlayout hstage hchunk hskip
  | chunkSpawned hstage hchunk hid hnoskip =>
      rw [hstage] at hreusing
      exact Copying.spawn hreusing hstage hid hnoskip
  | @spawnDone index hstage hend =>
      rw [hstage] at hreusing
      refine Copying.goto hreusing _ (fun _ _ _ _ => .inl Iff.rfl) fun other _ hother _ _ => ?_
      have hindex := (List.getElem?_eq_some_iff.mp hother).1
      have hnext := List.getElem?_eq_none_iff.mp hend
      simp only [hstage, FileStage.spawned]
      omega
  | awaited hstage =>
      rw [hstage] at hreusing
      exact Copying.goto hreusing _ (fun _ _ _ _ => .inl Iff.rfl) (by simp [hstage])
  | awaitDone hstage hend =>
      rw [hstage] at hreusing
      exact .inr (Copying.goto hreusing _ (fun _ _ _ _ => .inl Iff.rfl) (by simp [hstage]))
  | renamed hstage hrename =>
      rw [hstage] at hreusing
      have hread := FileTree.rename_read_target hrename
      -- either the staging file was complete from the start, or the chunks were put in place
      rcases hreusing with ⟨hfile, ⟨data, hresumable, hall⟩, hstaging⟩ | hcopying
      · refine Reused.finished (hread.trans ?_) hfile hresumable hall
        rw [hstaging]
        exact resumable_read hresumable
      · obtain ⟨data, hdata, hregions⟩ :=
          hcopying.regions (hshape.healthy_of_complete (.inl hstage))
        exact Reused.copied (hread.trans hdata) hcopying.missed hcopying.opened hcopying.valid
          hcopying.unfetched (fun _ _ => hcopying.hasWritten_iff hlayout hshape hstage) hregions
  | failed => trivial

theorem Reusing.step {move : FileMove} (hreusing : ctx.Reusing oldData staging world.disk state)
    (hlayout : Layout ctx.task.size ctx.task.chunks length)
    (hapart : ctx.stagingPlace ≠ ctx.finalPlace) (hshape : ctx.FileShape world.disk state)
    (hstep : ctx.step (world, state) move = some (world', state')) :
    ctx.Reusing oldData staging world'.disk state' := by
  rcases step_cases hstep with hmain | ⟨_, hchunk⟩
  · exact hreusing.mainStep hlayout hapart hshape hmain
  · exact hreusing.chunkStep hlayout hapart hshape hchunk

end FileContext

end DepotDownloader.SteamClient
