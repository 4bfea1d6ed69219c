import DepotDownloader.SteamClient.Download.FailureSafety
import DepotDownloader.SteamClient.Download.FileContent

/-! # What a successful download leaves

A file that was downloaded passes the check that a later download makes of it:
the checks on the way to the disk and the check of what is on the disk agree.
For a file that is resumed or takes chunks of a previous version this needs what
those sources promise.
-/

namespace DepotDownloader.SteamClient

open Foundation Foundation.LexPath Steam

/-- The bytes have the length and the checksum that the chunk announces. -/
def Matches (chunk : ManifestChunk) (bytes : Bytes) : Prop :=
  chunk.uncompressedSize = some bytes.length ∧
    chunk.checksum = some (SteamAdler32.compute bytes)

theorem chunkValid_iff {data : Bytes} {chunk : ManifestChunk} :
    chunkValid data chunk = true ↔ ∃ offset size bytes, chunk.offset = some offset ∧
      chunk.uncompressedSize = some size ∧ Bytes.readAt data offset size = some bytes ∧
        Matches chunk bytes := by
  unfold chunkValid Matches
  cases hoffset : chunk.offset with
  | none => simp
  | some offset =>
      cases hsize : chunk.uncompressedSize with
      | none => simp
      | some size =>
          cases hchecksum : chunk.checksum with
          | none => simp
          | some checksum =>
              cases hread : Bytes.readAt data offset size with
              | none => simp [hread]
              | some bytes =>
                  have hlength := Bytes.length_of_readAt hread
                  simp only [beq_iff_eq, Option.some.injEq, exists_and_left, exists_eq_left', hread,
                    hlength, true_and]
                  exact eq_comm

/-- Chunks that carry the same identifier are the same chunk. -/
def DistinctIds (chunks : List ManifestChunk) : Prop :=
  ∀ chunk ∈ chunks, ∀ chunk' ∈ chunks, chunk.id = chunk'.id → chunk = chunk'

/-- A chunk of the previous version that the new version takes over is on the disk,
and is the chunk that the new version wants. -/
structure Reusable (chunks oldChunks : List ManifestChunk) (oldData : Bytes) : Prop where
  valid : ∀ old ∈ oldChunks, ∀ chunk ∈ chunks, old.id = chunk.id → old.id.isSome →
    chunkValid oldData old = true
  same : ∀ old ∈ oldChunks, ∀ chunk ∈ chunks, old.id = chunk.id → old.id.isSome →
    old.uncompressedSize = chunk.uncompressedSize ∧ old.checksum = chunk.checksum

namespace FileContext

variable (ctx : FileContext)

/-- A download that accepts, for a chunk, bytes of its length and checksum. -/
def checkedAssembly (final staging : Option Bytes) : Assembly where
  length := ctx.task.size.getD 0
  good index bytes := ∃ chunk, ctx.task.chunks[index]? = some chunk ∧ Matches chunk bytes
  final := final
  staging := ctx.seenStaging staging

/-- The identifier of the chunk occurs in `old_chunks`. -/
def Listed (chunk : ManifestChunk) : Prop :=
  ∃ chunkId, chunk.id = some chunkId ∧ (ctx.oldMatch chunkId).isSome

/-- The copy loop is entered, and no read of it fails at a listed chunk. -/
def ReadsListed : Prop :=
  ∀ index chunk, ctx.task.chunks[index]? = some chunk → ctx.Listed chunk →
    ctx.silent.oldPresent = false ∧ ctx.silent.oldChunk index = false

variable {ctx} {final staging : Option Bytes} {data : Bytes}

theorem ReadsListed.of_none (hsilent : ctx.silent = .none) : ctx.ReadsListed := by
  intro index chunk _ _
  rw [hsilent]
  exact ⟨rfl, rfl⟩

theorem placed_of_chunkValid {index : Nat} {chunk : ManifestChunk}
    (hchunk : ctx.task.chunks[index]? = some chunk) (hvalid : chunkValid data chunk = true) :
    (ctx.checkedAssembly final staging).Placed data index chunk := by
  obtain ⟨offset, size, bytes, hoffset, hsize, hread, hmatches⟩ := chunkValid_iff.mp hvalid
  exact ⟨offset, size, bytes, hoffset, hsize, hread, chunk, hchunk, hmatches⟩

theorem chunkValid_of_placed {index : Nat} {chunk : ManifestChunk}
    (hchunk : ctx.task.chunks[index]? = some chunk)
    (hplaced : (ctx.checkedAssembly final staging).Placed data index chunk) :
    chunkValid data chunk = true := by
  obtain ⟨offset, size, bytes, hoffset, hsize, hread, other, hother, hmatches⟩ := hplaced
  rw [hchunk, Option.some.injEq] at hother
  exact chunkValid_iff.mpr ⟨offset, size, bytes, hoffset, hsize, hread, hother ▸ hmatches⟩

/-- What a completed download leaves passes the check of the final file. -/
theorem valid_of_complete {length : Nat} (hlayout : Layout ctx.task.size ctx.task.chunks length)
    (hcomplete : ctx.Complete (ctx.checkedAssembly final staging) data) :
    ctx.task.size = some data.length ∧ ∀ chunk ∈ ctx.task.chunks, chunkValid data chunk = true := by
  have hsize : ctx.task.size = some (ctx.checkedAssembly final staging).length := by
    simp [checkedAssembly, hlayout.size]
  rcases hcomplete with ⟨_, hlength, hall⟩ | hassembled
  · exact ⟨hlength ▸ hsize, hall⟩
  · refine ⟨hassembled.length ▸ hsize, fun chunk hmem => ?_⟩
    obtain ⟨index, hindex⟩ := List.mem_iff_getElem?.mp hmem
    exact chunkValid_of_placed hindex (hassembled.placed index chunk hindex trivial)

/-- The sources of a checked download: a staging file is only resumed where
identifiers are distinct, and a previous version is only used where it is
reusable and can be read. -/
theorem checked_sound {length : Nat} (hlayout : Layout ctx.task.size ctx.task.chunks length)
    (hapart : ctx.stagingPlace ≠ ctx.finalPlace)
    (hresume : staging = none ∨ DistinctIds ctx.task.chunks)
    (hreuse : ∀ oldData oldChunks, final = some oldData → ctx.task.oldChunks = some oldChunks →
      Reusable ctx.task.chunks oldChunks oldData)
    (hreads : final.isSome → ctx.ReadsListed) :
    ctx.Sound (ctx.checkedAssembly final staging) := by
  have hlength : (ctx.checkedAssembly final staging).length = length := by
    simp [checkedAssembly, hlayout.size]
  -- the chunk of the previous version that an identifier leads to
  have hmatch {oldData : Bytes} {chunk : ManifestChunk} {chunkId : ChunkId} {old : ManifestChunk}
      (hfinal : final = some oldData) (hmem : chunk ∈ ctx.task.chunks)
      (hid : chunk.id = some chunkId) (hold : ctx.oldMatch chunkId = some old) :
      chunkValid oldData old = true ∧ old.uncompressedSize = chunk.uncompressedSize ∧
        old.checksum = chunk.checksum := by
    obtain ⟨oldChunks, hchunks, hfind⟩ := Option.bind_eq_some_iff.mp hold
    have holdId : old.id = some chunkId := by simpa using List.find?_some hfind
    have holdMem := List.mem_of_find?_eq_some hfind
    have hreusable := hreuse oldData oldChunks hfinal hchunks
    have hsome : old.id.isSome := by simp [holdId]
    exact ⟨hreusable.valid old holdMem chunk hmem (holdId.trans hid.symm) hsome,
      hreusable.same old holdMem chunk hmem (holdId.trans hid.symm) hsome⟩
  refine
    { layout := by rw [hlength]; exact hlayout
      apart := .inl hapart
      resumed := fun data hstaging _ index chunk chunkId hchunk hid hvalid => ?_
      copyable := fun oldData hfinal index chunk chunkId hchunk hid hold => ?_
      copied := fun oldData hfinal index chunk offset buffer hchunk hplan => ?_
      processed := fun chunkTask _ _ data hshape _ hprocessed =>
        ⟨chunkTask.chunk, hshape.indexed, processed_ok hprocessed⟩ }
  · obtain ⟨_, chunk', hchunk', _, hvalid', hid'⟩ := mem_validChunkIds.mp hvalid
    have hdistinct := hresume.resolve_left fun hnone => by
      rw [(seenStaging_eq_some.mp hstaging).2] at hnone
      cases hnone
    have heq := hdistinct chunk (List.mem_of_getElem? hchunk) chunk'
      (List.mem_of_getElem? hchunk') (hid.trans hid'.symm)
    exact placed_of_chunkValid hchunk (heq ▸ hvalid')
  · have hmem := List.mem_of_getElem? hchunk
    obtain ⟨hpresent, hreadable⟩ := hreads (by simp [show final = some oldData from hfinal]) index
      chunk hchunk ⟨chunkId, hid, hold⟩
    obtain ⟨old, hold⟩ := Option.isSome_iff_exists.mp hold
    obtain ⟨hvalid, hsize, _⟩ := hmatch hfinal hmem hid hold
    obtain ⟨oldOffset, size, bytes, hoffset, holdSize, hread, _⟩ := chunkValid_iff.mp hvalid
    obtain ⟨offset, _, hplaced, _⟩ := (hlayout.complete chunk hmem).region
    exact ⟨hpresent, offset, bytes, hplaced, chunkId, old, oldOffset, size, hid, hold, hoffset,
      hsize.symm.trans holdSize, readOld_eq_some.mpr ⟨hreadable, hread⟩⟩
  · obtain ⟨chunkId, old, oldOffset, size, hid, hold, hoffset, hsize, hread⟩ := hplan.source
    obtain ⟨hvalid, holdSize, hchecksum⟩ :=
      hmatch hfinal (List.mem_of_getElem? hchunk) hid hold
    obtain ⟨offset', size', bytes, hoffset', hsize', hread', hmatches⟩ := chunkValid_iff.mp hvalid
    rw [hoffset, Option.some.injEq] at hoffset'
    rw [holdSize, hsize, Option.some.injEq] at hsize'
    rw [← hoffset', ← hsize', (readOld_eq_some.mp hread).2, Option.some.injEq] at hread'
    subst hread'
    exact ⟨chunk, hchunk, holdSize ▸ hmatches.1, hchecksum ▸ hmatches.2⟩

/-- A file task that has returned Ok only promises its final file. -/
theorem FileContent.of_done {spec : Assembly} {disk disk' : Disk} {state : FileState}
    (hcontent : ctx.FileContent spec disk state) (hdone : state.stage = .done (.ok ()))
    (hfinal : disk'.read ctx.finalPlace = disk.read ctx.finalPlace) :
    ctx.FileContent spec disk' state where
  final h := absurd hdone h
  staging h := by simp [hdone] at h
  fresh := hcontent.fresh
  zero := hcontent.zero
  blank h := by simp [hdone] at h
  resumed := hcontent.resumed
  tasks := hcontent.tasks
  assembled _ h := by simp [hdone] at h
  covered := hcontent.covered
  result h := hfinal ▸ hcontent.result h

end FileContext

namespace JobContext

variable (ctx : JobContext)

/-- What the task of a download starts from and aims at. -/
def assembly (start : Disk) (position : Nat) (task : FileTask) : Assembly :=
  (ctx.fileContext position task).checkedAssembly
    (start.read (ctx.job.finalPlace task.filename))
    (start.read (ctx.job.stagingPlace task.filename))

/-- Every task that the download may spawn has trustworthy sources. -/
def SoundTasks (start : Disk) : Prop :=
  ∀ position task, (ctx.tasks start)[position]? = some task →
    (ctx.fileContext position task).Sound (ctx.assembly start position task)

/-- Every task keeps the content invariant. -/
def JobContent (start disk : Disk) (state : JobState) : Prop :=
  ∀ position fileJob, state.files[position]? = some fileJob →
    (ctx.fileContext position fileJob.task).FileContent
      (ctx.assembly start position fileJob.task) disk fileJob.state

variable {ctx} {start : Disk} {world world' : World} {state state' : JobState}

theorem JobShape.not_removes (hshape : ctx.JobShape start world.disk state)
    (hapart : ctx.RemovalApart) {fileJob : FileJob} (hmem : fileJob ∈ state.files) :
    ¬ ctx.Removes (ctx.job.finalPlace fileJob.task.filename) := by
  intro hremoves
  obtain ⟨file, hfile, hspawned⟩ := hshape.task_spec hmem
  obtain ⟨name, hname, _, hdir, _, htask⟩ := DepotJob.spawnedTask_eq_some.mp hspawned
  refine hapart _ hremoves file hfile name hname hdir ?_
  rw [htask]
  rfl

theorem JobContent.step (hcontent : ctx.JobContent start world.disk state)
    (hshape : ctx.JobShape start world.disk state) (hnames : CleanNames ctx.manifest)
    (hapart : ctx.RemovalApart) (hsound : ctx.SoundTasks start) {move : JobMove}
    (hstep : ctx.JobStep world state move world' state') :
    ctx.JobContent start world'.disk state' := by
  intro position fileJob' hget'
  cases hshape.file_cases hnames hstep hget' with
  | same hget htask hstate hplaces =>
      rw [htask, hstate]
      refine (hcontent _ _ hget).of_sameAt (hplaces _ (.inl rfl)) ?_
      rw [hshape.finalPlace_eq _ (List.mem_of_getElem? hget)]
      exact hplaces _ (.inr rfl)
  | removed hget hdeletes hplaces =>
      have hmem := List.mem_of_getElem? hget
      refine (hcontent _ _ hget).of_done (hshape.complete hdeletes _ hmem) ?_
      rw [hshape.finalPlace_eq _ hmem]
      exact (hplaces _ (hshape.not_removes hapart hmem)).read_eq
  | stepped hget htask hfile =>
      rw [htask]
      exact (hcontent _ _ hget).step (hsound _ _ (hshape.task_at hget)) (hshape.shape _ _ hget)
        hfile
  | fresh hmem hspawned hstate _ hdisk =>
      obtain ⟨name, hname, _, _, _, htask⟩ := DepotJob.spawnedTask_eq_some.mp hspawned
      rw [hstate, hdisk, htask]
      refine .initial (hshape.unspawned_same hnames hmem hname (.inr rfl)).read_eq ?_
      exact congrArg _ (hshape.unspawned_same hnames hmem hname (.inl rfl)).read_eq

theorem JobContent.run (hnames : CleanNames ctx.manifest) (hapart : ctx.RemovalApart)
    (hsound : ctx.SoundTasks start) {moves : List JobMove}
    (hrun : ctx.download start moves = some (world, state)) :
    ctx.JobContent start world.disk state := by
  have hstep : ∀ (config : JobConfig) (move : JobMove) (next : JobConfig),
      (ctx.JobShape start config.1.disk config.2 ∧ ctx.JobContent start config.1.disk config.2) →
        True → ctx.machine.step config move = some next →
          ctx.JobShape start next.1.disk next.2 ∧ ctx.JobContent start next.1.disk next.2 :=
    fun _ _ _ hboth _ hnext => ⟨hboth.1.step hnames hnext,
      hboth.2.step hboth.1 hnames hapart hsound (jobStep_cases hnext)⟩
  exact (ctx.machine.run_invariant hstep (fun _ _ => trivial)
    ⟨.initial, by simp [JobContent, JobContext.initial]⟩ hrun).2

/-- The file of an entry passes the check that a download makes of it. -/
def FileValid (job : DepotJob) (disk : Disk) (file : ManifestFile) (name : String) : Prop :=
  fileHasValidChunks disk (job.finalPlace name) file.size file.chunks = true

/-- A file whose task has returned Ok passes the check. -/
theorem JobContent.valid (hcontent : ctx.JobContent start world.disk state)
    (hshape : ctx.JobShape start world.disk state) (hsound : ctx.SoundTasks start)
    {fileJob : FileJob} (hmem : fileJob ∈ state.files)
    (hdone : fileJob.state.stage = .done (.ok ())) :
    fileHasValidChunks world.disk (ctx.job.finalPlace fileJob.task.filename) fileJob.task.size
      fileJob.task.chunks = true := by
  obtain ⟨position, hget⟩ := List.mem_iff_getElem?.mp hmem
  obtain ⟨data, hread, hcomplete⟩ := (hcontent position fileJob hget).result hdone
  have hlayout := (hsound _ _ (hshape.task_at hget)).layout
  obtain ⟨hsize, hall⟩ := FileContext.valid_of_complete hlayout hcomplete
  rw [hshape.finalPlace_eq position hmem] at hread
  exact fileHasValidChunks_iff.mpr ⟨data, hread, hsize, hall⟩

/-- After a download has returned Ok the task of every changed entry has. -/
theorem JobShape.done_of_spawned (hshape : ctx.JobShape start world.disk state)
    (hstage : state.stage = .returned (.ok ())) {file : ManifestFile} {task : FileTask}
    (hfile : file ∈ ctx.manifest.files) (hspawned : ctx.job.spawnedTask start file = some task) :
    ∃ fileJob ∈ state.files, fileJob.task = task ∧ fileJob.state.stage = .done (.ok ()) := by
  obtain ⟨passed, hfiles, htasks⟩ := hshape.spawned
  have hpassed : file ∈ passed := by simpa [hfiles, hstage] using hfile
  have htask : task ∈ state.files.map FileJob.task := by
    rw [htasks]
    exact List.mem_filterMap.mpr ⟨file, hpassed, hspawned⟩
  obtain ⟨fileJob, hmem, heq⟩ := List.mem_map.mp htask
  exact ⟨fileJob, hmem, heq, hshape.complete (by simp [hstage]) fileJob hmem⟩

/-- After a download has returned Ok every selected entry passes the check, unless
it was taken for unchanged and its file is the one from before. -/
theorem download_installed (hnames : CleanNames ctx.manifest) (hapart : ctx.RemovalApart)
    (hsound : ctx.SoundTasks start) {moves : List JobMove}
    (hrun : ctx.download start moves = some (world, state))
    (hstage : state.stage = .returned (.ok ())) {file : ManifestFile} {name : String}
    (hfile : file ∈ ctx.manifest.files) (hname : file.filename = some name)
    (hfilter : ctx.job.filteredOut name = false) (hdir : file.isDirectory = false) :
    FileValid ctx.job world.disk file name ∨
      (ctx.job.unchanged start file name = true ∧
        FileTree.SameAt (ctx.job.finalPlace name) start world.disk) := by
  have hshape := JobShape.run hnames hrun
  cases hunchanged : ctx.job.unchanged start file name with
  | false =>
      have hspawned : ctx.job.spawnedTask start file = some (ctx.job.fileTask file name) :=
        DepotJob.spawnedTask_eq_some.mpr ⟨name, hname, hfilter, hdir, hunchanged, rfl⟩
      obtain ⟨fileJob, hmem, heq, hdone⟩ := hshape.done_of_spawned hstage hfile hspawned
      have hvalid := (JobContent.run hnames hapart hsound hrun).valid hshape hsound hmem hdone
      rw [heq] at hvalid
      exact .inl hvalid
  | true =>
      refine .inr ⟨rfl, hshape.touched _ ?_⟩
      have hclean := hnames.clean name (List.mem_filterMap.mpr ⟨file, hfile, hname⟩)
      rintro (⟨fileJob, hmem, hworks⟩ | ⟨_, hremoves⟩)
      · have hclean' := hnames.clean _ (hshape.name_mem hmem)
        rcases hworks with heq | heq
        · exact ctx.job.stagingPlace_ne_finalPlace hclean' hclean heq.symm
        · obtain ⟨other, hother, hspawned⟩ := hshape.task_spec hmem
          obtain ⟨otherName, hotherName, _, _, hchanged, htask⟩ :=
            DepotJob.spawnedTask_eq_some.mp hspawned
          have hsameName : name = fileJob.task.filename :=
            (ctx.job.finalPlace_inj hclean hclean').mp heq
          rw [htask] at hsameName
          have hsameName : name = otherName := hsameName
          subst hsameName
          have hsame := hnames.eq_of_filename hfile hother hname hotherName
          rw [← hsame, hunchanged] at hchanged
          cases hchanged
      · exact hapart _ hremoves file hfile name hname hdir rfl

end JobContext

end DepotDownloader.SteamClient
