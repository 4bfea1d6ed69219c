import DepotDownloader.SteamClient.Download.Installed

/-! # What any end of a download leaves at a place

A download may end with Ok, with an error, or where the process is killed. In
every case a place where a file task has returned Ok holds a file that passes the
check, and any other place holds what it held before, unless it is that of a
staging file or the file there was removed.
-/

namespace DepotDownloader.SteamClient

open Foundation Foundation.LexPath Steam

/-- The bytes pass the check of an entry's size and chunks. -/
def Accepts (file : ManifestFile) (data : Bytes) : Prop :=
  file.size = some data.length ∧ ∀ chunk ∈ file.chunks, chunkValid data chunk = true

theorem fileHasValidChunks_accepts {disk : Disk} {place : Place} {file : ManifestFile} :
    fileHasValidChunks disk place file.size file.chunks = true ↔
      ∃ data, disk.read place = some data ∧ Accepts file data :=
  fileHasValidChunks_iff

/-- The file task of that name has returned Ok. -/
def JobState.completed (state : JobState) (name : String) : Bool :=
  state.files.any fun fileJob =>
    fileJob.task.filename == name && fileJob.state.stage == .done (.ok ())

namespace JobContext

variable (ctx : JobContext)

/-- The entry whose file task has put a file at the place. -/
def placed (state : JobState) (place : Place) : Option ManifestFile :=
  ctx.manifest.files.find? fun file => file.filename.any fun name =>
    state.completed name && ctx.job.finalPlace name == place

/-- The place is that of the staging file of a spawned task. -/
def staged (state : JobState) (place : Place) : Bool :=
  state.files.any fun fileJob => ctx.job.stagingPlace fileJob.task.filename == place

/-- The entry is a file that the job downloads. -/
def Selected (file : ManifestFile) (name : String) : Prop :=
  file ∈ ctx.manifest.files ∧ file.filename = some name ∧ ctx.job.filteredOut name = false ∧
    file.isDirectory = false

variable {ctx} {start : Disk} {world world' : World} {state state' : JobState}

/-- Whatever is placed passes the check. -/
theorem JobContent.placed_accepted (hcontent : ctx.JobContent start world.disk state)
    (hshape : ctx.JobShape start world.disk state) (hnames : CleanNames ctx.manifest)
    (hsound : ctx.SoundTasks start) {place : Place} {entry : ManifestFile}
    (hplaced : ctx.placed state place = some entry) :
    ∃ data, world.disk.read place = some data ∧ Accepts entry data := by
  have hentry := List.mem_of_find?_eq_some hplaced
  have hfound := List.find?_some hplaced
  obtain ⟨name, hname, hboth⟩ := (Option.any_eq_true _ _).mp hfound
  simp only [JobState.completed, Bool.and_eq_true, List.any_eq_true, beq_iff_eq] at hboth
  obtain ⟨⟨fileJob, hmem, rfl, hdone⟩, rfl⟩ := hboth
  obtain ⟨file, hfile, hspawned⟩ := hshape.task_spec hmem
  obtain ⟨other, hother, _, _, _, htask⟩ := DepotJob.spawnedTask_eq_some.mp hspawned
  have hvalid := hcontent.valid hshape hsound hmem hdone
  rw [htask] at hname hvalid
  rw [hnames.eq_of_filename hentry hfile hname hother, htask]
  exact fileHasValidChunks_accepts.mp hvalid

/-- What is placed at the final path of a selected entry is that entry. -/
theorem placed_of_selected (hnames : CleanNames ctx.manifest) {file entry : ManifestFile}
    {name : String} (hselected : ctx.Selected file name)
    (hplaced : ctx.placed state (ctx.job.finalPlace name) = some entry) : entry = file := by
  have hentry := List.mem_of_find?_eq_some hplaced
  have hfound := List.find?_some hplaced
  obtain ⟨other, hother, hboth⟩ := (Option.any_eq_true _ _).mp hfound
  have hplace := beq_iff_eq.mp (Bool.and_eq_true_iff.mp hboth).2
  have hclean (listed : ManifestFile) (hmem : listed ∈ ctx.manifest.files) {name : String}
      (hname : listed.filename = some name) : CleanName name :=
    hnames.clean name (List.mem_filterMap.mpr ⟨listed, hmem, hname⟩)
  have hsame := (ctx.job.finalPlace_inj (hclean entry hentry hother)
    (hclean file hselected.1 hselected.2.1)).mp hplace
  exact hnames.eq_of_filename hentry hselected.1 (hsame ▸ hother) hselected.2.1

/-- A selected entry that was not placed by a download that returned Ok was taken for
unchanged. -/
theorem JobShape.unchanged_of_unplaced (hshape : ctx.JobShape start world.disk state)
    (hstage : state.stage = .returned (.ok ())) {file : ManifestFile} {name : String}
    (hselected : ctx.Selected file name)
    (hunplaced : ctx.placed state (ctx.job.finalPlace name) = none) :
    ctx.job.unchanged start file name = true := by
  obtain ⟨hfile, hname, hfilter, hdir⟩ := hselected
  cases hunchanged : ctx.job.unchanged start file name with
  | true => rfl
  | false =>
      have hspawned : ctx.job.spawnedTask start file = some (ctx.job.fileTask file name) :=
        DepotJob.spawnedTask_eq_some.mpr ⟨name, hname, hfilter, hdir, hunchanged, rfl⟩
      obtain ⟨fileJob, hmem, htask, hdone⟩ := hshape.done_of_spawned hstage hfile hspawned
      have hcompleted : state.completed name = true :=
        List.any_eq_true.mpr ⟨fileJob, hmem, by simp [htask, hdone, DepotJob.fileTask]⟩
      have hnone := List.find?_eq_none.mp hunplaced file hfile
      simp [hname, hcompleted] at hnone

/-- A place that no spawned task works at is as it was, or nothing is there. -/
theorem JobShape.same_or_absent {moves : List JobMove} (hnames : CleanNames ctx.manifest)
    (hrun : ctx.download start moves = some (world, state)) {place : Place}
    (hidle : ¬ ∃ fileJob ∈ state.files, ctx.Works fileJob.task place) :
    FileTree.SameAt place start world.disk ∨ world.disk.read place = none := by
  let invariant (config : JobConfig) : Prop :=
    ctx.JobShape start config.1.disk config.2 ∧
      ((¬ ∃ fileJob ∈ config.2.files, ctx.Works fileJob.task place) →
        FileTree.SameAt place start config.1.disk ∨ config.1.disk.read place = none)
  suffices invariant (world, state) from this.2 hidle
  have hstep : ∀ (config : JobConfig) (move : JobMove) (next : JobConfig), invariant config →
      True → ctx.machine.step config move = some next → invariant next := by
    rintro ⟨world, state⟩ move ⟨world', state'⟩ ⟨hshape, hbefore⟩ - hnext
    refine ⟨hshape.step hnames hnext, fun hidle => ?_⟩
    have hcases := jobStep_cases hnext
    have hidle' : ¬ ∃ fileJob ∈ state.files, ctx.Works fileJob.task place :=
      fun hworks => hidle (works_of_step hcases hworks)
    have hafter (hsame : FileTree.SameAt place world.disk world'.disk) :
        FileTree.SameAt place start world'.disk ∨ world'.disk.read place = none :=
      (hbefore hidle').imp (·.trans hsame) hsame.read_eq.trans
    rcases hshape.disk_step hcases with hfiles | ⟨_, removed, _, hdisk⟩
    · exact hafter (hfiles place hidle')
    · simp only at hdisk ⊢
      by_cases heq : place = removed
      · right
        rw [hdisk, heq, FileTree.remove_read_self]
      · exact hafter (hdisk ▸ FileTree.remove_changesOnly world.disk removed place heq)
  exact ctx.machine.run_invariant hstep (fun _ _ => trivial)
    ⟨.initial, fun _ => .inl (FileTree.SameAt.refl _ _)⟩ hrun

/-- A file that is there, but neither placed nor a staging file, is as it was. -/
theorem JobShape.same_of_unplaced (hshape : ctx.JobShape start world.disk state)
    {moves : List JobMove} (hnames : CleanNames ctx.manifest)
    (hrun : ctx.download start moves = some (world, state)) {place : Place}
    (hunplaced : ctx.placed state place = none) (hunstaged : ¬ ctx.staged state place = true)
    (hpresent : world.disk.present place = true) : FileTree.SameAt place start world.disk := by
  by_cases hworks : ∃ fileJob ∈ state.files, ctx.Works fileJob.task place
  · obtain ⟨fileJob, hmem, rfl | rfl⟩ := hworks
    · exact absurd (List.any_eq_true.mpr ⟨fileJob, hmem, by simp⟩) hunstaged
    · apply hshape.kept fileJob hmem
      intro hdone
      obtain ⟨file, hfile, hspawned⟩ := hshape.task_spec hmem
      obtain ⟨name, hname, _, _, _, htask⟩ := DepotJob.spawnedTask_eq_some.mp hspawned
      have hcompleted : state.completed name = true :=
        List.any_eq_true.mpr ⟨fileJob, hmem, by simp [htask, hdone, DepotJob.fileTask]⟩
      have hnone := List.find?_eq_none.mp hunplaced file hfile
      simp [hname, hcompleted, htask, DepotJob.fileTask] at hnone
  · rcases same_or_absent hnames hrun hworks with hsame | habsent
    · exact hsame
    · obtain ⟨data, hread⟩ := FileTree.present_iff_read.mp hpresent
      rw [habsent] at hread
      cases hread

/-- A file whose task has returned Ok is there, unless the deletion pass removes it. -/
theorem JobShape.done_present {moves : List JobMove} (hnames : CleanNames ctx.manifest)
    (hrun : ctx.download start moves = some (world, state)) {fileJob : FileJob}
    (hmem : fileJob ∈ state.files) (hdone : fileJob.state.stage = .done (.ok ()))
    (hspared : ¬ ctx.Removes (ctx.job.finalPlace fileJob.task.filename)) :
    world.disk.present (ctx.job.finalPlace fileJob.task.filename) = true := by
  let invariant (config : JobConfig) : Prop :=
    ctx.JobShape start config.1.disk config.2 ∧
      ∀ (position : Nat) (fileJob : FileJob), config.2.files[position]? = some fileJob →
        fileJob.state.stage = .done (.ok ()) →
          ¬ ctx.Removes (ctx.job.finalPlace fileJob.task.filename) →
            config.1.disk.present (ctx.job.finalPlace fileJob.task.filename) = true
  suffices invariant (world, state) by
    obtain ⟨position, hget⟩ := List.mem_iff_getElem?.mp hmem
    exact this.2 position fileJob hget hdone hspared
  have hstep : ∀ (config : JobConfig) (move : JobMove) (next : JobConfig), invariant config →
      True → ctx.machine.step config move = some next → invariant next := by
    rintro ⟨world, state⟩ move ⟨world', state'⟩ ⟨hshape, hbefore⟩ - hnext
    refine ⟨hshape.step hnames hnext, fun position fileJob' hget' hdone' hspared => ?_⟩
    cases hshape.file_cases hnames (jobStep_cases hnext) hget' with
    | same hget htask hstate hplaces =>
        rw [htask] at hspared ⊢
        rw [(hplaces _ (.inr rfl)).present_eq]
        exact hbefore _ _ hget (hstate ▸ hdone') hspared
    | removed hget _ hplaces =>
        rw [(hplaces _ hspared).present_eq]
        exact hbefore _ _ hget hdone' hspared
    | stepped hget htask hfile =>
        rw [htask] at hspared ⊢
        exact hshape.present_of_step hnames hget hfile
          (fun hdone => hbefore _ _ hget hdone hspared) hdone'
    | fresh _ _ hstate =>
        rw [hstate] at hdone'
        cases hdone'
  exact ctx.machine.run_invariant hstep (fun _ _ => trivial)
    ⟨.initial, by simp [JobContext.initial]⟩ hrun

/-- A file that is no staging file stays, unless the deletion pass removes it. -/
theorem download_keeps {moves : List JobMove} (hnames : CleanNames ctx.manifest)
    (hrun : ctx.download start moves = some (world, state)) {place : Place}
    (hunstaged : ∀ name ∈ manifestNames ctx.manifest, place ≠ ctx.job.stagingPlace name)
    (hspared : ¬ ctx.Removes place) (hpresent : start.present place = true) :
    world.disk.present place = true := by
  have hshape := JobShape.run hnames hrun
  by_cases hworks : ∃ fileJob ∈ state.files, ctx.Works fileJob.task place
  · obtain ⟨fileJob, hmem, rfl | rfl⟩ := hworks
    · exact absurd rfl (hunstaged _ (hshape.name_mem hmem))
    · by_cases hdone : fileJob.state.stage = .done (.ok ())
      · exact JobShape.done_present hnames hrun hmem hdone hspared
      · rw [(hshape.kept fileJob hmem hdone).present_eq]
        exact hpresent
  · have hsame : FileTree.SameAt place start world.disk := by
      apply hshape.touched
      rintro (hworks' | ⟨_, hremoves⟩)
      · exact hworks hworks'
      · exact hspared hremoves
    rw [hsame.present_eq]
    exact hpresent

/-- After a download has returned Ok every selected file is there, unless the deletion
pass removes it. -/
theorem download_present {moves : List JobMove} (hnames : CleanNames ctx.manifest)
    (hrun : ctx.download start moves = some (world, state))
    (hok : state.stage = .returned (.ok ())) {file : ManifestFile} {name : String}
    (hselected : ctx.Selected file name) (hspared : ¬ ctx.Removes (ctx.job.finalPlace name)) :
    world.disk.present (ctx.job.finalPlace name) = true := by
  obtain ⟨hfile, hname, hfilter, hdir⟩ := hselected
  cases hunchanged : ctx.job.unchanged start file name with
  | true =>
      obtain ⟨old, _, hboth⟩ := (Option.any_eq_true _ _).mp hunchanged
      have hclean {listed : String} (hmem : listed ∈ manifestNames ctx.manifest) :=
        hnames.clean listed hmem
      have hmem : name ∈ manifestNames ctx.manifest := List.mem_filterMap.mpr ⟨file, hfile, hname⟩
      apply download_keeps hnames hrun _ hspared (Bool.and_eq_true_iff.mp hboth).2
      intro other hother heq
      exact ctx.job.stagingPlace_ne_finalPlace (hclean hother) (hclean hmem) heq.symm
  | false =>
      have hspawned : ctx.job.spawnedTask start file = some (ctx.job.fileTask file name) :=
        DepotJob.spawnedTask_eq_some.mpr ⟨name, hname, hfilter, hdir, hunchanged, rfl⟩
      obtain ⟨fileJob, hmem, htask, hdone⟩ :=
        (JobShape.run hnames hrun).done_of_spawned hok hfile hspawned
      have hplace : fileJob.task.filename = name := by rw [htask]; rfl
      rw [← hplace] at hspared ⊢
      exact JobShape.done_present hnames hrun hmem hdone hspared

/-- The chunks of a matched entry of the previous manifest that carry the
identifier of a new chunk have its size and checksum. -/
def SameChunks (old file : ManifestFile) : Prop :=
  ∀ oldChunk ∈ old.chunks, ∀ chunk ∈ file.chunks, oldChunk.id = chunk.id → oldChunk.id.isSome →
    oldChunk.uncompressedSize = chunk.uncompressedSize ∧ oldChunk.checksum = chunk.checksum

/-- Some chunk of the new entry carries the identifier of an old one. -/
def SharesChunk (old file : ManifestFile) : Prop :=
  ∃ oldChunk ∈ old.chunks, ∃ chunk ∈ file.chunks, oldChunk.id = chunk.id ∧ oldChunk.id.isSome

/-- Tasks have trustworthy sources when a previous version whose chunks they share
is on disk what the previous manifest says, and can be read. -/
theorem soundTasks_of_previous (hnames : CleanNames ctx.manifest)
    (hcomplete : ∀ file name, ctx.Selected file name →
      ∃ length, Layout file.size file.chunks length)
    (hresume : ∀ file name, ctx.Selected file name →
      start.read (ctx.job.stagingPlace name) = none ∨ DistinctIds file.chunks)
    (hprevious : ∀ file name old data, ctx.Selected file name → ctx.job.oldFile name = some old →
      start.read (ctx.job.finalPlace name) = some data →
        SameChunks old file ∧ (SharesChunk old file → Accepts old data))
    (hreads : ∀ position task, (ctx.tasks start)[position]? = some task →
      start.present (ctx.job.finalPlace task.filename) = true →
        (ctx.fileContext position task).ReadsListed) :
    ctx.SoundTasks start := by
  intro position task htask
  obtain ⟨file, hfile, hspawned⟩ := List.mem_filterMap.mp (List.mem_of_getElem? htask)
  obtain ⟨name, hname, hfilter, hdir, _, rfl⟩ := DepotJob.spawnedTask_eq_some.mp hspawned
  have hselected : ctx.Selected file name := ⟨hfile, hname, hfilter, hdir⟩
  have hclean := hnames.clean name (List.mem_filterMap.mpr ⟨file, hfile, hname⟩)
  obtain ⟨length, hlayout⟩ := hcomplete file name hselected
  refine FileContext.checked_sound (show Layout _ _ length from hlayout) ?_ ?_ ?_ ?_
  · exact ctx.job.stagingPlace_ne_finalPlace hclean hclean
  · exact hresume file name hselected
  · intro oldData oldChunks hread hchunks
    obtain ⟨old, hold, rfl⟩ := Option.map_eq_some_iff.mp hchunks
    obtain ⟨hsame, haccepts⟩ := hprevious file name old oldData hselected hold hread
    constructor
    · intro oldChunk holdChunk chunk hchunk hid hsome
      exact (haccepts ⟨oldChunk, holdChunk, chunk, hchunk, hid, hsome⟩).2 oldChunk holdChunk
    · exact hsame
  · intro hread
    obtain ⟨data, hdata⟩ := Option.isSome_iff_exists.mp hread
    exact hreads position _ htask (FileTree.present_iff_read.mpr ⟨data, hdata⟩)

end JobContext

end DepotDownloader.SteamClient
