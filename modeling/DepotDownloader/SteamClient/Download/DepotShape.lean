import DepotDownloader.SteamClient.Download.DepotStep
import DepotDownloader.SteamClient.Download.FileShape

/-! # The shape of a depot download

The tasks of a depot download are those of the entries that its loop has passed,
each task keeps its own shape, and no task touches the names of another. Before
the deletion pass nothing but the names of the tasks is touched.
-/

namespace DepotDownloader.SteamClient

open Foundation Foundation.LexPath Steam

namespace JobContext

variable (ctx : JobContext)

/-- The tasks that a download starting on a disk spawns, in their order. -/
def tasks (start : Disk) : List FileTask :=
  ctx.manifest.files.filterMap (ctx.job.spawnedTask start)

/-- The deletion pass may remove the file at the place. -/
def Removes (place : Place) : Prop :=
  ∃ old, ctx.job.previousManifest = some old ∧ ∃ file ∈ old.files, ∃ name,
    removedName ctx.manifest file = some name ∧ place = ctx.job.finalPlace name

/-- The place is one of the two that the task works on. -/
def Works (task : FileTask) (place : Place) : Prop :=
  place = ctx.job.stagingPlace task.filename ∨ place = ctx.job.finalPlace task.filename

structure JobShape (start disk : Disk) (state : JobState) : Prop where
  spawned : ∃ passed, ctx.manifest.files = passed ++ state.stage.unspawned ∧
    state.files.map FileJob.task = passed.filterMap (ctx.job.spawnedTask start)
  shape : ∀ position fileJob, state.files[position]? = some fileJob →
    (ctx.fileContext position fileJob.task).FileShape disk fileJob.state
  kept : ∀ fileJob ∈ state.files, fileJob.state.stage ≠ .done (.ok ()) →
    FileTree.SameAt (ctx.job.finalPlace fileJob.task.filename) start disk
  finished : ∀ fileJob ∈ state.files, ∀ outcome, fileJob.finished = some outcome →
    fileJob.state.stage = .done outcome
  awaited : ∀ position, state.stage = .awaiting position → ∀ earlier < position,
    ∃ fileJob, state.files[earlier]? = some fileJob ∧ fileJob.finished = some (.ok ())
  deleting : ∀ rest, state.stage = .deleting rest →
    ∃ old, ctx.job.previousManifest = some old ∧ ∀ file ∈ rest, file ∈ old.files
  complete : state.stage.deletes = true →
    ∀ fileJob ∈ state.files, fileJob.state.stage = .done (.ok ())
  installed : state.stage.deletes = false → ∀ fileJob ∈ state.files,
    fileJob.state.stage = .done (.ok ()) →
      disk.present (ctx.job.finalPlace fileJob.task.filename) = true
  touched : FileTree.ChangesOnly
    (fun place => (∃ fileJob ∈ state.files, ctx.Works fileJob.task place) ∨
      (state.stage.deletes = true ∧ ctx.Removes place)) start disk

variable {ctx} {start disk : Disk} {world world' : World} {state state' : JobState}
  {move : JobMove}

/-- The names of spawned tasks are among the names of the entries, in order. -/
theorem filenames_sublist (job : DepotJob) (disk : Disk) (files : List ManifestFile) :
    ((files.filterMap (job.spawnedTask disk)).map FileTask.filename).Sublist
      (files.filterMap ManifestFile.filename) := by
  induction files with
  | nil => simp
  | cons file rest ih =>
      cases hspawned : job.spawnedTask disk file with
      | none =>
          rw [List.filterMap_cons_none hspawned]
          refine ih.trans ?_
          cases hname : file.filename with
          | none => simp [List.filterMap_cons_none hname]
          | some name => simp [List.filterMap_cons_some hname]
      | some task =>
          obtain ⟨filename, hname, _, _, _, rfl⟩ := DepotJob.spawnedTask_eq_some.mp hspawned
          rw [List.filterMap_cons_some hspawned, List.filterMap_cons_some hname]
          exact ih.cons_cons _

theorem map_task_set {files : List FileJob} {position : Nat} {fileJob : FileJob}
    (fileJob' : FileJob) (hget : files[position]? = some fileJob)
    (htask : fileJob'.task = fileJob.task) :
    (files.set position fileJob').map FileJob.task = files.map FileJob.task := by
  obtain ⟨hlt, rfl⟩ := List.getElem?_eq_some_iff.mp hget
  have hlt' : position < (files.map FileJob.task).length := by simpa using hlt
  have hself := List.set_getElem_self hlt'
  rw [List.getElem_map, ← htask] at hself
  rw [List.map_set, hself]

/-- A handle that has given Ok stays so in a list with another state of one task. -/
theorem awaited_set {files : List FileJob} {position earlier : Nat} {fileJob : FileJob}
    (fileJob' : FileJob) (hget : files[position]? = some fileJob)
    (hkeeps : fileJob.finished = some (.ok ()) → fileJob'.finished = some (.ok ()))
    (hbefore : ∃ fileJob, files[earlier]? = some fileJob ∧ fileJob.finished = some (.ok ())) :
    ∃ fileJob, (files.set position fileJob')[earlier]? = some fileJob ∧
      fileJob.finished = some (.ok ()) := by
  obtain ⟨found, hfound, hfinished⟩ := hbefore
  by_cases heq : position = earlier
  · subst heq
    rw [hget, Option.some.injEq] at hfound
    subst hfound
    exact ⟨_, List.getElem?_set_self (List.getElem?_eq_some_iff.mp hget).1, hkeeps hfinished⟩
  · exact ⟨found, (List.getElem?_set_ne heq).trans hfound, hfinished⟩

/-- No move drops a task. -/
theorem works_of_step (hstep : ctx.JobStep world state move world' state') {place : Place}
    (hworks : ∃ fileJob ∈ state.files, ctx.Works fileJob.task place) :
    ∃ fileJob ∈ state'.files, ctx.Works fileJob.task place := by
  obtain ⟨fileJob, hmem, hplace⟩ := hworks
  have hset {files : List FileJob}
      (htasks : files.map FileJob.task = state.files.map FileJob.task) :
      ∃ fileJob ∈ files, ctx.Works fileJob.task place := by
    have htask := List.mem_map_of_mem (f := FileJob.task) hmem
    rw [← htasks] at htask
    obtain ⟨fileJob', hmem', heq⟩ := List.mem_map.mp htask
    exact ⟨fileJob', hmem', heq ▸ hplace⟩
  cases hstep with
  | unnamed | filtered | directory | unchanged | spawnDone | awaited | awaitFailed | awaitDone
  | deleteBegun | deleted | kept | deleteDone => exact ⟨fileJob, hmem, hplace⟩
  | spawned => exact ⟨fileJob, List.mem_append_left _ hmem, hplace⟩
  | file hget | reported hget | reportedError hget => exact hset (map_task_set _ hget rfl)

namespace JobShape

/-- The task of a download at a position. -/
theorem task_at (hshape : ctx.JobShape start disk state) {position : Nat} {fileJob : FileJob}
    (hget : state.files[position]? = some fileJob) :
    (ctx.tasks start)[position]? = some fileJob.task := by
  obtain ⟨passed, hfiles, htasks⟩ := hshape.spawned
  have htask : (state.files.map FileJob.task)[position]? = some fileJob.task := by
    rw [List.getElem?_map, hget, Option.map_some]
  rw [tasks, hfiles, List.filterMap_append, ← htasks]
  rw [List.getElem?_append_left (List.getElem?_eq_some_iff.mp htask).1]
  exact htask

/-- A task is the one of a selected entry that has changed. -/
theorem task_spec (hshape : ctx.JobShape start disk state) {fileJob : FileJob}
    (hmem : fileJob ∈ state.files) :
    ∃ file ∈ ctx.manifest.files, ctx.job.spawnedTask start file = some fileJob.task := by
  obtain ⟨passed, hfiles, htasks⟩ := hshape.spawned
  have htask := List.mem_map_of_mem (f := FileJob.task) hmem
  rw [htasks, List.mem_filterMap] at htask
  obtain ⟨file, hfile, hspawned⟩ := htask
  exact ⟨file, by rw [hfiles]; exact List.mem_append_left _ hfile, hspawned⟩

theorem name_mem (hshape : ctx.JobShape start disk state) {fileJob : FileJob}
    (hmem : fileJob ∈ state.files) : fileJob.task.filename ∈ manifestNames ctx.manifest := by
  obtain ⟨file, hfile, hspawned⟩ := hshape.task_spec hmem
  obtain ⟨filename, hname, _, _, _, heq⟩ := DepotJob.spawnedTask_eq_some.mp hspawned
  rw [heq]
  exact List.mem_filterMap.mpr ⟨file, hfile, hname⟩

theorem path_eq (hshape : ctx.JobShape start disk state) {fileJob : FileJob}
    (hmem : fileJob ∈ state.files) :
    fileJob.task.path = ctx.job.finalPath fileJob.task.filename := by
  obtain ⟨file, _, hspawned⟩ := hshape.task_spec hmem
  obtain ⟨filename, _, _, _, _, heq⟩ := DepotJob.spawnedTask_eq_some.mp hspawned
  rw [heq]
  rfl

theorem finalPlace_eq (hshape : ctx.JobShape start disk state) (position : Nat)
    {fileJob : FileJob} (hmem : fileJob ∈ state.files) :
    (ctx.fileContext position fileJob.task).finalPlace =
      ctx.job.finalPlace fileJob.task.filename :=
  congrArg ctx.job.place (hshape.path_eq hmem)

/-- Two tasks have different names. -/
theorem name_ne (hshape : ctx.JobShape start disk state) (hnames : CleanNames ctx.manifest)
    {position position' : Nat} {fileJob fileJob' : FileJob}
    (hget : state.files[position]? = some fileJob)
    (hget' : state.files[position']? = some fileJob') (hne : position ≠ position') :
    fileJob.task.filename ≠ fileJob'.task.filename := by
  have hnodup : (state.files.map fun fileJob => fileJob.task.filename).Nodup := by
    obtain ⟨passed, hfiles, htasks⟩ := hshape.spawned
    have hsub := filenames_sublist ctx.job start passed
    have hall := hnames.distinct
    rw [manifestNames, hfiles, List.filterMap_append] at hall
    rw [← htasks, List.map_map] at hsub
    exact (List.Nodup.of_append_left hall).sublist hsub
  intro heq
  have hlt := (List.getElem?_eq_some_iff.mp hget).1
  refine hne ((List.getElem?_inj (by simpa using hlt) hnodup).mp ?_)
  simp only [List.getElem?_map, hget, hget', Option.map_some, heq]

/-- The places of one task are none of those of another. -/
theorem not_works (hshape : ctx.JobShape start disk state) (hnames : CleanNames ctx.manifest)
    {position position' : Nat} {fileJob fileJob' : FileJob}
    (hget : state.files[position]? = some fileJob)
    (hget' : state.files[position']? = some fileJob') (hne : position ≠ position') {place : Place}
    (hworks : ctx.Works fileJob.task place) : ¬ ctx.Works fileJob'.task place := by
  have hname := hshape.name_ne hnames hget hget' hne
  have hclean := hnames.clean _ (hshape.name_mem (List.mem_of_getElem? hget))
  have hclean' := hnames.clean _ (hshape.name_mem (List.mem_of_getElem? hget'))
  rcases hworks with rfl | rfl <;> rintro (heq | heq)
  · exact hname ((ctx.job.stagingPlace_inj hclean hclean').mp heq)
  · exact ctx.job.stagingPlace_ne_finalPlace hclean hclean' heq
  · exact ctx.job.stagingPlace_ne_finalPlace hclean' hclean heq.symm
  · exact hname ((ctx.job.finalPlace_inj hclean hclean').mp heq)

/-- A move of a file task touches no place but its own two. -/
theorem step_changesOnly (hshape : ctx.JobShape start world.disk state) {position : Nat}
    {fileJob : FileJob} {fileMove : FileMove} {fileState : FileState}
    (hget : state.files[position]? = some fileJob)
    (hstep : (ctx.fileContext position fileJob.task).step (world, fileJob.state) fileMove =
      some (world', fileState)) :
    FileTree.ChangesOnly (ctx.Works fileJob.task) world.disk world'.disk := by
  have hfinal := hshape.finalPlace_eq position (List.mem_of_getElem? hget)
  refine ((hshape.shape position fileJob hget).step_changesOnly hstep).mono ?_
  rintro place (rfl | rfl)
  · exact .inl rfl
  · exact .inr hfinal

/-- A move of a file task changes its final place only as the rename. -/
theorem final_touched (hshape : ctx.JobShape start world.disk state)
    (hnames : CleanNames ctx.manifest) {position : Nat} {fileJob : FileJob} {fileMove : FileMove}
    {fileState : FileState} (hget : state.files[position]? = some fileJob)
    (hstep : (ctx.fileContext position fileJob.task).step (world, fileJob.state) fileMove =
      some (world', fileState)) :
    FileTree.SameAt (ctx.job.finalPlace fileJob.task.filename) world.disk world'.disk ∨
      (ctx.fileContext position fileJob.task).Renames world fileJob.state world' fileState := by
  refine ((hshape.shape position fileJob hget).touches hstep).imp_left fun hstaging => ?_
  apply hstaging
  intro heq
  have hclean := hnames.clean _ (hshape.name_mem (List.mem_of_getElem? hget))
  exact ctx.job.stagingPlace_ne_finalPlace hclean hclean heq.symm

/-- A move of a file task that has returned Ok by then leaves the file there. -/
theorem present_of_step (hshape : ctx.JobShape start world.disk state)
    (hnames : CleanNames ctx.manifest) {position : Nat} {fileJob : FileJob} {fileMove : FileMove}
    {fileState : FileState} (hget : state.files[position]? = some fileJob)
    (hstep : (ctx.fileContext position fileJob.task).step (world, fileJob.state) fileMove =
      some (world', fileState))
    (hbefore : fileJob.state.stage = .done (.ok ()) →
      world.disk.present (ctx.job.finalPlace fileJob.task.filename) = true)
    (hdone : fileState.stage = .done (.ok ())) :
    world'.disk.present (ctx.job.finalPlace fileJob.task.filename) = true := by
  by_cases hended : fileJob.state.stage = .done (.ok ())
  · rcases hshape.final_touched hnames hget hstep with hsame | hrename
    · rw [hsame.present_eq]
      exact hbefore hended
    · rw [hrename.stage] at hended
      cases hended
  -- the file is put there by this move
  · rw [← hshape.finalPlace_eq position (List.mem_of_getElem? hget)]
    exact FileContext.present_of_done hended hdone hstep

end JobShape

/-- What a move of the download does to the task at a position. -/
inductive FileChange (ctx : JobContext) (world : World) (state : JobState) (world' : World)
    (position : Nat) (fileJob' : FileJob) : Prop
  | same {fileJob : FileJob} (hget : state.files[position]? = some fileJob)
      (htask : fileJob'.task = fileJob.task) (hstate : fileJob'.state = fileJob.state)
      (hplaces : ∀ place, ctx.Works fileJob.task place →
        FileTree.SameAt place world.disk world'.disk)
  | removed (hget : state.files[position]? = some fileJob') (hdeletes : state.stage.deletes = true)
      (hplaces : FileTree.ChangesOnly ctx.Removes world.disk world'.disk)
  | stepped {fileJob : FileJob} {move : FileMove} (hget : state.files[position]? = some fileJob)
      (htask : fileJob'.task = fileJob.task)
      (hstep : (ctx.fileContext position fileJob.task).step (world, fileJob.state) move =
        some (world', fileJob'.state))
  | fresh {file : ManifestFile} (hmem : file ∈ state.stage.unspawned)
      (hspawned : ctx.job.spawnedTask world.disk file = some fileJob'.task)
      (hstate : fileJob'.state = .initial) (hfinished : fileJob'.finished = none)
      (hdisk : world'.disk = world.disk)

theorem report_disk (world : World) (task : FileTask) :
    (ctx.report world task).disk = world.disk := by
  unfold report
  split <;> rfl

theorem JobShape.file_cases (hshape : ctx.JobShape start world.disk state)
    (hnames : CleanNames ctx.manifest) (hstep : ctx.JobStep world state move world' state')
    {position : Nat} {fileJob' : FileJob} (hget' : state'.files[position]? = some fileJob') :
    ctx.FileChange world state world' position fileJob' := by
  have hsame {fileJob : FileJob} (hget : state.files[position]? = some fileJob)
      (htask : fileJob'.task = fileJob.task) (hstate : fileJob'.state = fileJob.state)
      (hdisk : world'.disk = world.disk) : ctx.FileChange world state world' position fileJob' :=
    .same hget htask hstate fun place _ => hdisk ▸ FileTree.SameAt.refl place world.disk
  have hset {changed : Nat} {fileJob fileJob'' : FileJob}
      (hget : state.files[changed]? = some fileJob)
      (hafter : (state.files.set changed fileJob'')[position]? = some fileJob') :
      (position = changed ∧ fileJob' = fileJob'') ∨
        (position ≠ changed ∧ state.files[position]? = some fileJob') := by
    rw [List.getElem?_set] at hafter
    split at hafter
    next heq =>
      rw [if_pos (List.getElem?_eq_some_iff.mp hget).1, Option.some.injEq] at hafter
      exact .inl ⟨heq.symm, hafter.symm⟩
    next hne => exact .inr ⟨Ne.symm hne, hafter⟩
  cases hstep with
  | unnamed | filtered | directory | unchanged | spawnDone | awaited | awaitFailed | awaitDone
  | deleteBegun | kept | deleteDone => exact hsame hget' rfl rfl rfl
  | spawned hstage hname hfilter hdir hchanged =>
      by_cases hlt : position < state.files.length
      · rw [List.getElem?_append_left hlt] at hget'
        exact hsame hget' rfl rfl rfl
      -- the new task is the last one
      · rw [List.getElem?_append_right (Nat.le_of_not_lt hlt), List.getElem?_singleton] at hget'
        split at hget' <;> cases hget'
        exact .fresh (by rw [hstage]; exact List.mem_cons_self)
          (DepotJob.spawnedTask_eq_some.mpr ⟨_, hname, hfilter, hdir, hchanged, rfl⟩) rfl rfl rfl
  | deleted hstage hremoved =>
      obtain ⟨old, hold, hrest⟩ := hshape.deleting _ hstage
      refine .removed hget' (by simp [hstage]) ((FileTree.remove_changesOnly _ _).mono ?_)
      rintro place rfl
      exact ⟨old, hold, _, hrest _ List.mem_cons_self, _, hremoved, rfl⟩
  | @file changed fileJob fileMove _ fileState hget hfile =>
      rcases hset hget hget' with ⟨rfl, rfl⟩ | ⟨hne, hbefore⟩
      · exact .stepped hget rfl hfile
      -- another task's places are none of those of this one
      · refine .same hbefore rfl rfl fun place hworks => ?_
        exact hshape.step_changesOnly hget hfile place
          (hshape.not_works hnames hbefore hget hne hworks)
  | reported hget =>
      rcases hset hget hget' with ⟨rfl, rfl⟩ | ⟨_, hbefore⟩
      · exact hsame hget rfl rfl (report_disk ..)
      · exact hsame hbefore rfl rfl (report_disk ..)
  | reportedError hget =>
      rcases hset hget hget' with ⟨rfl, rfl⟩ | ⟨_, hbefore⟩
      · exact hsame hget rfl rfl rfl
      · exact hsame hbefore rfl rfl rfl

/-- The places of an entry that the loop has not reached are as they were. -/
theorem JobShape.unspawned_same (hshape : ctx.JobShape start disk state)
    (hnames : CleanNames ctx.manifest) {file : ManifestFile}
    (hmem : file ∈ state.stage.unspawned) {name : String} (hname : file.filename = some name)
    {place : Place} (hplace : place = ctx.job.stagingPlace name ∨ place = ctx.job.finalPlace name) :
    FileTree.SameAt place start disk := by
  refine hshape.touched place ?_
  have hnotDeletes : state.stage.deletes = false := by
    cases hstage : state.stage <;> simp_all
  simp only [hnotDeletes, Bool.false_eq_true, false_and, or_false, not_exists, not_and]
  intro fileJob hfileJob hworks
  obtain ⟨passed, hfiles, htasks⟩ := hshape.spawned
  have hclean := hnames.clean _ (hshape.name_mem hfileJob)
  have hclean' : CleanName name := hnames.clean name
    (List.mem_filterMap.mpr ⟨file, by rw [hfiles]; exact List.mem_append_right _ hmem, hname⟩)
  have heq : fileJob.task.filename = name := by
    rcases hplace with rfl | rfl <;> rcases hworks with heq | heq
    · exact ((ctx.job.stagingPlace_inj hclean' hclean).mp heq).symm
    · exact absurd heq (ctx.job.stagingPlace_ne_finalPlace hclean' hclean)
    · exact absurd heq.symm (ctx.job.stagingPlace_ne_finalPlace hclean hclean')
    · exact ((ctx.job.finalPlace_inj hclean' hclean).mp heq).symm
  have hpassed : name ∈ passed.filterMap ManifestFile.filename := by
    refine (filenames_sublist ctx.job start passed).subset ?_
    rw [← htasks, List.map_map]
    exact List.mem_map.mpr ⟨fileJob, hfileJob, heq⟩
  have hrest : name ∈ state.stage.unspawned.filterMap ManifestFile.filename :=
    List.mem_filterMap.mpr ⟨file, hmem, hname⟩
  have hall := hnames.distinct
  rw [manifestNames, hfiles, List.filterMap_append] at hall
  exact (List.disjoint_of_nodup_append hall) hpassed hrest

/-- The loop decides about an entry as it would have at the start. -/
theorem JobShape.spawnedTask_start (hshape : ctx.JobShape start disk state)
    (hnames : CleanNames ctx.manifest) {file : ManifestFile}
    (hmem : file ∈ state.stage.unspawned) :
    ctx.job.spawnedTask start file = ctx.job.spawnedTask disk file := by
  cases hname : file.filename with
  | none => simp [DepotJob.spawnedTask, hname]
  | some name =>
      have hpresent := (hshape.unspawned_same hnames hmem hname (.inr rfl)).present_eq
      have hunchanged : ctx.job.unchanged disk file name = ctx.job.unchanged start file name := by
        simp only [DepotJob.unchanged, hpresent]
      simp only [DepotJob.spawnedTask, hname, Option.bind_some, hunchanged]

theorem JobShape.initial : ctx.JobShape start start ctx.initial where
  spawned := ⟨[], rfl, rfl⟩
  shape := by simp [JobContext.initial]
  kept := by simp [JobContext.initial]
  finished := by simp [JobContext.initial]
  awaited _ h := by cases h
  deleting _ h := by cases h
  complete h := by cases h
  installed := by simp [JobContext.initial]
  touched := FileTree.ChangesOnly.refl _ _

namespace JobShape

section Step

variable (hshape : ctx.JobShape start world.disk state)
  (hstep : ctx.JobStep world state move world' state')

include hshape hstep

theorem finished_step {fileJob' : FileJob} (hmem' : fileJob' ∈ state'.files) {outcome : Outcome}
    (hfinished : fileJob'.finished = some outcome) : fileJob'.state.stage = .done outcome := by
  cases hstep with
  | unnamed | filtered | directory | unchanged | spawnDone | awaited | awaitFailed | awaitDone
  | deleteBegun | deleted | kept | deleteDone => exact hshape.finished _ hmem' _ hfinished
  | spawned =>
      rcases List.mem_append.mp hmem' with hmem | hmem
      · exact hshape.finished _ hmem _ hfinished
      · rw [List.mem_singleton.mp hmem] at hfinished
        cases hfinished
  | file hget hfile =>
      rcases List.mem_or_eq_of_mem_set hmem' with hmem | rfl
      · exact hshape.finished _ hmem _ hfinished
      · exact FileContext.stage_of_done
          (hshape.finished _ (List.mem_of_getElem? hget) _ hfinished) hfile
  | reported _ _ hdone | reportedError _ _ hdone =>
      rcases List.mem_or_eq_of_mem_set hmem' with hmem | rfl
      · exact hshape.finished _ hmem _ hfinished
      · cases hfinished
        exact hdone

theorem awaited_step {last : Nat} (hstage' : state'.stage = .awaiting last) {earlier : Nat}
    (hearlier : earlier < last) :
    ∃ fileJob, state'.files[earlier]? = some fileJob ∧ fileJob.finished = some (.ok ()) := by
  cases hstep with
  | unnamed | filtered | directory | unchanged | spawned | awaitFailed | awaitDone | deleteBegun
  | deleted | kept | deleteDone => cases hstage'
  | spawnDone =>
      cases hstage'
      omega
  | @awaited position fileJob _ hstage hget hfinished =>
      cases hstage'
      rcases Nat.lt_succ_iff_lt_or_eq.mp hearlier with hlt | rfl
      · exact hshape.awaited position hstage earlier hlt
      · exact ⟨fileJob, hget, hfinished⟩
  | file hget => exact awaited_set _ hget id (hshape.awaited last hstage' earlier hearlier)
  | reported hget =>
      exact awaited_set _ hget (fun _ => rfl) (hshape.awaited last hstage' earlier hearlier)
  | reportedError hget hnone =>
      refine awaited_set _ hget (fun h => ?_) (hshape.awaited last hstage' earlier hearlier)
      rw [hnone] at h
      cases h

theorem deleting_step {rest : List ManifestFile} (hstage' : state'.stage = .deleting rest) :
    ∃ old, ctx.job.previousManifest = some old ∧ ∀ file ∈ rest, file ∈ old.files := by
  cases hstep with
  | unnamed | filtered | directory | unchanged | spawned | spawnDone | awaited | awaitFailed
  | awaitDone | deleteDone => cases hstage'
  | deleteBegun _ _ hold =>
      cases hstage'
      exact ⟨_, hold, fun _ hmem => hmem⟩
  | deleted hstage | kept hstage =>
      cases hstage'
      obtain ⟨old, hold, hrest⟩ := hshape.deleting _ hstage
      exact ⟨old, hold, fun file hmem => hrest file (List.mem_cons_of_mem _ hmem)⟩
  | file | reported | reportedError => exact hshape.deleting rest hstage'

theorem complete_step (hdeletes' : state'.stage.deletes = true) {fileJob' : FileJob}
    (hmem' : fileJob' ∈ state'.files) : fileJob'.state.stage = .done (.ok ()) := by
  have hall {position : Nat} (hstage : state.stage = .awaiting position)
      (hend : state.files[position]? = none) (hmem : fileJob' ∈ state.files) :
      fileJob'.state.stage = .done (.ok ()) := by
    obtain ⟨other, hget⟩ := List.mem_iff_getElem?.mp hmem
    have hlt := (List.getElem?_eq_some_iff.mp hget).1
    have hle := List.getElem?_eq_none_iff.mp hend
    obtain ⟨found, hfound, hfinished⟩ := hshape.awaited position hstage other (by omega)
    rw [hget, Option.some.injEq] at hfound
    exact hshape.finished _ hmem _ (hfound ▸ hfinished)
  cases hstep with
  | unnamed | filtered | directory | unchanged | spawned | spawnDone | awaited | awaitFailed =>
      cases hdeletes'
  | awaitDone hstage hend | deleteBegun hstage hend => exact hall hstage hend hmem'
  | deleted hstage | kept hstage | deleteDone hstage =>
      exact hshape.complete (by simp [hstage]) _ hmem'
  | file hget hfile =>
      rcases List.mem_or_eq_of_mem_set hmem' with hmem | rfl
      · exact hshape.complete hdeletes' _ hmem
      · exact FileContext.stage_of_done
          (hshape.complete hdeletes' _ (List.mem_of_getElem? hget)) hfile
  | @reported _ fileJob hget | @reportedError _ fileJob _ hget =>
      rcases List.mem_or_eq_of_mem_set hmem' with hmem | rfl
      · exact hshape.complete hdeletes' _ hmem
      · exact hshape.complete hdeletes' fileJob (List.mem_of_getElem? hget)

/-- A move changes the places of the tasks, or removes one file in the deletion
pass. -/
theorem disk_step :
    FileTree.ChangesOnly (fun place => ∃ fileJob ∈ state.files, ctx.Works fileJob.task place)
        world.disk world'.disk ∨
      (state'.stage.deletes = true ∧
        ∃ place, ctx.Removes place ∧ world'.disk = world.disk.remove place) := by
  cases hstep with
  | unnamed | filtered | directory | unchanged | spawned | spawnDone | awaited | awaitFailed
  | awaitDone | deleteBegun | kept | deleteDone | reportedError =>
      exact .inl (FileTree.ChangesOnly.refl _ _)
  | reported =>
      rw [report_disk]
      exact .inl (FileTree.ChangesOnly.refl _ _)
  | deleted hstage hremoved =>
      right
      obtain ⟨old, hold, hrest⟩ := hshape.deleting _ hstage
      refine ⟨rfl, _, ⟨old, hold, _, hrest _ List.mem_cons_self, _, hremoved, rfl⟩, rfl⟩
  | file hget hfile =>
      left
      apply (hshape.step_changesOnly hget hfile).mono
      intro place hworks
      exact ⟨_, List.mem_of_getElem? hget, hworks⟩

theorem touched_step : FileTree.ChangesOnly
    (fun place => (∃ fileJob ∈ state'.files, ctx.Works fileJob.task place) ∨
      (state'.stage.deletes = true ∧ ctx.Removes place)) start world'.disk := by
  refine (hshape.touched.mono ?_).trans ?_
  · rintro place (hworks | ⟨hbefore, hremoves⟩)
    · exact .inl (works_of_step hstep hworks)
    · exact .inr ⟨deletes_of_step hstep hbefore, hremoves⟩
  · rcases hshape.disk_step hstep with hfiles | ⟨hdeletes, place, hremoves, hdisk⟩
    · exact hfiles.mono fun place hworks => .inl (works_of_step hstep hworks)
    · rw [hdisk]
      apply (FileTree.remove_changesOnly _ _).mono
      rintro _ rfl
      exact .inr ⟨hdeletes, hremoves⟩

variable (hnames : CleanNames ctx.manifest)

include hnames

theorem shape_step {position : Nat} {fileJob' : FileJob}
    (hget' : state'.files[position]? = some fileJob') :
    (ctx.fileContext position fileJob'.task).FileShape world'.disk fileJob'.state := by
  cases hshape.file_cases hnames hstep hget' with
  | same hget htask hstate hplaces =>
      rw [htask, hstate]
      refine (hshape.shape _ _ hget).of_sameAt (hplaces _ (.inl rfl)) ?_
      rw [hshape.finalPlace_eq _ (List.mem_of_getElem? hget)]
      exact hplaces _ (.inr rfl)
  | removed hget hdeletes =>
      exact (hshape.shape _ _ hget).of_done
        (hshape.complete hdeletes _ (List.mem_of_getElem? hget))
  | stepped hget htask hfile =>
      rw [htask]
      exact (hshape.shape _ _ hget).step hfile
  | fresh _ _ hstate =>
      rw [hstate]
      exact .initial

theorem kept_step {fileJob' : FileJob} (hmem' : fileJob' ∈ state'.files)
    (hrunning : fileJob'.state.stage ≠ .done (.ok ())) :
    FileTree.SameAt (ctx.job.finalPlace fileJob'.task.filename) start world'.disk := by
  obtain ⟨position, hget'⟩ := List.mem_iff_getElem?.mp hmem'
  cases hshape.file_cases hnames hstep hget' with
  | same hget htask hstate hplaces =>
      have hmem := List.mem_of_getElem? hget
      rw [htask]
      exact (hshape.kept _ hmem (hstate ▸ hrunning)).trans (hplaces _ (.inr rfl))
  | removed hget hdeletes =>
      exact absurd (hshape.complete hdeletes _ (List.mem_of_getElem? hget)) hrunning
  | @stepped fileJob _ hget htask hfile =>
      have hmem := List.mem_of_getElem? hget
      have hbefore := hshape.kept _ hmem fun hdone =>
        hrunning (FileContext.stage_of_done hdone hfile)
      rw [htask]
      refine hbefore.trans ?_
      rcases hshape.final_touched hnames hget hfile with hsame | hrename
      · exact hsame
      · exact absurd hrename.outcome hrunning
  | fresh hmem hspawned _ _ hdisk =>
      obtain ⟨name, hname, _, _, _, heq⟩ := DepotJob.spawnedTask_eq_some.mp hspawned
      rw [heq, hdisk]
      exact hshape.unspawned_same hnames hmem hname (.inr rfl)

theorem installed_step (hdeletes' : state'.stage.deletes = false) {fileJob' : FileJob}
    (hmem' : fileJob' ∈ state'.files) (hdone' : fileJob'.state.stage = .done (.ok ())) :
    world'.disk.present (ctx.job.finalPlace fileJob'.task.filename) = true := by
  obtain ⟨position, hget'⟩ := List.mem_iff_getElem?.mp hmem'
  have hdeletes : state.stage.deletes = false := by
    cases hbefore : state.stage.deletes with
    | false => rfl
    | true => rw [deletes_of_step hstep hbefore] at hdeletes'; cases hdeletes'
  cases hshape.file_cases hnames hstep hget' with
  | same hget htask hstate hplaces =>
      rw [htask, (hplaces _ (.inr rfl)).present_eq]
      exact hshape.installed hdeletes _ (List.mem_of_getElem? hget) (hstate ▸ hdone')
  | removed _ hbefore =>
      rw [hdeletes] at hbefore
      cases hbefore
  | stepped hget htask hfile =>
      rw [htask]
      exact hshape.present_of_step hnames hget hfile
        (hshape.installed hdeletes _ (List.mem_of_getElem? hget)) hdone'
  | fresh _ _ hstate =>
      rw [hstate] at hdone'
      cases hdone'

theorem spawned_step : ∃ passed, ctx.manifest.files = passed ++ state'.stage.unspawned ∧
    state'.files.map FileJob.task = passed.filterMap (ctx.job.spawnedTask start) := by
  obtain ⟨passed, hfiles, htasks⟩ := hshape.spawned
  -- the entry that the loop is at, and the task it becomes
  have hpass {file : ManifestFile} {rest : List ManifestFile} {tasks : List FileTask}
      (hstage : state.stage = .spawning (file :: rest))
      (htask : ctx.job.spawnedTask world.disk file = none ∧ tasks = [] ∨
        ∃ task, ctx.job.spawnedTask world.disk file = some task ∧ tasks = [task]) :
      ∃ passed, ctx.manifest.files = passed ++ rest ∧
        state.files.map FileJob.task ++ tasks = passed.filterMap (ctx.job.spawnedTask start) := by
    refine ⟨passed ++ [file], by simp [hfiles, hstage], ?_⟩
    have hmem : file ∈ state.stage.unspawned := by simp [hstage]
    have hsame := hshape.spawnedTask_start hnames hmem
    rw [List.filterMap_append, htasks, List.append_cancel_left_eq]
    rcases htask with ⟨hnone, rfl⟩ | ⟨task, hsome, rfl⟩
    · rw [List.filterMap_cons_none (hsame.trans hnone), List.filterMap_nil]
    · rw [List.filterMap_cons_some (hsame.trans hsome), List.filterMap_nil]
  cases hstep with
  | unnamed hstage hname =>
      simpa using hpass hstage (.inl ⟨by simp [DepotJob.spawnedTask, hname], rfl⟩)
  | filtered hstage hname hfilter =>
      simpa using hpass hstage
        (.inl ⟨by simp [DepotJob.spawnedTask, hname, hfilter], rfl⟩)
  | directory hstage hname _ hdir =>
      simpa using hpass hstage
        (.inl ⟨by simp [DepotJob.spawnedTask, hname, hdir], rfl⟩)
  | unchanged hstage hname _ _ hunchanged =>
      simpa using hpass hstage
        (.inl ⟨by simp [DepotJob.spawnedTask, hname, hunchanged], rfl⟩)
  | spawned hstage hname hfilter hdir hchanged =>
      simpa using hpass hstage (.inr ⟨_, DepotJob.spawnedTask_eq_some.mpr
        ⟨_, hname, hfilter, hdir, hchanged, rfl⟩, rfl⟩)
  | spawnDone hstage | awaited hstage | awaitFailed hstage | awaitDone hstage
  | deleteBegun hstage | deleted hstage | kept hstage | deleteDone hstage =>
      exact ⟨passed, by simpa [hstage] using hfiles, htasks⟩
  | @file _ fileJob _ _ fileState hget =>
      have hset := map_task_set { fileJob with state := fileState } hget rfl
      exact ⟨passed, hfiles, hset.trans htasks⟩
  | @reported _ fileJob hget =>
      have hset := map_task_set { fileJob with finished := some (.ok ()) } hget rfl
      exact ⟨passed, hfiles, hset.trans htasks⟩
  | @reportedError _ fileJob error hget =>
      have hset := map_task_set { fileJob with finished := some (.error error) } hget rfl
      exact ⟨passed, hfiles, hset.trans htasks⟩

end Step

/-- Every move of a download with clean names keeps its shape. -/
theorem step (hshape : ctx.JobShape start world.disk state) (hnames : CleanNames ctx.manifest)
    (hstep : ctx.step (world, state) move = some (world', state')) :
    ctx.JobShape start world'.disk state' :=
  have hcases := jobStep_cases hstep
  { spawned := hshape.spawned_step hcases hnames
    shape := fun _ _ => hshape.shape_step hcases hnames
    kept := fun _ => hshape.kept_step hcases hnames
    finished := fun _ hmem _ => hshape.finished_step hcases hmem
    awaited := fun _ hstage _ => hshape.awaited_step hcases hstage
    deleting := fun _ => hshape.deleting_step hcases
    complete := fun hdeletes _ => hshape.complete_step hcases hdeletes
    installed := fun hdeletes _ => hshape.installed_step hcases hnames hdeletes
    touched := hshape.touched_step hcases }

theorem run {moves : List JobMove} (hnames : CleanNames ctx.manifest)
    (hrun : ctx.download start moves = some (world', state')) :
    ctx.JobShape start world'.disk state' := by
  have hstep : ∀ (config : JobConfig) (move : JobMove) (next : JobConfig),
      ctx.JobShape start config.1.disk config.2 → True →
        ctx.machine.step config move = some next →
          ctx.JobShape start next.1.disk next.2 :=
    fun _ _ _ hshape _ hnext => hshape.step hnames hnext
  exact ctx.machine.run_invariant hstep (fun _ _ => trivial) .initial hrun

end JobShape

end JobContext

end DepotDownloader.SteamClient
