import DepotDownloader.SteamClient.Download.DepotShape
import DepotDownloader.SteamClient.Download.Effects

/-! # What a failing download leaves

A file whose chunks fail keeps its final path, a download that returns an error
deletes nothing, and the bytes at a final path change by one rename only. The
deletion pass compares names, not paths: it can remove a file that was just
installed when the previous manifest spells its name differently.
-/

namespace DepotDownloader.SteamClient

open Foundation Foundation.LexPath Steam

namespace JobContext

variable {ctx : JobContext} {start : Disk} {world world' : World} {state state' : JobState}

/-- No name that the deletion pass removes leads to the final path of a file of
the new manifest. -/
def RemovalApart (ctx : JobContext) : Prop :=
  ∀ place, ctx.Removes place → ∀ file ∈ ctx.manifest.files, ∀ name,
    file.filename = some name → file.isDirectory = false → place ≠ ctx.job.finalPlace name

/-- The one step that changes the bytes at a final path: the file task at a
position, all of whose chunk tasks have returned Ok, renames its staging file. -/
def FinalRename (ctx : JobContext) (name : String) (world : World) (state : JobState)
    (move : JobMove) (world' : World) : Prop :=
  ∃ position fileJob fileMove fileState, move = .file position fileMove ∧
    state.files[position]? = some fileJob ∧ fileJob.task.filename = name ∧
    (ctx.fileContext position fileJob.task).Renames world fileJob.state world' fileState

/-- A file one of whose chunk tasks has failed keeps the bytes at its final
path. -/
theorem JobShape.failed_kept (hshape : ctx.JobShape start world.disk state) {fileJob : FileJob}
    (hmem : fileJob ∈ state.files) {chunkTask : ChunkTask} {error : DownloadError}
    (htask : chunkTask ∈ fileJob.state.chunkTasks)
    (hfailed : chunkTask.stage = .done (.error error)) :
    world.disk.read (ctx.job.finalPlace fileJob.task.filename) =
      start.read (ctx.job.finalPlace fileJob.task.filename) := by
  obtain ⟨position, hget⟩ := List.mem_iff_getElem?.mp hmem
  refine (hshape.kept fileJob hmem fun hdone => ?_).read_eq
  have hcomplete := (hshape.shape position fileJob hget).complete (.inr hdone) chunkTask htask
  rw [hfailed] at hcomplete
  cases hcomplete

/-- Until the deletion pass begins every file stays, except that a staging file
may have moved to its final path. -/
theorem JobShape.present_kept (hshape : ctx.JobShape start world.disk state)
    (hdeletes : state.stage.deletes = false) {place : Place} (hpresent : start.present place = true)
    (hstaging : ∀ name ∈ manifestNames ctx.manifest, place ≠ ctx.job.stagingPlace name) :
    world.disk.present place = true := by
  by_cases hworks : ∃ fileJob ∈ state.files, ctx.Works fileJob.task place
  · obtain ⟨fileJob, hmem, hplace⟩ := hworks
    rcases hplace with rfl | rfl
    · exact absurd rfl (hstaging _ (hshape.name_mem hmem))
    · by_cases hdone : fileJob.state.stage = .done (.ok ())
      · exact hshape.installed hdeletes fileJob hmem hdone
      · rw [(hshape.kept fileJob hmem hdone).present_eq]
        exact hpresent
  · rw [(hshape.touched place ?_).present_eq]
    · exact hpresent
    · rintro (hplace | ⟨hbegun, _⟩)
      · exact hworks hplace
      · rw [hdeletes] at hbegun
        cases hbegun

/-- Files are removed by the deletion pass only. -/
theorem deletes_of_removeFile {disk : Disk} {moves : List JobMove} {path : Path}
    (hrun : ctx.download disk moves = some (world, state))
    (hremoved : .removeFile path ∈ world.log) : state.stage.deletes = true := by
  have hstep : ∀ (config : JobConfig) (move : JobMove) (next : JobConfig),
      (.removeFile path ∈ config.1.log → config.2.stage.deletes = true) → True →
        ctx.machine.step config move = some next →
          .removeFile path ∈ next.1.log → next.2.stage.deletes = true := by
    intro config move next hbefore _ hnext hmem
    have hcases := jobStep_cases hnext
    refine deletes_of_step hcases ?_
    rcases (jobStep_emits hcases).mem hmem with hlogged | hemits
    · exact hbefore hlogged
    · cases hemits with
      | removed hstage => simp [hstage]
      | file _ heffect => cases heffect
  exact ctx.machine.run_invariant hstep (fun _ _ => trivial) (by simp) hrun hremoved

/-- A step that changes the bytes at the final path of a file is its rename. -/
theorem JobShape.final_changes (hshape : ctx.JobShape start world.disk state)
    (hnames : CleanNames ctx.manifest) (hapart : ctx.RemovalApart) {move : JobMove}
    (hstep : ctx.JobStep world state move world' state') {file : ManifestFile} {name : String}
    (hfile : file ∈ ctx.manifest.files) (hname : file.filename = some name)
    (hdir : file.isDirectory = false)
    (hchanged : world'.disk.read (ctx.job.finalPlace name) ≠
      world.disk.read (ctx.job.finalPlace name)) :
    ctx.FinalRename name world state move world' := by
  have hclean := hnames.clean name (List.mem_filterMap.mpr ⟨file, hfile, hname⟩)
  cases hstep with
  | unnamed | filtered | directory | unchanged | spawned | spawnDone | awaited | awaitFailed
  | awaitDone | deleteBegun | kept | deleteDone | reportedError => exact absurd rfl hchanged
  | reported => exact absurd (by rw [report_disk]) hchanged
  | @deleted old rest removed hstage hremoved =>
      obtain ⟨previous, hold, hrest⟩ := hshape.deleting _ hstage
      have hne := hapart _ ⟨previous, hold, old, hrest _ List.mem_cons_self, removed, hremoved, rfl⟩
        file hfile name hname hdir
      exact absurd (FileTree.remove_changesOnly _ _ _ hne.symm).read_eq hchanged
  | @file position fileJob fileMove _ fileState hget hfileStep =>
      have hmem := List.mem_of_getElem? hget
      have hclean' := hnames.clean _ (hshape.name_mem hmem)
      rcases (hshape.shape position fileJob hget).touches hfileStep with hstaging | hrename
      · refine absurd (hstaging _ ?_).read_eq hchanged
        exact (ctx.job.stagingPlace_ne_finalPlace hclean' hclean).symm
      · refine ⟨position, fileJob, fileMove, fileState, rfl, hget, ?_, hrename⟩
        by_contra hne
        refine hchanged (hshape.step_changesOnly hget hfileStep _ ?_).read_eq
        rintro (heq | heq)
        · exact ctx.job.stagingPlace_ne_finalPlace hclean' hclean heq.symm
        · exact hne ((ctx.job.finalPlace_inj hclean hclean').mp heq).symm

/-- In every state of every run of a download with clean names whose deletion
pass keeps away from the new files: a file with a failed chunk has the bytes from
before, an error has deleted nothing, and the next step changes the bytes at a
final path only as the rename of a complete file, which still has the bytes from
before. -/
theorem download_failure_safe (hnames : CleanNames ctx.manifest) (hapart : ctx.RemovalApart)
    {disk : Disk} {moves : List JobMove}
    (hrun : ctx.download disk moves = some (world, state)) :
    (∀ fileJob ∈ state.files, ∀ chunkTask ∈ fileJob.state.chunkTasks, ∀ error,
      chunkTask.stage = .done (.error error) →
        world.disk.read (ctx.job.finalPlace fileJob.task.filename) =
          disk.read (ctx.job.finalPlace fileJob.task.filename)) ∧
    (∀ error, state.stage = .returned (.error error) →
      (∀ path, .removeFile path ∉ world.log) ∧
      ∀ place, disk.present place = true →
        (∀ name ∈ manifestNames ctx.manifest, place ≠ ctx.job.stagingPlace name) →
          world.disk.present place = true) ∧
    (∀ move world' state', ctx.machine.step (world, state) move = some (world', state') →
      ∀ file ∈ ctx.manifest.files, ∀ name, file.filename = some name →
        file.isDirectory = false →
        world'.disk.read (ctx.job.finalPlace name) ≠ world.disk.read (ctx.job.finalPlace name) →
          ctx.FinalRename name world state move world' ∧
          world.disk.read (ctx.job.finalPlace name) = disk.read (ctx.job.finalPlace name)) := by
  have hshape := JobShape.run hnames hrun
  refine ⟨fun fileJob hmem chunkTask htask error hfailed => hshape.failed_kept hmem htask hfailed,
    fun error hstage => ⟨fun path hremoved => ?_, fun place hpresent hstaging => ?_⟩,
    fun move world' state' hstep file hfile name hname hdir hchanged => ?_⟩
  · have hdeletes := deletes_of_removeFile hrun hremoved
    simp [hstage] at hdeletes
  · exact hshape.present_kept (by simp [hstage]) hpresent hstaging
  · have hrename :=
      hshape.final_changes hnames hapart (jobStep_cases hstep) hfile hname hdir hchanged
    refine ⟨hrename, ?_⟩
    obtain ⟨position, fileJob, _, _, _, hget, rfl, hrenames⟩ := hrename
    refine (hshape.kept fileJob (List.mem_of_getElem? hget) ?_).read_eq
    rw [hrenames.stage]
    simp

/-- An upgrade from `b.txt` to `a.txt`, whose chunk nobody serves, and to the empty file
`c.txt`. -/
def brokenUpgrade : JobContext :=
  offline
    (manifestOf
      [{ zeroFile "a.txt" 5 with
          chunks := [⟨some ⟨.replicate 20 7⟩, some 0x62A021C, some 0, some 32, some 5⟩] },
        zeroFile "c.txt" 0])
    (some (manifestOf [zeroFile "b.txt" 3]))

/-- The old `a.txt` and `b.txt`. -/
def brokenDisk : Disk :=
  .ofFiles [(["home", "game", "a.txt"], [111, 108, 100]),
    (["home", "game", "b.txt"], [98, 98, 98])]

/-- The chunk of `a.txt` fails in all its attempts and the job returns the error. The task of
`c.txt` goes on. -/
def brokenMoves : List JobMove :=
  List.replicate 3 (.main none) ++ List.replicate 9 (.file 0 ⟨.main, none⟩) ++
    List.replicate 5 (.file 0 ⟨.chunk 0, none⟩) ++ [.file 0 ⟨.main, none⟩, .finish 0, .main none] ++
      List.replicate 9 (.file 1 ⟨.main, none⟩)

/-- The chunk task has failed because nobody serves its chunk. -/
def chunkFailed (chunkTask : ChunkTask) : Bool :=
  chunkTask.stage == .done (.error (.fetch "offline"))

theorem brokenUpgrade_cleanNames : CleanNames brokenUpgrade.manifest where
  distinct := by decide
  clean name hmem := by
    obtain rfl | rfl : name = "a.txt" ∨ name = "c.txt" := by
      simpa [brokenUpgrade, offline, manifestNames, manifestOf, zeroFile] using hmem
    · exact ⟨by decide, by decide⟩
    · exact ⟨by decide, by decide⟩

theorem brokenUpgrade_removalApart : brokenUpgrade.RemovalApart := by
  rintro place ⟨old, hold, file, hfile, name, hremoved, rfl⟩ file' hfile' name' hname' _
  cases hold
  rw [List.mem_singleton.mp hfile] at hremoved
  cases hremoved
  rcases List.mem_cons.mp hfile' with rfl | hfile'
  · cases hname'
    decide
  · rw [List.mem_singleton.mp hfile'] at hname'
    cases hname'
    decide

/-- `a.txt` keeps its bytes and `b.txt` stays. The next step installs `c.txt`. -/
theorem download_failure_safe_sample :
    ∃ world state world' state',
      brokenUpgrade.download brokenDisk brokenMoves = some (world, state) ∧
      state.stage = .returned (.error (.fetch "offline")) ∧
      (∃ fileJob ∈ state.files, fileJob.task.filename = "a.txt" ∧
        ∃ chunkTask ∈ fileJob.state.chunkTasks,
          chunkTask.stage = .done (.error (.fetch "offline"))) ∧
      world.disk.read ["home", "game", "a.txt"] = some [111, 108, 100] ∧
      (∀ path, .removeFile path ∉ world.log) ∧
      world.disk.present ["home", "game", "b.txt"] = true ∧
      brokenUpgrade.machine.step (world, state) (.file 1 ⟨.main, none⟩) = some (world', state') ∧
      brokenUpgrade.FinalRename "c.txt" world state (.file 1 ⟨.main, none⟩) world' ∧
      world.disk.read ["home", "game", "c.txt"] = none := by
  have hany : (brokenUpgrade.download brokenDisk brokenMoves).any (fun config =>
      config.2.stage == .returned (.error (.fetch "offline")) &&
        (config.2.files.any fun fileJob =>
          fileJob.task.filename == "a.txt" && fileJob.state.chunkTasks.any chunkFailed) &&
        ((brokenUpgrade.machine.step config (.file 1 ⟨.main, none⟩)).any fun next =>
          next.1.disk.read ["home", "game", "c.txt"] !=
            config.1.disk.read ["home", "game", "c.txt"])) = true := by decide +kernel
  obtain ⟨⟨world, state⟩, hrun, hchecks⟩ := Machine.exists_of_run_any _ hany
  simp only [Bool.and_eq_true, beq_iff_eq, bne_iff_ne, List.any_eq_true, Option.any_eq_true]
    at hchecks
  obtain ⟨⟨hstage, fileJob, hmem, hname, chunkTask, htask, hfailed⟩, ⟨world', state'⟩, hstep,
    hchanged⟩ := hchecks
  have hfailed : chunkTask.stage = .done (.error (.fetch "offline")) := beq_iff_eq.mp hfailed
  obtain ⟨hkept, herror, hchanges⟩ :=
    download_failure_safe brokenUpgrade_cleanNames brokenUpgrade_removalApart hrun
  have hold := hkept fileJob hmem chunkTask htask _ hfailed
  rw [hname] at hold
  obtain ⟨hremoved, hpresent⟩ := herror _ hstage
  obtain ⟨hrename, hbefore⟩ := hchanges _ _ _ hstep (zeroFile "c.txt" 0) (by decide) "c.txt" rfl rfl
    hchanged
  exact ⟨world, state, world', state', hrun, hstage,
    ⟨fileJob, hmem, hname, chunkTask, htask, hfailed⟩, hold, hremoved,
    hpresent _ (by decide) (by decide), hstep, hrename, hbefore⟩

/-- The previous manifest spells the name of the new file differently: the
deletion pass of a successful download removes the file that was just installed. -/
theorem removal_hits_new_file :
    ∃ moves world state world' state',
      CleanNames (manifestOf [zeroFile "a.txt" 0]) ∧
      (offline (manifestOf [zeroFile "a.txt" 0])
        (some (manifestOf [zeroFile "./a.txt" 0]))).download .empty moves = some (world, state) ∧
      (offline (manifestOf [zeroFile "a.txt" 0])
        (some (manifestOf [zeroFile "./a.txt" 0]))).machine.step (world, state) (.main none) =
          some (world', state') ∧
      world.disk.read ["home", "game", "a.txt"] = some [] ∧
      world'.disk.read ["home", "game", "a.txt"] = none := by
  have hany : ((offline (manifestOf [zeroFile "a.txt" 0])
      (some (manifestOf [zeroFile "./a.txt" 0]))).download .empty
        (List.replicate 2 (.main none) ++ offlineMoves 0 ++ List.replicate 2 (.main none))).any
          (fun config => config.1.disk.read ["home", "game", "a.txt"] == some [] &&
            ((offline (manifestOf [zeroFile "a.txt" 0])
              (some (manifestOf [zeroFile "./a.txt" 0]))).machine.step config (.main none)).any
                fun next => next.1.disk.read ["home", "game", "a.txt"] == none) = true := by decide
  obtain ⟨⟨world, state⟩, hrun, hboth⟩ := Machine.exists_of_run_any _ hany
  rw [Bool.and_eq_true, beq_iff_eq, Option.any_eq_true] at hboth
  obtain ⟨hbefore, ⟨world', state'⟩, hstep, hafter⟩ := hboth
  exact ⟨_, world, state, world', state', cleanNames_single rfl ⟨by decide, by decide⟩, hrun, hstep,
    hbefore, by simpa using hafter⟩

end JobContext

end DepotDownloader.SteamClient
