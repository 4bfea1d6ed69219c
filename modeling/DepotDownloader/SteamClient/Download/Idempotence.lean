import DepotDownloader.SteamClient.Download.DepotProgress
import DepotDownloader.SteamClient.Download.FreshFile
import DepotDownloader.SteamClient.Download.Installed

/-! # Downloading again

A download of a manifest whose files all pass the check looks at every file and
does nothing else: it fetches nothing, changes nothing and returns Ok.
-/

namespace DepotDownloader.SteamClient

open Foundation Foundation.LexPath Steam

namespace FileContext

/-- A file task that has found nothing to do yet. -/
structure FileIdle (state : FileState) : Prop where
  early : state.stage.phase ≤ 2 ∨ state.stage = .done (.ok ())
  tasks : state.chunkTasks = []

variable {ctx : FileContext} {world world' : World} {state state' : FileState} {move : FileMove}

/-- Without faults a task whose final file is valid goes on finding nothing to
do. -/
theorem FileIdle.step (hidle : FileIdle state) (hfault : move.fault = none)
    (hvalid : fileHasValidChunks world.disk ctx.finalPlace ctx.task.size ctx.task.chunks
      ctx.silent.final = true)
    (hstep : ctx.step (world, state) move = some (world', state')) :
    FileIdle state' ∧ world'.disk = world.disk ∧
      ∀ call, .fetchChunk call ∈ world'.log → .fetchChunk call ∈ world.log := by
  rcases step_cases hstep with hmain | ⟨_, hchunk⟩
  · rw [hfault] at hmain
    cases hmain with
    | stagingDir | finalDir => exact ⟨⟨.inl (by simp), hidle.tasks⟩, rfl, by simp⟩
    | noStagingDir | noFinalDir => exact ⟨⟨.inl (by simp), hidle.tasks⟩, rfl, by simp⟩
    | finalValid => exact ⟨⟨.inr rfl, hidle.tasks⟩, rfl, by simp⟩
    | finalInvalid _ hinvalid =>
        rw [hvalid] at hinvalid
        cases hinvalid
    | failed hphase hcause =>
        exfalso
        rcases hcause with hfault | ⟨hstage, _⟩ | ⟨task, _, hmem, _⟩ | ⟨hstage, _⟩
        · cases hfault
        · rcases hidle.early with h | h <;> simp [hstage] at h
        · simp [hidle.tasks] at hmem
        · rcases hidle.early with h | h <;> simp [hstage] at h
    | stagingComplete hstage | stagingPartial hstage | stagingMissing hstage | resumed hstage
    | created hstage | sized hstage | unsized hstage | oldOpened hstage | oldMissing hstage
    | copied hstage | copyFault hstage | notCopied hstage | copyDone hstage | chunkSkipped hstage
    | chunkSpawned hstage | spawnDone hstage | awaited hstage | awaitDone hstage
    | renamed hstage =>
        rcases hidle.early with h | h <;> simp [hstage] at h
  · cases hchunk with
    | fetch htask | accepted htask | unplaced htask | locked htask | sought htask
    | seekFault htask | wrote htask | writeFault htask | noAttempt htask | rejected htask =>
        simp [hidle.tasks] at htask

end FileContext

namespace JobContext

variable {ctx : JobContext} {start : Disk} {world world' : World} {state state' : JobState}

/-- The files of all entries that a download selects pass its check. -/
def AllValid (ctx : JobContext) (disk : Disk) : Prop :=
  ∀ file ∈ ctx.manifest.files, ∀ name, file.filename = some name →
    ctx.job.filteredOut name = false → file.isDirectory = false → FileValid ctx.job disk file name

/-- The invariant of a download that has nothing to do. -/
structure JobIdle (ctx : JobContext) (start : Disk) (config : JobConfig) : Prop where
  shape : ctx.JobShape start config.1.disk config.2
  disk : config.1.disk = start
  unfetched : ∀ call, .fetchChunk call ∉ config.1.log
  files : ∀ fileJob ∈ config.2.files, FileContext.FileIdle fileJob.state
  unfailed : ∀ error, config.2.stage ≠ .returned (.error error)

theorem JobIdle.step (hnames : CleanNames ctx.manifest)
    (hfresh : ctx.job.previousManifest = none) (hsilent : ∀ position, ctx.silent position = .none)
    (hvalid : ctx.AllValid start) (hidle : ctx.JobIdle start (world, state)) {move : JobMove}
    (hfault : move.Faultless)
    (hstep : ctx.step (world, state) move = some (world', state')) :
    ctx.JobIdle start (world', state') := by
  have hshape := hidle.shape.step hnames hstep
  have hfinished {fileJob : FileJob} (hmem : fileJob ∈ state.files) {error : DownloadError}
      (hfailed : fileJob.state.stage = .done (.error error)) : False := by
    rcases (hidle.files fileJob hmem).early with h | h <;> simp [hfailed] at h
  have hset {position : Nat} {fileJob' : FileJob} (hbefore : FileContext.FileIdle fileJob'.state) :
      ∀ fileJob ∈ state.files.set position fileJob', FileContext.FileIdle fileJob.state := by
    intro fileJob hmem
    rcases List.mem_or_eq_of_mem_set hmem with hmem | rfl
    · exact hidle.files fileJob hmem
    · exact hbefore
  have hemits (hlog : Emitted (fun effect => ∀ call, effect ≠ .fetchChunk call) world world') :
      ∀ call, .fetchChunk call ∉ world'.log := fun call hmem =>
    (hlog.mem hmem).elim (hidle.unfetched call) fun h => h call rfl
  cases jobStep_cases hstep with
  | unnamed | spawnDone | awaitDone | kept | deleteDone =>
      exact ⟨hshape, hidle.disk, hidle.unfetched, hidle.files, by simp⟩
  | filtered | unchanged | awaited =>
      exact ⟨hshape, hidle.disk, hemits (.one rfl (by simp [progress])), hidle.files, by simp⟩
  | directory =>
      exact ⟨hshape, hidle.disk, hemits ⟨[_, _], rfl, by simp [progress]⟩, hidle.files, by simp⟩
  | spawned =>
      refine ⟨hshape, hidle.disk, hemits (.one rfl (by simp)), fun fileJob hmem => ?_, by simp⟩
      rcases List.mem_append.mp hmem with hmem | hmem
      · exact hidle.files fileJob hmem
      · rw [List.mem_singleton.mp hmem]
        exact ⟨.inl (by simp [FileState.initial]), rfl⟩
  | awaitFailed _ hget hfailed =>
      have hmem := List.mem_of_getElem? hget
      exact (hfinished hmem (hidle.shape.finished _ hmem _ hfailed)).elim
  -- without a previous manifest there is no deletion pass
  | deleteBegun _ _ hold =>
      rw [hfresh] at hold
      cases hold
  | deleted hstage =>
      obtain ⟨old, hold, _⟩ := hidle.shape.deleting _ hstage
      rw [hfresh] at hold
      cases hold
  | @file position fileJob fileMove _ fileState hget hfile =>
      have hmem := List.mem_of_getElem? hget
      obtain ⟨file, hentry, hspawned⟩ := hidle.shape.task_spec hmem
      obtain ⟨name, hname, hfilter, hdir, _, htask⟩ := DepotJob.spawnedTask_eq_some.mp hspawned
      -- the disk is still that of the start, where the final file passes the check
      have hcheck : fileHasValidChunks world.disk (ctx.fileContext position fileJob.task).finalPlace
          fileJob.task.size fileJob.task.chunks (ctx.silent position).final = true := by
        rw [htask, hidle.disk, hsilent]
        exact hvalid file hentry name hname hfilter hdir
      obtain ⟨hnext, hdisk, hlog⟩ := (hidle.files _ hmem).step hfault hcheck hfile
      exact ⟨hshape, hdisk.trans hidle.disk,
        fun call hcall => hidle.unfetched call (hlog call hcall), hset hnext, hidle.unfailed⟩
  | @reported _ fileJob hget =>
      have hmem := List.mem_of_getElem? hget
      refine ⟨hshape, (report_disk ..).trans hidle.disk, hemits ?_,
        hset (hidle.files fileJob hmem), hidle.unfailed⟩
      unfold report
      split
      · exact ⟨[_, _], rfl, by simp⟩
      · exact .one rfl (by simp)
  | reportedError hget _ hfailed => exact (hfinished (List.mem_of_getElem? hget) hfailed).elim

/-- Without faults a download of valid files is bounded, goes on until it returns,
fetches nothing, changes nothing and returns Ok. -/
theorem idle_run (hnames : CleanNames ctx.manifest) (hfresh : ctx.job.previousManifest = none)
    (hsilent : ∀ position, ctx.silent position = .none)
    (hvalid : ctx.AllValid start) {moves : List JobMove} (hmoves : ∀ move ∈ moves, move.Faultless)
    (hrun : ctx.download start moves = some (world, state)) :
    moves.length ≤ ctx.rank ctx.initial ∧
      ((∀ outcome, state.stage ≠ .returned outcome) →
        ∃ move next, move.Faultless ∧ ctx.machine.step (world, state) move = some next) ∧
      (∀ outcome, state.stage = .returned outcome → outcome = .ok ()) ∧
      (∀ call, .fetchChunk call ∉ world.log) ∧ world.disk = start := by
  have hterm : ctx.machine.Terminating (ctx.JobIdle start) JobMove.Faultless
      (fun config => ∃ outcome, config.2.stage = .returned outcome)
      (fun config => ctx.rank config.2) :=
    { preserved := fun _ _ _ hidle hfault hstep =>
        hidle.step hnames hfresh hsilent hvalid hfault hstep
      decreasing := fun _ _ _ _ _ hstep => rank_jobStep (jobStep_cases hstep)
      progress := fun _ hidle hrunning =>
        job_progress hidle.shape fun outcome hstage => hrunning ⟨outcome, hstage⟩ }
  have hinitial : ctx.JobIdle start (⟨start, []⟩, ctx.initial) :=
    ⟨.initial, rfl, by simp, by simp [JobContext.initial], by simp [JobContext.initial]⟩
  have hidle := ctx.machine.run_invariant hterm.preserved hmoves hinitial hrun
  refine ⟨?_, fun hrunning => ?_, fun outcome hstage => ?_, hidle.unfetched, hidle.disk⟩
  · have hbound := hterm.run_length_le hmoves hinitial hrun
    simp only at hbound
    omega
  · exact hterm.progress _ hidle fun hdone => hdone.elim hrunning
  · cases outcome with
    | ok => rfl
    | error error => exact absurd hstage (hidle.unfailed error)

/-- Every selected entry has a size and complete chunks over disjoint regions. -/
def CompleteFiles (ctx : JobContext) : Prop :=
  ∀ file ∈ ctx.manifest.files, file.isDirectory = false →
    ∃ length, Layout file.size file.chunks length

/-- A first download that starts without staging files and without a previous
manifest trusts nothing but its own checks. -/
theorem first_soundTasks (hnames : CleanNames ctx.manifest) (hcomplete : ctx.CompleteFiles)
    (hfresh : ctx.job.previousManifest = none)
    (hstaging : ∀ name ∈ manifestNames ctx.manifest,
      start.present (ctx.job.stagingPlace name) = false) : ctx.SoundTasks start := by
  intro position task htask
  obtain ⟨file, hfile, hspawned⟩ := List.mem_filterMap.mp (List.mem_of_getElem? htask)
  obtain ⟨name, hname, _, hdir, _, rfl⟩ := DepotJob.spawnedTask_eq_some.mp hspawned
  obtain ⟨length, hlayout⟩ := hcomplete file hfile hdir
  have hmem : name ∈ manifestNames ctx.manifest := List.mem_filterMap.mpr ⟨file, hfile, hname⟩
  have hclean := hnames.clean name hmem
  have hold : (ctx.job.fileTask file name).oldChunks = none := by
    simp [DepotJob.fileTask, DepotJob.oldFile, hfresh]
  have hnone : (ctx.fileContext position (ctx.job.fileTask file name)).task.oldChunks = none := hold
  refine FileContext.checked_sound (show Layout _ _ length from hlayout)
    (ctx.job.stagingPlace_ne_finalPlace hclean hclean) (.inl ?_) ?_ ?_
  · cases hread : start.read (ctx.job.stagingPlace name) with
    | none => exact hread
    | some data =>
        have hpresent := FileTree.present_iff_read.mpr ⟨data, hread⟩
        rw [hstaging name hmem] at hpresent
        cases hpresent
  · intro _ oldChunks _ holdChunks
    rw [hnone] at holdChunks
    cases holdChunks
  · intro _ index chunk _ hlisted
    obtain ⟨chunkId, _, hmatch⟩ := hlisted
    simp [FileContext.oldMatch, hnone] at hmatch

/-- The same download once more, verifying or not and with any fetcher, and with
nothing that fails. -/
def again (ctx : JobContext) (verify : Bool) (fetcher : ChunkFetcher) : JobContext :=
  { ctx with
    job := { ctx.job with verify := verify }
    fetcher := fetcher
    silent := fun _ => .none }

/-- Downloading is idempotent: after a download without a previous manifest has
returned Ok from a disk without staging files, a second download of the manifest,
verifying or not and with any fetcher, fetches nothing, leaves the disk as it is
and returns Ok. -/
theorem download_again (hnames : CleanNames ctx.manifest) (hcomplete : ctx.CompleteFiles)
    (hfresh : ctx.job.previousManifest = none) {disk : Disk}
    (hstaging : ∀ name ∈ manifestNames ctx.manifest,
      disk.present (ctx.job.stagingPlace name) = false)
    {moves : List JobMove} (hrun : ctx.download disk moves = some (world, state))
    (hok : state.stage = .returned (.ok ())) (verify : Bool) (fetcher : ChunkFetcher)
    {moves' : List JobMove} (hmoves' : ∀ move ∈ moves', move.Faultless)
    (hrun' : (ctx.again verify fetcher).download world.disk moves' = some (world', state')) :
    moves'.length ≤ (ctx.again verify fetcher).rank (ctx.again verify fetcher).initial ∧
      ((∀ outcome, state'.stage ≠ .returned outcome) →
        ∃ move next, move.Faultless ∧
          (ctx.again verify fetcher).machine.step (world', state') move = some next) ∧
      (∀ outcome, state'.stage = .returned outcome → outcome = .ok ()) ∧
      (∀ call, .fetchChunk call ∉ world'.log) ∧ world'.disk = world.disk := by
  have hapart : ctx.RemovalApart := by
    rintro place ⟨old, hold, _⟩
    rw [hfresh] at hold
    cases hold
  have hvalid : (ctx.again verify fetcher).AllValid world.disk := by
    intro file hfile name hname hfilter hdir
    rcases download_installed hnames hapart
        (first_soundTasks hnames hcomplete hfresh hstaging) hrun hok hfile hname hfilter hdir with
      hvalid | ⟨hunchanged, _⟩
    · exact hvalid
    · simp [DepotJob.unchanged, DepotJob.oldFile, hfresh] at hunchanged
  have hnames' : CleanNames (ctx.again verify fetcher).manifest := hnames
  exact idle_run hnames' hfresh (fun _ => rfl) hvalid hmoves' hrun'

/-- A download of the file `data/a` with two chunks. -/
def pairJob : JobContext :=
  { offline (manifestOf [{ zeroFile "data/a" 13 with chunks := FileContext.pairChunks }]) none with
    codecs := FileContext.sampleFile.codecs
    fetcher := FileContext.pairFetcher }

def pairJobMoves : List JobMove :=
  List.replicate 2 (.main none) ++ FileContext.pairMoves.map (.file 0) ++ [.finish 0] ++
    List.replicate 2 (.main none)

/-- The second download finds the file complete. -/
def idleMoves : List JobMove :=
  List.replicate 2 (.main none) ++ List.replicate 3 (.file 0 ⟨.main, none⟩) ++ [.finish 0] ++
    List.replicate 2 (.main none)

/-- The first download fetches both chunks, and nothing is served to the second one. -/
theorem download_again_sample :
    ∃ world state world' state',
      pairJob.download .empty pairJobMoves = some (world, state) ∧
      world.disk.read ["home", "game", "data", "a"] =
        some [0, 0, 100, 101, 112, 111, 116, 0, 115, 116, 101, 97, 109] ∧
      (pairJob.again true fun _ => .error "unreachable").download world.disk idleMoves =
        some (world', state') ∧
      state'.stage = .returned (.ok ()) ∧ (∀ call, .fetchChunk call ∉ world'.log) ∧
      world'.disk = world.disk := by
  have hclean : CleanNames pairJob.manifest := cleanNames_single rfl ⟨by decide, by decide⟩
  have hcomplete : pairJob.CompleteFiles := by
    intro file hfile _
    rw [List.mem_singleton.mp hfile]
    exact ⟨13, FileContext.layout_pairChunks⟩
  have hany : (pairJob.download .empty pairJobMoves).any (fun first =>
      first.2.stage == .returned (.ok ()) &&
        first.1.disk.read ["home", "game", "data", "a"] ==
          some [0, 0, 100, 101, 112, 111, 116, 0, 115, 116, 101, 97, 109] &&
        ((pairJob.again true fun _ => .error "unreachable").download first.1.disk idleMoves).any
          fun second => second.2.stage == .returned (.ok ())) = true := by decide +kernel
  obtain ⟨⟨world, state⟩, hrun, hchecks⟩ := Machine.exists_of_run_any _ hany
  simp only [Bool.and_eq_true, beq_iff_eq] at hchecks
  obtain ⟨⟨hok, hread⟩, hsecond⟩ := hchecks
  obtain ⟨⟨world', state'⟩, hrun', hok'⟩ := Machine.exists_of_run_any _ hsecond
  have hagain := download_again hclean hcomplete rfl (by simp [FileTree.present, FileTree.empty])
    hrun hok true (fun _ => .error "unreachable") (by simp [idleMoves, JobMove.Faultless]) hrun'
  exact ⟨world, state, world', state', hrun, hread, hrun', by simpa using hok', hagain.2.2.2⟩

end JobContext

end DepotDownloader.SteamClient
