import DepotDownloader.Cli.Session
import DepotDownloader.SteamClient.Download.Outcome

/-! # Where the files on disk come from

`depot.json` names one manifest for a depot and says nothing about the disk: not in
which directory the manifest was installed, not which of its files were selected,
and not what a later download replaced before it failed. A history variable
remembers for every place the entry that its file was last put there for. The
invariant of sessions is that the file passes the check of that entry.
-/

namespace DepotDownloader.Cli

open Foundation Foundation.LexPath Steam SteamClient

/-- For every place the entry that its file was last put there for. -/
abbrev Origins := Place → Option ManifestFile

/-- The file at the place was put there for an entry with the content of this one. -/
def Origins.Give (origins : Origins) (place : Place) (file : ManifestFile) : Prop :=
  ∃ entry, origins place = some entry ∧ ∀ data, Accepts entry data → Accepts file data

instance decidableStored (place : Place) : Decidable (Stored place) :=
  inferInstanceAs (Decidable (".depotdownloader" ∈ place))

/-- The origins after a download. A staging file, a file of a store and a file that
is missing have none. -/
def tracked (ctx : JobContext) (disk : Disk) (state : JobState) (origins : Origins) : Origins :=
  fun place =>
    if Stored place ∨ ctx.staged state place ∨ disk.present place = false then none
    else (ctx.placed state place).or (origins place)

/-- What the manifests of a download promise: clean names that the deletion pass
keeps apart, complete entries, and hashes and chunk identifiers that name contents. -/
structure Ordinary (ctx : JobContext) : Prop where
  names : CleanNames ctx.manifest
  apart : ctx.RemovalApart
  complete : ∀ file name, ctx.Selected file name → ∃ length, Layout file.size file.chunks length
  hashes : ∀ file name old, ctx.Selected file name → ctx.job.oldFile name = some old →
    old.shaContent = file.shaContent → file.shaContent.isSome →
      ∀ data, Accepts old data → Accepts file data
  chunks : ∀ file name old, ctx.Selected file name → ctx.job.oldFile name = some old →
    JobContext.SameChunks old file

/-- What a download takes over is what it is taken for: a staging file only where
chunk identifiers tell the chunks apart, and an existing file only where it was put
for an entry with the content of the previous manifest's entry. The chunks of an existing
file can be read. -/
structure TakesOver (ctx : JobContext) (start : Disk) (origins : Origins) : Prop where
  staged : ∀ file name, ctx.Selected file name →
    start.read (ctx.job.stagingPlace name) = none ∨ DistinctIds file.chunks
  existing : ∀ file name old, ctx.Selected file name → ctx.job.oldFile name = some old →
    start.present (ctx.job.finalPlace name) = true →
      (old.shaContent = file.shaContent ∧ file.shaContent.isSome) ∨
          JobContext.SharesChunk old file →
        origins.Give (ctx.job.finalPlace name) old
  reads : ∀ position task, (ctx.tasks start)[position]? = some task →
    start.present (ctx.job.finalPlace task.filename) = true →
      (ctx.fileContext position task).ReadsListed

namespace CliEnv

variable (env : CliEnv)

/-- The origins after an iteration of the depot loop. -/
def trace (disk : Disk) (iteration : Iteration) (origins : Origins) : Origins :=
  match env.prepareDepot iteration.args disk iteration.request with
  | (prepared, .download ctx _) =>
      match ctx.download prepared iteration.request.moves with
      | none => origins
      | some (world, state) => tracked ctx world.disk state origins
  | _ => origins

/-- Sessions with the origins of the files. -/
def traced : Machine (Disk × Origins) Iteration := env.session.recording env.trace

/-- The iteration does not download, or its manifests keep their promises and what
it takes over is what it is taken for. -/
def Careful (config : Disk × Origins) (iteration : Iteration) : Prop :=
  ∀ prepared ctx manifestId,
    env.prepareDepot iteration.args config.1 iteration.request =
        (prepared, .download ctx manifestId) →
      Ordinary ctx ∧ TakesOver ctx prepared config.2

end CliEnv

/-- Every file with an origin passes the check of that entry. -/
def Faithful (config : Disk × Origins) : Prop :=
  ∀ place entry, config.2 place = some entry →
    ¬ Stored place ∧ ∃ data, config.1.read place = some data ∧ Accepts entry data

variable {disk disk' start : Disk} {origins : Origins} {ctx : JobContext} {world : World}
  {state : JobState}

theorem Faithful.initial (disk : Disk) : Faithful (disk, fun _ => none) := by
  intro place entry horigin
  cases horigin

/-- A change that only concerns the stores concerns no origin. -/
theorem Faithful.of_stored (hfaithful : Faithful (disk, origins))
    (hchanges : FileTree.ChangesOnly Stored disk disk') : Faithful (disk', origins) := by
  intro place entry horigin
  obtain ⟨hstored, data, hread, haccepts⟩ := hfaithful place entry horigin
  exact ⟨hstored, data, (hchanges place hstored).read_eq.trans hread, haccepts⟩

/-- A file that has the content of an entry by its origin passes as that entry. -/
theorem Faithful.accepts (hfaithful : Faithful (disk, origins)) {place : Place}
    {file : ManifestFile} (hgives : origins.Give place file) :
    ∃ data, disk.read place = some data ∧ Accepts file data := by
  obtain ⟨entry, horigin, hcontent⟩ := hgives
  obtain ⟨_, data, hread, haccepts⟩ := hfaithful place entry horigin
  exact ⟨data, hread, hcontent data haccepts⟩

/-- On a faithful disk a download only takes over what it can trust. -/
theorem Faithful.soundTasks (hfaithful : Faithful (start, origins)) (hordinary : Ordinary ctx)
    (htakes : TakesOver ctx start origins) : ctx.SoundTasks start := by
  refine JobContext.soundTasks_of_previous hordinary.names hordinary.complete htakes.staged ?_
    htakes.reads
  intro file name old data hselected hold hread
  refine ⟨hordinary.chunks file name old hselected hold, fun hshares => ?_⟩
  have hpresent := FileTree.present_iff_read.mpr ⟨data, hread⟩
  have hgives := htakes.existing file name old hselected hold hpresent (.inr hshares)
  obtain ⟨found, hfound, haccepts⟩ := hfaithful.accepts hgives
  rw [hread, Option.some.injEq] at hfound
  exact hfound ▸ haccepts

/-- A download keeps the disk faithful, however it ends. -/
theorem Faithful.download (hfaithful : Faithful (start, origins)) (hordinary : Ordinary ctx)
    (htakes : TakesOver ctx start origins) {moves : List JobMove}
    (hrun : ctx.download start moves = some (world, state)) :
    Faithful (world.disk, tracked ctx world.disk state origins) := by
  have hsound := hfaithful.soundTasks hordinary htakes
  have hshape := JobContext.JobShape.run hordinary.names hrun
  have hcontent := JobContext.JobContent.run hordinary.names hordinary.apart hsound hrun
  intro place entry horigin
  simp only [tracked] at horigin
  split at horigin
  next => cases horigin
  next hknown =>
    simp only [not_or, Bool.not_eq_false] at hknown
    obtain ⟨hstored, hstaged, hpresent⟩ := hknown
    refine ⟨hstored, ?_⟩
    cases hplaced : ctx.placed state place with
    | some other =>
        rw [hplaced, Option.some_or] at horigin
        cases horigin
        exact hcontent.placed_accepted hshape hordinary.names hsound hplaced
    | none =>
        rw [hplaced, Option.none_or] at horigin
        have hsame := hshape.same_of_unplaced hordinary.names hrun hplaced hstaged hpresent
        obtain ⟨_, data, hread, haccepts⟩ := hfaithful place entry horigin
        exact ⟨data, hsame.read_eq.trans hread, haccepts⟩

/-- A file of a faithful disk that a download takes for unchanged is what the new
manifest says. -/
theorem Faithful.unchanged_valid (hfaithful : Faithful (start, origins))
    (hordinary : Ordinary ctx) (htakes : TakesOver ctx start origins) {file : ManifestFile}
    {name : String} (hselected : ctx.Selected file name)
    (hunchanged : ctx.job.unchanged start file name = true) :
    JobContext.FileValid ctx.job start file name := by
  obtain ⟨old, hold, hsame⟩ := (Option.any_eq_true _ _).mp hunchanged
  simp only [Bool.and_eq_true, beq_iff_eq] at hsame
  obtain ⟨⟨hsha, hsome⟩, hpresent⟩ := hsame
  have hgives := htakes.existing file name old hselected hold hpresent (.inl ⟨hsha, hsome⟩)
  obtain ⟨data, hread, haccepts⟩ := hfaithful.accepts hgives
  apply fileHasValidChunks_accepts.mpr
  exact ⟨data, hread, hordinary.hashes file name old hselected hold hsha hsome data haccepts⟩

/-- A download that returns Ok leaves every file it selected with an origin of that
content, whether it was downloaded, found valid or taken for unchanged. -/
theorem Faithful.tracked_gives (hfaithful : Faithful (start, origins))
    (hordinary : Ordinary ctx) (htakes : TakesOver ctx start origins) {moves : List JobMove}
    (hrun : ctx.download start moves = some (world, state))
    (hok : state.stage = .returned (.ok ())) {file : ManifestFile} {name : String}
    (hselected : ctx.Selected file name) (hunstored : ¬ Stored (ctx.job.finalPlace name)) :
    (tracked ctx world.disk state origins).Give (ctx.job.finalPlace name) file := by
  have hnames := hordinary.names
  have hsound := hfaithful.soundTasks hordinary htakes
  have hshape := JobContext.JobShape.run hnames hrun
  have hclean := hnames.clean name
    (List.mem_filterMap.mpr ⟨file, hselected.1, hselected.2.1⟩)
  have hinstalled := JobContext.download_installed hnames hordinary.apart hsound hrun hok
    hselected.1 hselected.2.1 hselected.2.2.1 hselected.2.2.2
  have hpresent : world.disk.present (ctx.job.finalPlace name) = true := by
    rcases hinstalled with hvalid | ⟨hunchanged, hsame⟩
    · obtain ⟨data, hread, _⟩ := fileHasValidChunks_accepts.mp hvalid
      exact FileTree.present_iff_read.mpr ⟨data, hread⟩
    · obtain ⟨old, _, hboth⟩ := (Option.any_eq_true _ _).mp hunchanged
      rw [hsame.present_eq]
      exact (Bool.and_eq_true_iff.mp hboth).2
  have hunstaged : ¬ ctx.staged state (ctx.job.finalPlace name) = true := by
    intro hstaged
    obtain ⟨fileJob, hmem, heq⟩ := List.any_eq_true.mp hstaged
    have hother := hnames.clean _ (hshape.name_mem hmem)
    exact ctx.job.stagingPlace_ne_finalPlace hother hclean (beq_iff_eq.mp heq)
  unfold Origins.Give tracked
  rw [if_neg (by simp [hunstored, hunstaged, hpresent])]
  cases hplaced : ctx.placed state (ctx.job.finalPlace name) with
  | some entry =>
      rw [JobContext.placed_of_selected hnames hselected hplaced]
      exact ⟨file, rfl, fun _ => id⟩
  | none =>
      have hunchanged := hshape.unchanged_of_unplaced hok hselected hplaced
      obtain ⟨old, hold, hsame⟩ := (Option.any_eq_true _ _).mp hunchanged
      simp only [Bool.and_eq_true, beq_iff_eq] at hsame
      obtain ⟨⟨hsha, hsome⟩, hbefore⟩ := hsame
      obtain ⟨entry, horigin, hcontent⟩ :=
        htakes.existing file name old hselected hold hbefore (.inl ⟨hsha, hsome⟩)
      refine ⟨entry, by rw [Option.none_or, horigin], fun data haccepts => ?_⟩
      have haccepted := hcontent data haccepts
      exact hordinary.hashes file name old hselected hold hsha hsome data haccepted

namespace CliEnv

variable {env : CliEnv} {iteration : Iteration} {prepared : Disk} {manifestId : ManifestId}

theorem trace_of_not_download {prepared : Prepared}
    (hprepare : env.prepareDepot iteration.args disk iteration.request = (disk', prepared))
    (hidle : ∀ ctx manifestId, prepared ≠ .download ctx manifestId) :
    env.trace disk iteration origins = origins := by
  unfold trace
  rw [hprepare]
  cases prepared with
  | aborted | upToDate => rfl
  | download ctx manifestId => exact absurd rfl (hidle ctx manifestId)

theorem trace_of_download
    (hprepare : env.prepareDepot iteration.args disk iteration.request =
      (prepared, .download ctx manifestId))
    (hrun : ctx.download prepared iteration.request.moves = some (world, state)) :
    env.trace disk iteration origins = tracked ctx world.disk state origins := by
  simp only [trace, hprepare, hrun]

/-- An iteration keeps the disk faithful. -/
theorem faithful_step {config config' : Disk × Origins} (hfaithful : Faithful config)
    (hcareful : env.Careful config iteration)
    (hstep : env.traced.step config iteration = some config') : Faithful config' := by
  obtain ⟨disk, origins⟩ := config
  obtain ⟨disk', hnext, rfl⟩ := Option.map_eq_some_iff.mp hstep
  have hprepared {prepared : Disk} {outcome : Prepared}
      (hprepare : env.prepareDepot iteration.args disk iteration.request = (prepared, outcome)) :
      Faithful (prepared, origins) := hfaithful.of_stored (prepareDepot_changesOnly hprepare)
  have hdownloaded {ctx : JobContext} {manifestId : ManifestId} {prepared : Disk} {world : World}
      {state : JobState}
      (hprepare : env.prepareDepot iteration.args disk iteration.request =
        (prepared, .download ctx manifestId))
      (hrun : ctx.download prepared iteration.request.moves = some (world, state)) :
      Faithful (world.disk, env.trace disk iteration origins) := by
    rw [trace_of_download hprepare hrun]
    obtain ⟨hordinary, htakes⟩ := hcareful prepared ctx manifestId hprepare
    exact (hprepared hprepare).download hordinary htakes hrun
  cases session_cases hnext with
  | aborted hprepare | upToDate hprepare =>
      rw [show env.trace disk iteration origins = origins from
        trace_of_not_download hprepare (by simp)]
      exact hprepared hprepare
  | recorded hprepare hrun =>
      exact (hdownloaded hprepare hrun).of_stored (recordInstalled_changesOnly _ _ _ _ _)
  | interrupted hprepare hrun => exact hdownloaded hprepare hrun

/-- In a session whose iterations are careful the disk is faithful. -/
theorem faithful_run {config : Disk × Origins} {iterations : List Iteration}
    (hrun : env.traced.RunWhere env.Careful (disk, fun _ => none) iterations config) :
    Faithful config :=
  Machine.RunWhere.invariant env.traced (fun _ _ _ => faithful_step) (.initial disk) hrun

end CliEnv

end DepotDownloader.Cli
