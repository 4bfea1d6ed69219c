import DepotDownloader.SteamClient.Download.Effects

/-! # Path confinement

A download joins the names of its manifests to the install directory without
looking at them. As long as the names that it acts on are relative, name
something and never climb above the directory they start from, every path it
acts on lies inside the install directory.
-/

namespace DepotDownloader.SteamClient

open Foundation Foundation.LexPath Steam

/-- The name is relative and never climbs above where it starts. -/
structure StaysBelow (name : String) : Prop where
  relative : (Path.ofString name).absolute = false
  climbs : NeverClimbs 0 (Path.ofString name).components

/-- The name also has a component of its own. -/
structure Confined (name : String) : Prop extends StaysBelow name where
  named : (Path.ofString name).components ≠ []

namespace DepotJob

variable (job : DepotJob)

/-- The path leads into the install directory. -/
def Inside (path : Path) : Prop := job.installPlace <+: job.place path

instance (path : Path) : Decidable (job.Inside path) := by unfold Inside; infer_instance

/-- The entry is downloaded unless its file is up to date. -/
def Selects (file : ManifestFile) (name : String) : Prop :=
  file.filename = some name ∧ job.filteredOut name = false ∧ file.isDirectory = false

variable {job} {base : Path} {name : String}

/-- A base that leads to a place, joined with some components, leads on from
there. -/
theorem place_join_components (components : List Component) :
    job.place { base with components := base.components ++ components } =
      walk (job.place base) components := by
  simp [place, Path.resolve, walk_append]

theorem place_join (hrelative : (Path.ofString name).absolute = false) :
    job.place (base.join (.ofString name)) =
      walk (job.place base) (Path.ofString name).components :=
  resolve_join _ _ _ hrelative

theorem inside_walk {here : List String} {components : List Component}
    (hhere : job.installPlace <+: here) (hclimbs : NeverClimbs 0 components) :
    job.installPlace <+: walk here components := by
  have hwalk : walk (here ++ []) components = here ++ walk [] components :=
    walk_of_neverClimbs hclimbs
  rw [List.append_nil] at hwalk
  rw [hwalk]
  exact hhere.trans (List.prefix_append _ _)

theorem inside_join (hbase : job.Inside base) (hname : StaysBelow name) :
    job.Inside (base.join (.ofString name)) := by
  unfold Inside
  rw [place_join hname.relative]
  exact inside_walk hbase hname.climbs

theorem inside_parent {parent : Path} (hbase : job.Inside base) (hname : Confined name)
    (hparent : (base.join (.ofString name)).parent = some parent) : job.Inside parent := by
  simp only [Path.parent, Path.join, hname.relative, Bool.false_eq_true, if_false] at hparent
  split at hparent <;> cases hparent
  rw [List.dropLast_append_of_ne_nil hname.named]
  unfold Inside
  rw [place_join_components]
  exact inside_walk hbase hname.climbs.dropLast

theorem inside_installDir : job.Inside job.installDir := List.prefix_rfl

theorem inside_stagingDir : job.Inside job.stagingDir :=
  inside_join inside_installDir ⟨by decide, by decide⟩

end DepotJob

namespace JobContext

/-- The tasks of a download are those of entries that it selects, whatever their
names are. -/
structure JobTasks (ctx : JobContext) (state : JobState) : Prop where
  rest : ∀ file ∈ state.stage.unspawned, file ∈ ctx.manifest.files
  tasks : ∀ fileJob ∈ state.files, ∃ file ∈ ctx.manifest.files, ∃ name,
    ctx.job.Selects file name ∧ fileJob.task = ctx.job.fileTask file name
  deleting : ∀ rest, state.stage = .deleting rest →
    ∃ old, ctx.job.previousManifest = some old ∧ ∀ file ∈ rest, file ∈ old.files

variable {ctx : JobContext} {world world' : World} {state state' : JobState}

theorem JobTasks.initial : ctx.JobTasks ctx.initial where
  rest _ hmem := hmem
  tasks := by simp [JobContext.initial]
  deleting _ h := by cases h

theorem JobTasks.step {move : JobMove} (htasks : ctx.JobTasks state)
    (hstep : ctx.JobStep world state move world' state') : ctx.JobTasks state' := by
  have hset {position : Nat} {fileJob : FileJob} (fileJob' : FileJob)
      (hget : state.files[position]? = some fileJob) (htask : fileJob'.task = fileJob.task) :
      ∀ other ∈ state.files.set position fileJob', ∃ file ∈ ctx.manifest.files, ∃ name,
        ctx.job.Selects file name ∧ other.task = ctx.job.fileTask file name := by
    intro other hmem
    rcases List.mem_or_eq_of_mem_set hmem with hmem | rfl
    · exact htasks.tasks other hmem
    · rw [htask]
      exact htasks.tasks _ (List.mem_of_getElem? hget)
  have hpass {file : ManifestFile} {rest : List ManifestFile}
      (hstage : state.stage = .spawning (file :: rest)) :
      ∀ file ∈ rest, file ∈ ctx.manifest.files :=
    fun other hmem => htasks.rest other (by simp [hstage, hmem])
  cases hstep with
  | unnamed hstage | filtered hstage | directory hstage | unchanged hstage =>
      exact ⟨hpass hstage, htasks.tasks, fun _ h => by cases h⟩
  | @spawned file _ name _ hstage hname hfilter hdir =>
      refine ⟨hpass hstage, fun fileJob hmem => ?_, fun _ h => by cases h⟩
      rcases List.mem_append.mp hmem with hmem | hmem
      · exact htasks.tasks fileJob hmem
      · rw [List.mem_singleton.mp hmem]
        exact ⟨file, htasks.rest file (by simp [hstage]), name, ⟨hname, hfilter, hdir⟩, rfl⟩
  | spawnDone | awaited | awaitFailed | awaitDone | deleteDone =>
      exact ⟨by simp, htasks.tasks, fun _ h => by cases h⟩
  | deleteBegun _ _ hold =>
      refine ⟨by simp, htasks.tasks, ?_⟩
      rintro _ ⟨⟩
      exact ⟨_, hold, fun _ hmem => hmem⟩
  | deleted hstage | kept hstage =>
      refine ⟨by simp, htasks.tasks, ?_⟩
      rintro _ ⟨⟩
      obtain ⟨old, hold, hrest⟩ := htasks.deleting _ hstage
      exact ⟨old, hold, fun file hmem => hrest file (List.mem_cons_of_mem _ hmem)⟩
  | file hget => exact ⟨htasks.rest, hset _ hget rfl, htasks.deleting⟩
  | reported hget | reportedError hget => exact ⟨htasks.rest, hset _ hget rfl, htasks.deleting⟩

/-- The names that a download acts on stay where they belong. -/
structure ConfinedNames (ctx : JobContext) : Prop where
  selected : ∀ file ∈ ctx.manifest.files, ∀ name, ctx.job.Selects file name → Confined name
  removed : ∀ old, ctx.job.previousManifest = some old → ∀ file ∈ old.files, ∀ name,
    removedName ctx.manifest file = some name → StaysBelow name
  unstaged : ∀ file ∈ ctx.manifest.files, ∀ name, ctx.job.Selects file name →
    ∀ file' ∈ ctx.manifest.files, ∀ name', ctx.job.Selects file' name' →
      walk [] (Path.ofString name').components ≠
        ".staging" :: walk [] (Path.ofString name).components

theorem ConfinedNames.emits (hnames : ctx.ConfinedNames) (htasks : ctx.JobTasks state)
    {effect : Effect} (heffect : ctx.Emits state effect) {path : Path}
    (hpath : effect.acted = some path) : ctx.job.Inside path := by
  cases heffect with
  | sent => cases hpath
  | @permitted fileJob hmem =>
      obtain ⟨file, hfile, name, hselects, htask⟩ := htasks.tasks fileJob hmem
      cases hpath
      rw [htask]
      exact DepotJob.inside_join DepotJob.inside_installDir
        (hnames.selected file hfile name hselects).toStaysBelow
  | removed hstage hremoved =>
      obtain ⟨old, hold, hrest⟩ := htasks.deleting _ hstage
      cases hpath
      exact DepotJob.inside_join DepotJob.inside_installDir
        (hnames.removed old hold _ (hrest _ List.mem_cons_self) _ hremoved)
  | @file position fileJob _ hmem heffect =>
      obtain ⟨file, hfile, name, hselects, htask⟩ := htasks.tasks fileJob hmem
      have hconfined := hnames.selected file hfile name hselects
      rw [htask] at heffect
      cases heffect with
      | stagingDir hparent =>
          cases hpath
          exact DepotJob.inside_parent DepotJob.inside_stagingDir hconfined hparent
      | finalDir hparent =>
          cases hpath
          exact DepotJob.inside_parent DepotJob.inside_installDir hconfined hparent
      | created =>
          cases hpath
          exact DepotJob.inside_join DepotJob.inside_stagingDir hconfined.toStaysBelow
      | renamed =>
          cases hpath
          exact DepotJob.inside_join DepotJob.inside_installDir hconfined.toStaysBelow
      | opened | fetched | sent => cases hpath

/-- The staging file of one entry is nowhere the final file of an entry. -/
theorem ConfinedNames.staging_ne_final (hnames : ctx.ConfinedNames) {file file' : ManifestFile}
    {name name' : String} (hfile : file ∈ ctx.manifest.files) (hselects : ctx.job.Selects file name)
    (hfile' : file' ∈ ctx.manifest.files) (hselects' : ctx.job.Selects file' name') :
    ctx.job.stagingPlace name ≠ ctx.job.finalPlace name' := by
  have hname := hnames.selected file hfile name hselects
  have hname' := hnames.selected file' hfile' name' hselects'
  have hwalk {here : List String} {name : String} (hname : Confined name) :
      walk here (Path.ofString name).components =
        here ++ walk [] (Path.ofString name).components := by
    have h : walk (here ++ []) _ = here ++ walk [] _ := walk_of_neverClimbs hname.climbs
    rwa [List.append_nil] at h
  have hdir : ctx.job.place ctx.job.stagingDir = ctx.job.installPlace ++ [".staging"] := by
    have hcanonical : Canonical ".staging" := by decide
    exact hcanonical.resolve_join _ _
  have hstaging : ctx.job.stagingPlace name =
      walk (ctx.job.place ctx.job.stagingDir) (Path.ofString name).components :=
    DepotJob.place_join hname.relative
  have hfinal : ctx.job.finalPlace name' =
      walk ctx.job.installPlace (Path.ofString name').components :=
    DepotJob.place_join hname'.relative
  rw [hstaging, hfinal, hdir, hwalk hname, hwalk hname', List.append_assoc,
    Ne, List.append_cancel_left_eq, List.singleton_append]
  exact fun heq => hnames.unstaged file hfile name hselects file' hfile' name' hselects' heq.symm

/-- With confined names no run of a download acts on a path outside the install
directory, and the staging path of one entry is never the final path of any. -/
theorem download_confined (hnames : ctx.ConfinedNames) {disk : Disk} {moves : List JobMove}
    (hrun : ctx.download disk moves = some (world', state')) :
    (∀ effect ∈ world'.log, ∀ path, effect.acted = some path → ctx.job.Inside path) ∧
      ∀ file ∈ ctx.manifest.files, ∀ name, ctx.job.Selects file name →
        ∀ file' ∈ ctx.manifest.files, ∀ name', ctx.job.Selects file' name' →
          ctx.job.stagingPlace name ≠ ctx.job.finalPlace name' := by
  refine ⟨?_, fun _ hfile _ hselects _ hfile' _ hselects' =>
    hnames.staging_ne_final hfile hselects hfile' hselects'⟩
  have hstep : ∀ (config : JobConfig) (move : JobMove) (next : JobConfig),
      (ctx.JobTasks config.2 ∧ ∀ effect ∈ config.1.log, ∀ path, effect.acted = some path →
        ctx.job.Inside path) → True → ctx.machine.step config move = some next →
      ctx.JobTasks next.2 ∧ ∀ effect ∈ next.1.log, ∀ path, effect.acted = some path →
        ctx.job.Inside path := by
    rintro config move next ⟨htasks, hinside⟩ _ hnext
    have hcases := jobStep_cases hnext
    refine ⟨htasks.step hcases, fun effect hmem path hpath => ?_⟩
    rcases (jobStep_emits hcases).mem hmem with hbefore | heffect
    · exact hinside effect hbefore path hpath
    · exact hnames.emits htasks heffect hpath
  exact (ctx.machine.run_invariant hstep (fun _ _ => trivial)
    ⟨.initial, by simp⟩ hrun).2

theorem download_confined_sample :
    ∃ world' state',
      (offline (manifestOf [zeroFile "data/a" 0]) none).download .empty
        (List.replicate 2 (.main none) ++ offlineMoves 0 ++ List.replicate 2 (.main none)) =
          some (world', state') ∧
      state'.stage = .returned (.ok ()) ∧
      ∀ effect ∈ world'.log, ∀ path, effect.acted = some path →
        (offline (manifestOf [zeroFile "data/a" 0]) none).job.Inside path := by
  have hselects {file : ManifestFile} {name : String}
      (hmem : file ∈ (manifestOf [zeroFile "data/a" 0]).files)
      (hname : file.filename = some name) : name = "data/a" := by
    rw [List.mem_singleton.mp hmem] at hname
    cases hname
    rfl
  have hnames : (offline (manifestOf [zeroFile "data/a" 0]) none).ConfinedNames :=
    { selected := fun file hmem name h => by
        rw [hselects hmem h.1]
        exact ⟨⟨by decide, by decide⟩, by decide⟩
      removed := fun _ hold => by cases hold
      unstaged := fun file hmem name h file' hmem' name' h' => by
        rw [hselects hmem h.1, hselects hmem' h'.1]
        decide }
  have hany : ((offline (manifestOf [zeroFile "data/a" 0]) none).download .empty
      (List.replicate 2 (.main none) ++ offlineMoves 0 ++ List.replicate 2 (.main none))).any
        (fun config => config.2.stage == .returned (.ok ())) = true := by decide
  obtain ⟨⟨world', state'⟩, hrun, hstage⟩ := Machine.exists_of_run_any _ hany
  exact ⟨world', state', hrun, by simpa using hstage, (download_confined hnames hrun).1⟩

/-- An absolute name is its own staging path: the download truncates a file
outside the install directory. -/
theorem absolute_name_escapes :
    ∃ moves world' state' path,
      (offline (manifestOf [zeroFile "/etc/hosts" 0]) none).download .empty moves =
        some (world', state') ∧
      (∃ effect ∈ world'.log, effect.acted = some path) ∧
      ¬ (offline (manifestOf [zeroFile "/etc/hosts" 0]) none).job.Inside path ∧
      (offline (manifestOf [zeroFile "/etc/hosts" 0]) none).job.stagingPlace "/etc/hosts" =
        (offline (manifestOf [zeroFile "/etc/hosts" 0]) none).job.finalPlace "/etc/hosts" := by
  have hany : ((offline (manifestOf [zeroFile "/etc/hosts" 0]) none).download .empty
      (List.replicate 2 (.main none) ++ offlineMoves 0)).any (fun config =>
        config.1.log.any fun effect => effect.acted == some (.ofString "/etc/hosts")) = true := by
    decide
  obtain ⟨⟨world', state'⟩, hrun, heffect⟩ := Machine.exists_of_run_any _ hany
  refine ⟨_, world', state', .ofString "/etc/hosts", hrun, ?_, by decide, by decide⟩
  simpa using heffect

end JobContext

end DepotDownloader.SteamClient
