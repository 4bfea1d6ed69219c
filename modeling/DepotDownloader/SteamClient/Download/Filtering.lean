import DepotDownloader.Foundation.Stuttering
import DepotDownloader.SteamClient.Download.Effects

/-! # Downloads with a filter

A filter decides by name which entries a download works on. A first download with a filter
is the download of the manifest with these entries alone: either one can make the moves of
the other, up to the passes over entries that are filtered out.
-/

namespace DepotDownloader.SteamClient

open Foundation Foundation.LexPath Steam

namespace World

/-- The same disk, with effects that came before. -/
def onto (world : World) (earlier : List Effect) : World :=
  { world with log := world.log ++ earlier }

@[simp] theorem onto_disk (world : World) (earlier : List Effect) :
    (world.onto earlier).disk = world.disk := rfl

end World

namespace FileContext

variable (ctx : FileContext) (world : World) (state : FileState) (earlier : List Effect)

theorem mainStep_onto (fault : Option Nat) :
    ctx.mainStep (world.onto earlier) state fault =
      (ctx.mainStep world state fault).map (Prod.map (·.onto earlier) id) := by
  unfold mainStep
  cases state.stage with
  | createStagingDir | createFinalDir =>
      simp only
      split
      next => rfl
      next => split <;> rfl
  | checkFinal | checkStaging =>
      simp only [World.onto_disk, apply_ite (Option.map _)]
      rfl
  | openStaging resuming =>
      simp only [openStaging, World.onto_disk]
      split
      next => rfl
      next =>
        cases resuming with
        | false => rfl
        | true =>
          simp only [if_true]
          split <;> rfl
  | setLen =>
      simp only [World.onto_disk]
      split
      next => split <;> rfl
      next => rfl
      next => rfl
  | openOld =>
      simp only [World.onto_disk]
      split
      next =>
        split
        next => rfl
        next => split <;> rfl
      next => rfl
  | copyChunks oldIno index =>
      simp only
      split
      next => rfl
      next =>
        unfold copyChunk
        simp only [World.onto_disk]
        split
        next => rfl
        next =>
          split
          next => split <;> rfl
          next => rfl
      next => rfl
  | spawnChunks index =>
      simp only
      split <;> rfl
  | awaitChunks position =>
      simp only
      split
      next => rfl
      next => split <;> rfl
  | rename =>
      simp only [World.onto_disk]
      split
      next => split <;> rfl
      next => rfl
  | done => rfl

theorem chunkStep_onto (position : Nat) (fault : Option Nat) :
    ctx.chunkStep (world.onto earlier) state position fault =
      (ctx.chunkStep world state position fault).map (Prod.map (·.onto earlier) id) := by
  unfold chunkStep
  split
  next chunkTask file _ _ =>
    simp only
    cases chunkTask.stage with
    | fetch | process | lock | seek | write =>
        simp only
        split <;> rfl
    | done => rfl
  next => rfl

theorem step_onto (move : FileMove) :
    ctx.step (world.onto earlier, state) move =
      (ctx.step (world, state) move).map (Prod.map (·.onto earlier) id) := by
  unfold step
  split
  next => exact ctx.mainStep_onto world state earlier _
  next => exact ctx.chunkStep_onto world state earlier _ _

end FileContext

namespace JobContext

variable (ctx : JobContext)

/-- The same download with another filter. -/
def withFilter (filter : Option FileFilter) : JobContext :=
  { ctx with job := { ctx.job with fileFilter := filter } }

/-- The filter lets an entry through. -/
def selected (file : ManifestFile) : Bool :=
  file.filename.all fun name => !ctx.job.filteredOut name

/-- The download of the entries that the filter lets through. -/
def restricted : JobContext :=
  { ctx.withFilter none with
    manifest := { ctx.manifest with files := ctx.manifest.files.filter ctx.selected } }

def restrictedStage : JobStage → JobStage
  | .spawning rest => .spawning (rest.filter ctx.selected)
  | stage => stage

/-- An effect that the download of the selected entries has too. The progress events count
other entries. -/
def shares : Effect → Bool
  | .send (.depotProgress _ _) => false
  | .send (.fileSkipped filename) => !ctx.job.filteredOut filename
  | _ => true

/-- What the two downloads have in common. -/
structure Restricts (config other : JobConfig) : Prop where
  disk : other.1.disk = config.1.disk
  effects : other.1.log.filter ctx.shares = config.1.log.filter ctx.shares
  files : other.2.files = config.2.files
  stage : other.2.stage = ctx.restrictedStage config.2.stage
  undeleting : config.2.stage.deletes = true → config.2.stage = .returned (.ok ())

/-- The loop passes over an entry that is filtered out. -/
def Skips (config : JobConfig) (move : JobMove) : Prop :=
  ∃ fault file rest, move = .main fault ∧ config.2.stage = .spawning (file :: rest) ∧
    ctx.selected file = false

variable {ctx} {world world' : World} {state state' : JobState} {move : JobMove}

theorem filteredOut_of_selected {file : ManifestFile} {filename : String}
    (hselected : ctx.selected file = true) (hname : file.filename = some filename) :
    ctx.job.filteredOut filename = false := by
  simpa [selected, hname] using hselected

theorem restricted_fileStep (position : Nat) (move : FileMove) :
    ctx.restricted.fileStep world state position move = ctx.fileStep world state position move :=
  rfl

theorem Restricts.skipped {config other : JobConfig} (hrestricts : ctx.Restricts config other)
    (hskips : ctx.Skips config move) :
    ∃ next, ctx.machine.step config move = some next ∧ ctx.Restricts next other ∧
      next.2.stage.unspawned.length < config.2.stage.unspawned.length := by
  obtain ⟨fault, file, rest, rfl, hstage, hselected⟩ := hskips
  obtain ⟨filename, hname, hfilter⟩ : ∃ filename, file.filename = some filename ∧
      ctx.job.filteredOut filename = true := by
    unfold selected at hselected
    cases hname : file.filename with
    | none => simp [hname] at hselected
    | some filename => exact ⟨filename, rfl, by simpa [hname] using hselected⟩
  refine ⟨(config.1.emit (.send (.fileSkipped filename)), { config.2 with
    stage := .spawning rest, filesCompleted := config.2.filesCompleted + 1 }), ?_, ?_, ?_⟩
  · change ctx.mainStep config.1 config.2 fault = _
    unfold mainStep
    rw [hstage]
    simp only [spawnFile, hname, hfilter, if_true]
  · exact
      { disk := hrestricts.disk
        effects := by
          have hskipped : ¬ ctx.shares (.send (.fileSkipped filename)) = true := by
            simp [shares, hfilter]
          rw [hrestricts.effects, World.emit_log, List.filter_cons_of_neg hskipped]
        files := hrestricts.files
        stage := by
          rw [hrestricts.stage, hstage]
          simp [restrictedStage, hselected]
        undeleting := by simp }
  · simp [hstage]

namespace Restricts

variable {other : JobConfig}

/-- Both downloads have the same effect. -/
theorem emit (hrestricts : ctx.Restricts (world, state) other) (effect : Effect) :
    ctx.Restricts (world.emit effect, state) (other.1.emit effect, other.2) where
  disk := hrestricts.disk
  effects := by
    rw [World.emit_log, World.emit_log, List.filter_cons, List.filter_cons, hrestricts.effects]
  files := hrestricts.files
  stage := hrestricts.stage
  undeleting := hrestricts.undeleting

/-- The progress events differ. -/
theorem count (hrestricts : ctx.Restricts (world, state) other) (filesCompleted completed : Nat) :
    ctx.Restricts (world.emit (ctx.progress filesCompleted), state)
      (other.1.emit (ctx.restricted.progress completed), other.2) where
  disk := hrestricts.disk
  effects := hrestricts.effects
  files := hrestricts.files
  stage := hrestricts.stage
  undeleting := hrestricts.undeleting

/-- The loops go on to corresponding stages. -/
theorem advance (hrestricts : ctx.Restricts (world, state) other) (stage : JobStage)
    (hundeleting : stage.deletes = true → stage = .returned (.ok ()))
    (filesCompleted completed : Nat) :
    ctx.Restricts (world, { state with stage := stage, filesCompleted := filesCompleted })
      (other.1, { other.2 with
        stage := ctx.restrictedStage stage, filesCompleted := completed }) where
  disk := hrestricts.disk
  effects := hrestricts.effects
  files := hrestricts.files
  stage := rfl
  undeleting := hundeleting

/-- Both downloads have the same file tasks. -/
theorem withFiles (hrestricts : ctx.Restricts (world, state) other) (files : List FileJob) :
    ctx.Restricts (world, { state with files := files })
      (other.1, { other.2 with files := files }) where
  disk := hrestricts.disk
  effects := hrestricts.effects
  files := rfl
  stage := hrestricts.stage
  undeleting := hrestricts.undeleting

/-- Both downloads go on from where they are with the same disk and the same effects. -/
theorem onto (hrestricts : ctx.Restricts (world, state) other) (later : World) :
    ctx.Restricts (later.onto world.log, state) (later.onto other.1.log, other.2) where
  disk := rfl
  effects := by
    change (later.log ++ other.1.log).filter _ = (later.log ++ world.log).filter _
    rw [List.filter_append, List.filter_append, hrestricts.effects]
  files := hrestricts.files
  stage := hrestricts.stage
  undeleting := hrestricts.undeleting

end Restricts

namespace Restricts

variable {other : JobConfig}

theorem fileStep (hrestricts : ctx.Restricts (world, state) other) (position : Nat)
    (move : FileMove) :
    Option.Rel ctx.Restricts (ctx.fileStep world state position move)
      (ctx.restricted.fileStep other.1 other.2 position move) := by
  have hhere : world = (⟨world.disk, []⟩ : World).onto world.log := rfl
  have hthere : other.1 = (⟨world.disk, []⟩ : World).onto other.1.log := by
    rw [← hrestricts.disk]
    rfl
  rw [restricted_fileStep]
  unfold JobContext.fileStep
  rw [hrestricts.files]
  cases state.files[position]? with
  | none => exact .none
  | some fileJob =>
      simp only
      rw [hhere, hthere, FileContext.step_onto, FileContext.step_onto]
      cases (ctx.fileContext position fileJob.task).step (⟨world.disk, []⟩, fileJob.state) move with
      | none => exact .none
      | some next => exact .some ((hrestricts.withFiles _).onto next.1)

theorem report (hrestricts : ctx.Restricts (world, state) other) (task : FileTask) :
    ctx.Restricts (ctx.report world task, state) (ctx.restricted.report other.1 task, other.2) := by
  have hpresent : other.1.disk.present (ctx.restricted.job.place task.path) =
      world.disk.present (ctx.job.place task.path) := by
    rw [hrestricts.disk]
    rfl
  unfold JobContext.report
  rw [hpresent]
  split
  next => exact (hrestricts.emit _).emit _
  next => exact hrestricts.emit _

theorem finishStep (hrestricts : ctx.Restricts (world, state) other) (position : Nat) :
    Option.Rel ctx.Restricts (ctx.finishStep world state position)
      (ctx.restricted.finishStep other.1 other.2 position) := by
  unfold JobContext.finishStep
  rw [hrestricts.files]
  cases state.files[position]? with
  | none => exact .none
  | some fileJob =>
      obtain ⟨task, fileState, finished⟩ := fileJob
      cases finished with
      | some => exact .none
      | none =>
          simp only
          cases fileState.stage with
          | done outcome =>
              cases outcome with
              | ok => exact .some ((hrestricts.report task).withFiles _)
              | error => exact .some (hrestricts.withFiles _)
          | _ => exact .none

/-- An entry that is let through meets the same checks in both loops. -/
theorem spawnFile (hrestricts : ctx.Restricts (world, state) other) {file : ManifestFile}
    (hselected : ctx.selected file = true) (rest : List ManifestFile) :
    ctx.Restricts (ctx.spawnFile world state file rest)
      (ctx.restricted.spawnFile other.1 other.2 file (rest.filter ctx.selected)) := by
  have hnext (filesCompleted completed : Nat) :=
    hrestricts.advance (.spawning rest) (by simp) filesCompleted completed
  unfold JobContext.spawnFile
  cases hname : file.filename with
  | none => exact hnext _ _
  | some filename =>
      have hfilter := filteredOut_of_selected hselected hname
      have hopen : ctx.restricted.job.filteredOut filename = false := rfl
      have hunchanged : ctx.restricted.job.unchanged other.1.disk file filename =
          ctx.job.unchanged world.disk file filename := by
        rw [hrestricts.disk]
        rfl
      simp only [hfilter, hopen, hunchanged, Bool.false_eq_true, if_false]
      split_ifs
      · exact ((hnext _ _).emit _).count _ _
      · exact (hnext _ _).emit _
      · rw [hrestricts.files]
        exact ((hnext _ _).emit _).withFiles _

theorem mainStep (hrestricts : ctx.Restricts (world, state) other)
    (hfirst : ctx.job.previousManifest = none) {fault : Option Nat}
    (hskips : ¬ ctx.Skips (world, state) (.main fault)) :
    Option.Rel ctx.Restricts (ctx.mainStep world state fault)
      (ctx.restricted.mainStep other.1 other.2 fault) := by
  have hother := hrestricts.stage
  unfold JobContext.mainStep
  cases hstage : state.stage with
  | spawning rest =>
      rw [hstage] at hother
      cases rest with
      | nil =>
          simp only [hother, restrictedStage, List.filter_nil]
          exact .some (hrestricts.advance (.awaiting 0) (by simp) _ _)
      | cons file rest =>
          have hselected : ctx.selected file = true := by
            rw [← Bool.not_eq_false]
            exact fun hselected => hskips ⟨fault, file, rest, rfl, hstage, hselected⟩
          simp only [hother, restrictedStage, List.filter_cons_of_pos hselected]
          exact .some (hrestricts.spawnFile hselected rest)
  | awaiting position =>
      rw [hstage] at hother
      have hlookup : other.2.files[position]? = state.files[position]? := by
        rw [hrestricts.files]
      have hfresh : ctx.restricted.job.previousManifest = none := hfirst
      simp only [hother, restrictedStage, hlookup, hfirst, hfresh]
      cases state.files[position]? with
      | none => exact .some (hrestricts.advance (.returned (.ok ())) (by simp) _ _)
      | some fileJob =>
          simp only
          cases fileJob.finished with
          | none => exact .none
          | some outcome =>
              cases outcome with
              | error error =>
                  exact .some (hrestricts.advance (.returned (.error error)) (by simp) _ _)
              | ok =>
                  exact .some
                    ((hrestricts.count _ _).advance (.awaiting (position + 1)) (by simp) _ _)
  | deleting rest =>
      have hreturned := hrestricts.undeleting (by rw [hstage]; rfl)
      rw [hstage] at hreturned
      cases hreturned
  | returned outcome =>
      rw [hstage] at hother
      simp only [hother, restrictedStage]
      exact .none

end Restricts

theorem restricted_stutters (hfirst : ctx.job.previousManifest = none) :
    ctx.machine.Stutters ctx.restricted.machine ctx.Restricts ctx.Skips
      fun config => config.2.stage.unspawned.length where
  matched := by
    rintro ⟨world, state⟩ other move hrestricts hskips
    cases move with
    | main fault => exact hrestricts.mainStep hfirst hskips
    | file position move => exact hrestricts.fileStep position move
    | finish position => exact hrestricts.finishStep position
  skipped _ _ _ hrestricts hskips := hrestricts.skipped hskips

theorem restricts_initial (disk : Disk) :
    ctx.Restricts (⟨disk, []⟩, ctx.initial) (⟨disk, []⟩, ctx.restricted.initial) where
  disk := rfl
  effects := rfl
  files := rfl
  stage := rfl
  undeleting := by simp [initial]

/-- A first download with a filter does what the download of the selected entries does, and
can do all of it: the runs of either are those of the other up to the passes over the other
entries, with the same disk, the same tasks and the same effects. -/
theorem filter_exact (hfirst : ctx.job.previousManifest = none) (disk : Disk) :
    (∀ moves config, ctx.download disk moves = some config →
      ∃ kept other, kept.Sublist moves ∧ ctx.restricted.download disk kept = some other ∧
        ctx.Restricts config other) ∧
      ∀ moves other, ctx.restricted.download disk moves = some other →
        ∃ full config, moves.Sublist full ∧ ctx.download disk full = some config ∧
          ctx.Restricts config other :=
  ⟨fun _ _ hrun => (restricted_stutters hfirst).reduce (restricts_initial disk) hrun,
    fun _ _ hrun => (restricted_stutters hfirst).expand (restricts_initial disk) hrun⟩

/-- The job of a list that names one of two files. -/
def listedJob : JobContext :=
  (offline (manifestOf [zeroFile "a" 0, zeroFile "b" 0]) none).withFilter (some (.fileList ["B"]))

theorem filter_exact_sample :
    ∃ config, listedJob.download .empty (List.replicate 3 (.main none) ++ offlineMoves 0 ++
        List.replicate 2 (.main none)) = some config ∧
      config.1.disk.present ["home", "game", "b"] = true ∧
      ∃ kept other, kept.Sublist (List.replicate 3 (.main none) ++ offlineMoves 0 ++
          List.replicate 2 (.main none)) ∧
        listedJob.restricted.download .empty kept = some other ∧
        listedJob.Restricts config other := by
  have hany : (listedJob.download .empty (List.replicate 3 (.main none) ++ offlineMoves 0 ++
      List.replicate 2 (.main none))).any
        (fun config => config.1.disk.present ["home", "game", "b"]) = true := by
    decide
  obtain ⟨config, hrun, hpresent⟩ := Machine.exists_of_run_any _ hany
  exact ⟨config, hrun, hpresent, (filter_exact rfl .empty).1 _ _ hrun⟩

section Unfiltered

variable {filter : Option FileFilter}

theorem unspawned_subset (hstep : ctx.JobStep world state move world' state') :
    state'.stage.unspawned ⊆ state.stage.unspawned := by
  cases hstep <;> simp_all

theorem spawnFile_withFilter {file : ManifestFile} (rest : List ManifestFile)
    (hselected : ctx.selected file = true)
    (hother : (ctx.withFilter filter).selected file = true) :
    ctx.spawnFile world state file rest =
      (ctx.withFilter filter).spawnFile world state file rest := by
  unfold spawnFile
  cases hname : file.filename with
  | none => rfl
  | some filename =>
      simp only [filteredOut_of_selected hselected hname, filteredOut_of_selected hother hname]
      rfl

theorem step_withFilter (hselected : ∀ file ∈ state.stage.unspawned,
      ctx.selected file = true ∧ (ctx.withFilter filter).selected file = true) :
    ctx.step (world, state) move = (ctx.withFilter filter).step (world, state) move := by
  cases move with
  | file => rfl
  | finish => rfl
  | main fault =>
      change ctx.mainStep world state fault = (ctx.withFilter filter).mainStep world state fault
      unfold mainStep
      cases hstage : state.stage with
      | awaiting | returned => rfl
      | deleting rest => cases rest <;> rfl
      | spawning rest =>
          cases rest with
          | nil => rfl
          | cons file rest =>
              obtain ⟨hfile, hother⟩ := hselected file (by simp [hstage])
              exact congrArg some (spawnFile_withFilter rest hfile hother)

/-- Filters that let every entry through make no difference. -/
theorem download_withFilter (hselected : ∀ file ∈ ctx.manifest.files,
      ctx.selected file = true ∧ (ctx.withFilter filter).selected file = true)
    (disk : Disk) (moves : List JobMove) :
    ctx.download disk moves = (ctx.withFilter filter).download disk moves :=
  Machine.run_eq_of_invariant
    (fun config _ (hconfig : ∀ file ∈ config.2.stage.unspawned,
      ctx.selected file = true ∧ (ctx.withFilter filter).selected file = true) =>
        step_withFilter hconfig)
    (fun _ _ _ hconfig hstep file hmem =>
      hconfig file (unspawned_subset (jobStep_cases hstep) hmem))
    hselected moves

theorem selected_of_selects {filter : FileFilter}
    (hselects : ∀ name ∈ manifestNames ctx.manifest, filter.selects name = true) :
    ∀ file ∈ ctx.manifest.files, (ctx.withFilter (some filter)).selected file = true := by
  intro file hmem
  unfold selected
  cases hname : file.filename with
  | none => rfl
  | some filename =>
      have hlisted : filename ∈ manifestNames ctx.manifest :=
        List.mem_filterMap.mpr ⟨file, hmem, hname⟩
      simp [withFilter, DepotJob.filteredOut, hselects filename hlisted]

theorem selected_unfiltered (ctx : JobContext) (file : ManifestFile) :
    (ctx.withFilter none).selected file = true := by
  unfold selected
  cases file.filename <;> rfl

end Unfiltered

end JobContext

end DepotDownloader.SteamClient
