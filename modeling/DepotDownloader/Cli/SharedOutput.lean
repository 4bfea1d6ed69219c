import DepotDownloader.Cli.Shortcuts

/-! # Depots that share an output directory

The deletion pass of a depot compares the two manifests of that depot only. A file
of another depot survives an invocation as long as no deletion pass after its
download names it.
-/

namespace DepotDownloader.Cli

open Foundation Foundation.LexPath Steam SteamClient

namespace CliEnv

variable (env : CliEnv) (args : DownloadArgs)

/-- The depot at a position of the list, with the disk that the loop has at its turn. -/
structure Turn (disk : Disk) (requests : List DepotRequest) (position : Nat) (middle : Disk)
    (request : DepotRequest) : Prop where
  listed : requests[position]? = some request
  reached : env.runDownload args disk (requests.take position) = some (middle, true)

/-- The deletion pass of a depot names the file at the place: the previous manifest
lists it and the new one does not. -/
def Deletes (disk : Disk) (request : DepotRequest) (place : Place) : Prop :=
  ∃ prepared ctx manifestId,
    env.prepareDepot args disk request = (prepared, .download ctx manifestId) ∧ ctx.Removes place

/-- The names of the new manifest of a depot and of the one it is compared with are
canonical. -/
structure PlainNames (disk : Disk) (request : DepotRequest) : Prop where
  new : ∀ prepared key manifestId raw manifest filter,
    Found env args request disk prepared key manifestId raw manifest filter → CleanNames manifest
  previous : ∀ prepared ctx manifestId old,
    env.prepareDepot args disk request = (prepared, .download ctx manifestId) →
      ctx.job.previousManifest = some old → ∀ name ∈ manifestNames old, Canonical name

/-- The manifest of a depot that is skipped as up to date is fully installed. -/
def SkippedInstalled (start disk : Disk) (request : DepotRequest) : Prop :=
  ∀ prepared key manifestId raw manifest filter,
    env.prepareDepot args disk request = (prepared, .upToDate) →
      Found env args request disk prepared key manifestId raw manifest filter →
        ∀ file ∈ manifest.files, ∀ name, file.filename = some name → file.isDirectory = false →
          start.present (env.filePlace args request.depotId name) = true

variable {env args} {disk disk' middle final : Disk} {request request' : DepotRequest}
  {requests first second : List DepotRequest} {position later : Nat}

theorem runDownload_append : env.runDownload args disk (first ++ second) = some (final, true) ↔
    ∃ middle, env.runDownload args disk first = some (middle, true) ∧
      env.runDownload args middle second = some (final, true) := by
  induction first generalizing disk with
  | nil => simp [runDownload]
  | cons request rest ih =>
      simp only [List.cons_append, runDownload]
      split
      next => simp
      next => simp
      next next outcome _ _ => exact ih

theorem runDownload_cons (hrun : env.runDownload args disk (request :: second) =
    some (final, true)) :
    ∃ next outcome, env.runDepot args disk request = some (next, outcome) ∧
      outcome ≠ .aborted ∧ env.runDownload args next second = some (final, true) := by
  simp only [runDownload] at hrun
  split at hrun
  next => cases hrun
  next => cases hrun
  next next outcome hne hfirst => exact ⟨next, outcome, hfirst, hne, hrun⟩

theorem runDownload_single {outcome : DepotOutcome}
    (hfirst : env.runDepot args disk request = some (disk', outcome)) (hok : outcome ≠ .aborted) :
    env.runDownload args disk [request] = some (disk', true) := by
  cases outcome with
  | aborted => exact absurd rfl hok
  | upToDate | installed => simp [runDownload, hfirst]

/-- A depot of the rest of the list is one of the whole list. -/
theorem Turn.shift (hreached : env.runDownload args disk (requests.take position) =
      some (middle, true))
    (hturn : env.Turn args middle (requests.drop position) later disk' request) :
    env.Turn args disk requests (position + later) disk' request where
  listed := by
    rw [← List.getElem?_drop]
    exact hturn.listed
  reached := by
    rw [List.take_add]
    exact runDownload_append.mpr ⟨middle, hreached, hturn.reached⟩

/-- A depot of the beginning of the list is one of the whole list. -/
theorem Turn.take (hturn : env.Turn args disk (requests.take position) later middle request) :
    later < position ∧ env.Turn args disk requests later middle request := by
  have hlater : later < position := by
    have hlt := (List.getElem?_eq_some_iff.mp hturn.listed).1
    rw [List.length_take] at hlt
    omega
  have hreached := hturn.reached
  rw [List.take_take, Nat.min_eq_left (Nat.le_of_lt hlater)] at hreached
  exact ⟨hlater, (List.getElem?_take_of_lt hlater).symm.trans hturn.listed, hreached⟩

theorem Turn.drop_eq (hturn : env.Turn args disk requests position middle request) :
    requests.drop position = request :: requests.drop (position + 1) := by
  obtain ⟨hlt, hget⟩ := List.getElem?_eq_some_iff.mp hturn.listed
  rw [List.drop_eq_getElem_cons hlt, hget]

/-- What the loop does from the turn of a depot on. -/
theorem Turn.rest (hturn : env.Turn args disk requests position middle request)
    (hrun : env.runDownload args disk requests = some (final, true)) :
    env.runDownload args middle (request :: requests.drop (position + 1)) = some (final, true) := by
  rw [← List.take_append_drop position requests] at hrun
  obtain ⟨middle', hfirst, hsecond⟩ := runDownload_append.mp hrun
  rw [hturn.reached] at hfirst
  cases hfirst
  rw [← hturn.drop_eq]
  exact hsecond

theorem Turn.after (hturn : env.Turn args disk requests position middle request)
    (hother : env.Turn args middle (request :: requests.drop (position + 1)) later disk' request') :
    env.Turn args disk requests (position + later) disk' request' :=
  .shift hturn.reached (hturn.drop_eq ▸ hother)

/-- A download puts its files where the invocation installs the depot. -/
theorem finalPlace_of_prepared {prepared : Disk} {ctx : JobContext} {manifestId : ManifestId}
    (hprepare : env.prepareDepot args disk request = (prepared, .download ctx manifestId))
    (name : String) : ctx.job.finalPlace name = env.filePlace args request.depotId name := by
  obtain ⟨_, _, _, _, _, rfl⟩ := prepareDepot_download hprepare
  rfl

theorem PlainNames.download (hplain : env.PlainNames args disk request) {prepared : Disk}
    {ctx : JobContext} {manifestId : ManifestId}
    (hprepare : env.prepareDepot args disk request = (prepared, .download ctx manifestId)) :
    CleanNames ctx.manifest := by
  obtain ⟨key, raw, manifest, filter, hfound, rfl⟩ := prepareDepot_download hprepare
  exact hplain.new prepared key manifestId raw manifest filter hfound

/-- An iteration keeps a file that its deletion pass does not name. -/
theorem runDepot_present {outcome : DepotOutcome} (hplain : env.PlainNames args disk request)
    (hrun : env.runDepot args disk request = some (disk', outcome)) {name : String}
    (hname : CleanName name)
    (hspared : ¬ env.Deletes args disk request (env.filePlace args request.depotId name))
    (hpresent : disk.present (env.filePlace args request.depotId name) = true) :
    disk'.present (env.filePlace args request.depotId name) = true := by
  have hdownload {prepared : Disk} {ctx : JobContext} {manifestId : ManifestId} {world : World}
      {state : JobState}
      (hprepare : env.prepareDepot args disk request = (prepared, .download ctx manifestId))
      (hmoves : ctx.download prepared request.moves = some (world, state)) :
      world.disk.present (env.filePlace args request.depotId name) = true := by
    have hnames := hplain.download hprepare
    rw [← finalPlace_of_prepared hprepare]
    apply JobContext.download_keeps hnames hmoves
    · intro other hother heq
      exact ctx.job.stagingPlace_ne_finalPlace (hnames.clean other hother) hname heq.symm
    · intro hremoves
      rw [finalPlace_of_prepared hprepare] at hremoves
      exact hspared ⟨prepared, ctx, manifestId, hprepare, hremoves⟩
    · rw [finalPlace_of_prepared hprepare]
      exact prepareDepot_present hprepare hpresent
  have hstep : env.session.step disk ⟨args, request⟩ = some disk' := by
    simp [session, hrun]
  cases session_cases hstep with
  | aborted hprepare | upToDate hprepare => exact prepareDepot_present hprepare hpresent
  | recorded hprepare hmoves => exact writeFile_present (hdownload hprepare hmoves) _ _
  | interrupted hprepare hmoves => exact hdownload hprepare hmoves

/-- A depot that was downloaded has all files of its manifest. -/
theorem runDepot_downloaded {outcome : DepotOutcome} (hplain : env.PlainNames args disk request)
    (hfilter : args.fileFilter = some none)
    (hrun : env.runDepot args disk request = some (disk', outcome)) (hok : outcome ≠ .aborted)
    {prepared : Disk} {ctx : JobContext} {manifestId : ManifestId}
    (hprepare : env.prepareDepot args disk request = (prepared, .download ctx manifestId))
    {file : ManifestFile} {name : String} (hfile : file ∈ ctx.manifest.files)
    (hname : file.filename = some name) (hdir : file.isDirectory = false) :
    disk'.present (env.filePlace args request.depotId name) = true := by
  have hnames := hplain.download hprepare
  have hmem : name ∈ manifestNames ctx.manifest := List.mem_filterMap.mpr ⟨file, hfile, hname⟩
  have hclean := hnames.clean name hmem
  have hselected : ctx.Selected file name := by
    refine ⟨hfile, hname, ?_, hdir⟩
    obtain ⟨_, _, _, filter, hfound, rfl⟩ := prepareDepot_download hprepare
    have hnone := hfound.filter
    rw [hfilter, Option.some.injEq] at hnone
    subst hnone
    rfl
  -- the deletion pass spares the names of the new manifest
  have hspared : ¬ ctx.Removes (ctx.job.finalPlace name) := by
    rintro ⟨old, hold, removed, hremoved, other, hother, heq⟩
    obtain ⟨hlisted, _, hdropped⟩ := removedName_eq_some.mp hother
    have hcanonical := hplain.previous prepared ctx manifestId old hprepare hold other
      (List.mem_filterMap.mpr ⟨removed, hremoved, hlisted⟩)
    have hsame : name = other := by
      rw [ctx.job.finalPlace_eq hclean] at heq
      have hother : ctx.job.finalPlace other = ctx.job.installPlace ++ segments other :=
        hcanonical.resolve_join _ _
      rw [hother, List.append_cancel_left_eq] at heq
      exact segments_injective heq
    exact hdropped (hsame ▸ hmem)
  unfold runDepot at hrun
  rw [hprepare] at hrun
  simp only at hrun
  split at hrun
  next => cases hrun
  next world state hmoves =>
    split at hrun
    next hstage =>
      cases hrun
      apply writeFile_present
      rw [← finalPlace_of_prepared hprepare]
      exact JobContext.download_present hnames hmoves hstage hselected hspared
    next =>
      cases hrun
      exact absurd rfl hok

/-- A run of the loop keeps a file that no deletion pass names. -/
theorem runDownload_present {base : Path} (houtput : args.output = some base) {name : String}
    (hname : CleanName name) {depotId : DepotId}
    (hplain : ∀ position middle request, env.Turn args disk requests position middle request →
      env.PlainNames args middle request)
    (hspared : ∀ position middle request, env.Turn args disk requests position middle request →
      ¬ env.Deletes args middle request (env.filePlace args depotId name))
    (hrun : env.runDownload args disk requests = some (final, true))
    (hpresent : disk.present (env.filePlace args depotId name) = true) :
    final.present (env.filePlace args depotId name) = true := by
  induction requests generalizing disk with
  | nil =>
      cases hrun
      exact hpresent
  | cons request rest ih =>
      obtain ⟨next, outcome, hfirst, hok, hrest⟩ := runDownload_cons hrun
      have hplace : env.filePlace args depotId name = env.filePlace args request.depotId name := by
        unfold filePlace DownloadArgs.installDir
        rw [houtput]
      have hturn : env.Turn args disk (request :: rest) 0 disk request := ⟨rfl, rfl⟩
      have hreached : env.runDownload args disk ((request :: rest).take 1) = some (next, true) :=
        runDownload_single hfirst hok
      apply ih
      · intro position middle request hlater
        exact hplain (1 + position) middle request (.shift hreached hlater)
      · intro position middle request hlater
        exact hspared (1 + position) middle request (.shift hreached hlater)
      · exact hrest
      · rw [hplace] at hpresent ⊢
        apply runDepot_present (hplain 0 disk request hturn) hfirst hname _ hpresent
        exact hplace ▸ hspared 0 disk request hturn

/-- Depots that share an output directory keep each other's files as far as their
deletion passes do not name them: after an invocation without a file filter that
succeeds for all depots, a file of a depot's new manifest is there, unless the deletion
pass of a later depot names it or, when the depot was skipped as up to date, that of an
earlier one. -/
theorem listed_file_present {base : Path} (houtput : args.output = some base)
    (hfilter : args.fileFilter = some none)
    (hrun : env.runDownload args disk requests = some (final, true))
    (hplain : ∀ position middle request, env.Turn args disk requests position middle request →
      env.PlainNames args middle request)
    (hinstalled : ∀ position middle request, env.Turn args disk requests position middle request →
      env.SkippedInstalled args disk middle request)
    (hturn : env.Turn args disk requests position middle request) {prepared : Disk}
    {key : DepotKey} {manifestId : ManifestId} {raw manifest : DepotManifest}
    {filter : Option FileFilter}
    (hfound : Found env args request middle prepared key manifestId raw manifest filter)
    {file : ManifestFile} {name : String} (hfile : file ∈ manifest.files)
    (hname : file.filename = some name) (hdir : file.isDirectory = false)
    (hlater : ∀ later disk' request', position < later →
      env.Turn args disk requests later disk' request' →
        ¬ env.Deletes args disk' request' (env.filePlace args request.depotId name))
    (hearlier : env.prepareDepot args middle request = (prepared, .upToDate) →
      ∀ earlier disk' request', earlier < position →
        env.Turn args disk requests earlier disk' request' →
          ¬ env.Deletes args disk' request' (env.filePlace args request.depotId name)) :
    final.present (env.filePlace args request.depotId name) = true := by
  have hnames := (hplain position middle request hturn).new prepared key manifestId raw manifest
    filter hfound
  have hclean := hnames.clean name (List.mem_filterMap.mpr ⟨file, hfile, hname⟩)
  have hrest := hturn.rest hrun
  obtain ⟨next, outcome, hfirst, hok, hafter⟩ := runDownload_cons hrest
  cases hprepare : env.prepareDepot args middle request with
  | mk prepared' outcome' =>
      cases outcome' with
      | aborted =>
          simp only [runDepot, hprepare, Option.some.injEq, Prod.mk.injEq] at hfirst
          exact absurd hfirst.2.symm hok
      -- a skipped depot had its files before the invocation, and nobody deletes them
      | upToDate =>
          obtain ⟨_, _, _, _, _, hfound', _⟩ := prepareDepot_upToDate hprepare
          obtain ⟨rfl, rfl⟩ := hfound.unique hfound'
          have hstart := hinstalled position middle request hturn _ _ _ _ _ _ hprepare hfound' file
            hfile name hname hdir
          have hmiddle : middle.present (env.filePlace args request.depotId name) = true := by
            apply runDownload_present houtput hclean _ _ hturn.reached hstart
            · intro earlier disk' request' hother
              exact hplain earlier disk' request' hother.take.2
            · intro earlier disk' request' hother
              exact hearlier hprepare earlier disk' request' hother.take.1 hother.take.2
          apply runDownload_present houtput hclean _ _ hrest hmiddle
          · intro later disk' request' hother
            exact hplain (position + later) disk' request' (hturn.after hother)
          · intro later disk' request' hother
            cases later with
            | zero =>
                cases hother.listed
                cases hother.reached
                rintro ⟨_, _, _, hdownload, _⟩
                rw [hprepare] at hdownload
                cases hdownload
            | succ later =>
                exact hlater (position + (later + 1)) disk' request' (by omega) (hturn.after hother)
      -- a download installs them, and the later depots spare them
      | download ctx manifestId' =>
          obtain ⟨_, _, _, _, hfound', rfl⟩ := prepareDepot_download hprepare
          obtain ⟨rfl, rfl⟩ := hfound.unique hfound'
          have hnext := runDepot_downloaded (hplain position middle request hturn) hfilter hfirst
            hok hprepare hfile hname hdir
          have hreached : env.runDownload args disk (requests.take (position + 1)) =
              some (next, true) := by
            rw [List.take_add_one, hturn.listed]
            exact runDownload_append.mpr ⟨middle, hturn.reached, runDownload_single hfirst hok⟩
          apply runDownload_present houtput hclean _ _ hafter hnext
          · intro later disk' request' hother
            exact hplain (position + 1 + later) disk' request' (.shift hreached hother)
          · intro later disk' request' hother
            exact hlater (position + 1 + later) disk' request' (by omega) (.shift hreached hother)

end CliEnv

section Sample

/-- The moves of an upgrade that removes the only file, and of downloads of the empty
file that find it in place or in its staging file. -/
def droppingMoves : List JobMove := List.replicate 4 (.main none)

def presentMoves : List JobMove :=
  List.replicate 2 (.main none) ++ List.replicate 3 (.file 0 ⟨.main, none⟩) ++ [.finish 0] ++
    List.replicate 2 (.main none)

def resumedMoves : List JobMove :=
  List.replicate 2 (.main none) ++ List.replicate 5 (.file 0 ⟨.main, none⟩) ++ [.finish 0] ++
    List.replicate 2 (.main none)

/-- The two depots that move a file from the first to the second one. -/
def droppingRequest : DepotRequest := sampleRequest .none droppingMoves

def takingRequest (moves : List JobMove) : DepotRequest := sampleRequest .other moves

/-- The download of a depot of the sample whose new manifest has no file or the empty
one, after one that had the empty one. -/
def plainTurn (disk : Disk) (request : DepotRequest) : Bool :=
  (match (sampleEnv.prepareDepot (sampleArgs none) disk request).2 with
    | .download ctx _ => ctx.job.previousManifest.all fun old => old.files = [blankFile]
    | _ => false) &&
  request.keyAndManifest.any fun asked =>
    (sampleEnv.obtainManifest (sampleArgs none) disk request asked.2).2.any fun raw =>
      raw.filenamesEncrypted = false ∧ (raw.files = [] ∨ raw.files = [blankFile])

theorem manifestNames_blank {manifest : DepotManifest} (hfiles : manifest.files = [blankFile]) :
    manifestNames manifest = ["f"] := by
  simp [manifestNames, hfiles, blankFile]

theorem plainNames_of_plainTurn {disk : Disk} {request : DepotRequest}
    (hplain : plainTurn disk request = true) :
    sampleEnv.PlainNames (sampleArgs none) disk request := by
  obtain ⟨hdownload, hraw⟩ := Bool.and_eq_true_iff.mp hplain
  constructor
  · intro prepared key manifestId raw manifest filter hfound
    obtain ⟨hasked, hobtained, hdecrypted, _⟩ := hfound
    rw [hasked, Option.any_some, hobtained, Option.any_some] at hraw
    obtain ⟨hencrypted, hfiles⟩ := of_decide_eq_true hraw
    unfold CliEnv.decrypted at hdecrypted
    rw [if_neg (by simp [hencrypted])] at hdecrypted
    cases hdecrypted
    rcases hfiles with hnone | hblank
    · have hnames : manifestNames raw = [] := by simp [manifestNames, hnone]
      exact ⟨by simp [hnames], by simp [hnames]⟩
    · exact cleanNames_single (manifestNames_blank hblank) cleanName_f
  · intro prepared ctx manifestId old hprepare hold name hmem
    rw [hprepare] at hdownload
    have hblank : old.files = [blankFile] := by simpa [hold] using hdownload
    rw [manifestNames_blank hblank, List.mem_singleton] at hmem
    exact hmem ▸ cleanName_f.canonical

theorem not_upToDate_of_plainTurn {disk prepared : Disk} {request : DepotRequest}
    (hplain : plainTurn disk request = true) :
    sampleEnv.prepareDepot (sampleArgs none) disk request ≠ (prepared, .upToDate) := by
  intro hprepare
  unfold plainTurn at hplain
  rw [hprepare] at hplain
  cases hplain

/-- The turns of a list of two depots. -/
theorem turn_of_pair {env : CliEnv} {args : DownloadArgs} {disk middle : Disk}
    {first second request : DepotRequest} {position : Nat}
    (hturn : env.Turn args disk [first, second] position middle request) :
    (position = 0 ∧ middle = disk ∧ request = first) ∨
      (position = 1 ∧ env.runDownload args disk [first] = some (middle, true) ∧
        request = second) := by
  obtain ⟨hlisted, hreached⟩ := hturn
  match position with
  | 0 =>
      cases hlisted
      cases hreached
      exact .inl ⟨rfl, rfl, rfl⟩
  | 1 =>
      cases hlisted
      exact .inr ⟨rfl, hreached, rfl⟩
  | _ + 2 => cases hlisted

/-- The invocation succeeds, and afterwards the file is there or not. -/
def endsWith (disk : Disk) (requests : List DepotRequest) (name : String) (found : Bool) : Bool :=
  (sampleEnv.runDownload (sampleArgs none) disk requests).any fun result =>
    result.2 && result.1.present (sampleEnv.filePlace (sampleArgs none) ⟨1⟩ name) == found

theorem of_endsWith {disk : Disk} {requests : List DepotRequest} {name : String} {found : Bool}
    (hends : endsWith disk requests name found = true) :
    ∃ final, sampleEnv.runDownload (sampleArgs none) disk requests = some (final, true) ∧
      final.present (sampleEnv.filePlace (sampleArgs none) ⟨1⟩ name) = found := by
  obtain ⟨⟨final, ok⟩, hrun, hboth⟩ := (Option.any_eq_true _ _).mp hends
  obtain ⟨hok, hfound⟩ := Bool.and_eq_true_iff.mp hboth
  cases (show ok = true from hok)
  exact ⟨final, hrun, beq_iff_eq.mp hfound⟩

/-- Disks on which depot 1 is fully installed, with the file `f` or `.staging/f`. -/
def blankDisk : Disk := .ofFiles ((["home", "out", "f"], []) :: storeFiles .blank)

def stagedDisk : Disk := .ofFiles ((["home", "out", ".staging", "f"], []) :: storeFiles .staged)

/-- The manifest that the request gets lists the empty file only. -/
def listsBlank (disk : Disk) (request : DepotRequest) : Bool :=
  request.keyAndManifest.any fun asked =>
    (sampleEnv.obtainManifest (sampleArgs none) disk request asked.2).2.any fun raw =>
      raw.filenamesEncrypted = false ∧ raw.files = [blankFile]

theorem found_of_listsBlank {disk : Disk} {moves : List JobMove}
    (hlists : listsBlank disk (takingRequest moves) = true) :
    ∃ prepared raw, CliEnv.Found sampleEnv (sampleArgs none) (takingRequest moves) disk prepared
      ⟨.replicate 32 0⟩ ⟨22⟩ raw raw none ∧ raw.files = [blankFile] := by
  obtain ⟨asked, hasked, hraw⟩ := (Option.any_eq_true _ _).mp hlists
  cases hasked
  obtain ⟨raw, hobtained, hfiles⟩ := (Option.any_eq_true _ _).mp hraw
  obtain ⟨hencrypted, hfiles⟩ := of_decide_eq_true hfiles
  refine ⟨_, raw, ⟨rfl, Prod.ext rfl hobtained, ?_, rfl⟩, hfiles⟩
  simp [CliEnv.decrypted, hencrypted]

theorem dropping_then_taking :
    plainTurn blankDisk droppingRequest = true ∧
      ((sampleEnv.runDownload (sampleArgs none) blankDisk [droppingRequest]).any fun result =>
        result.2 && (plainTurn result.1 (takingRequest blankMoves) &&
          listsBlank result.1 (takingRequest blankMoves))) = true := by
  decide +kernel

theorem dropping_then_taking_ends :
    endsWith blankDisk [droppingRequest, takingRequest blankMoves] "f" true = true := by
  decide +kernel

theorem listed_file_present_sample :
    ∃ final,
      sampleEnv.runDownload (sampleArgs none) blankDisk
        [droppingRequest, takingRequest blankMoves] = some (final, true) ∧
      final.present (sampleEnv.filePlace (sampleArgs none) ⟨2⟩ "f") = true := by
  obtain ⟨hdrops, hmiddle⟩ := dropping_then_taking
  obtain ⟨⟨middle, ok⟩, hreached, hafter⟩ := (Option.any_eq_true _ _).mp hmiddle
  obtain ⟨hok, hturns⟩ := Bool.and_eq_true_iff.mp hafter
  obtain ⟨htakes, hlists⟩ := Bool.and_eq_true_iff.mp hturns
  cases (show ok = true from hok)
  obtain ⟨final, hrun, _⟩ := of_endsWith dropping_then_taking_ends
  have hplain : ∀ position disk request,
      sampleEnv.Turn (sampleArgs none) blankDisk [droppingRequest, takingRequest blankMoves]
        position disk request → plainTurn disk request = true := by
    intro position disk request hturn
    rcases turn_of_pair hturn with ⟨_, rfl, rfl⟩ | ⟨_, hother, rfl⟩
    · exact hdrops
    · rw [hreached] at hother
      cases hother
      exact htakes
  have hturn : sampleEnv.Turn (sampleArgs none) blankDisk
      [droppingRequest, takingRequest blankMoves] 1 middle (takingRequest blankMoves) :=
    ⟨rfl, hreached⟩
  obtain ⟨prepared, raw, hfound, hfiles⟩ := found_of_listsBlank hlists
  have hmem : blankFile ∈ raw.files := by simp [hfiles]
  refine ⟨final, hrun, ?_⟩
  apply CliEnv.listed_file_present rfl rfl hrun ?_ ?_ hturn hfound hmem rfl rfl ?_ ?_
  · intro position disk request hother
    exact plainNames_of_plainTurn (hplain position disk request hother)
  · intro position disk request hother prepared key manifestId raw manifest filter hskipped
    exact absurd hskipped (not_upToDate_of_plainTurn (hplain position disk request hother))
  · intro later disk request hlater hother
    rcases turn_of_pair hother with ⟨rfl, _⟩ | ⟨rfl, _⟩ <;> omega
  · intro hskipped
    exact absurd hskipped (not_upToDate_of_plainTurn htakes)

theorem taking_then_dropping_ends :
    endsWith blankDisk [takingRequest presentMoves, droppingRequest] "f" false = true := by
  decide +kernel

theorem staged_then_taking_ends :
    endsWith stagedDisk [sampleRequest .staged [], takingRequest resumedMoves] ".staging/f" false =
      true := by
  decide +kernel

/-- A file that moves to another depot is missing when that depot is downloaded first,
and a file that a depot keeps below `.staging` is missing when another depot has a file
of its name. -/
theorem moved_file_missing :
    ∃ prepared manifest final final' final'',
      CliEnv.Found sampleEnv (sampleArgs none) (takingRequest presentMoves) blankDisk prepared
        ⟨.replicate 32 0⟩ ⟨22⟩ manifest manifest none ∧ blankFile ∈ manifest.files ∧
      sampleEnv.runDownload (sampleArgs none) blankDisk
        [takingRequest presentMoves, droppingRequest] = some (final, true) ∧
      sampleEnv.runDownload (sampleArgs none) blankDisk
        [droppingRequest, takingRequest blankMoves] = some (final', true) ∧
      sampleEnv.runDownload (sampleArgs none) stagedDisk
        [sampleRequest .staged [], takingRequest resumedMoves] = some (final'', true) ∧
      final.present (sampleEnv.filePlace (sampleArgs none) ⟨1⟩ "f") = false ∧
      final'.present (sampleEnv.filePlace (sampleArgs none) ⟨1⟩ "f") = true ∧
      stagedDisk.present (sampleEnv.filePlace (sampleArgs none) ⟨1⟩ ".staging/f") = true ∧
      final''.present (sampleEnv.filePlace (sampleArgs none) ⟨1⟩ ".staging/f") = false := by
  obtain ⟨prepared, raw, hfound, hfiles⟩ := found_of_listsBlank
    (by decide +kernel : listsBlank blankDisk (takingRequest presentMoves) = true)
  obtain ⟨final, hrun, hmissing⟩ := of_endsWith taking_then_dropping_ends
  obtain ⟨final', hrun', hthere⟩ := of_endsWith dropping_then_taking_ends
  obtain ⟨final'', hrun'', hgone⟩ := of_endsWith staged_then_taking_ends
  exact ⟨prepared, raw, final, final', final'', hfound, by simp [hfiles], hrun, hrun', hrun'',
    hmissing, hthere, by decide +kernel, hgone⟩

end Sample

end DepotDownloader.Cli
