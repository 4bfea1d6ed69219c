import DepotDownloader.Cli.BranchPasswords
import DepotDownloader.Cli.Shortcuts

/-! # Selecting depots

Without a list of depots the download command takes all of the app that match the
filter, and looks up a manifest for each when the loop comes to it. Two traversals of
the product info have to agree. This module embeds the selection in front of the loop
and says when no depot of it ends the loop.
-/

namespace DepotDownloader.Cli

open Foundation Foundation.LexPath Steam Steam.Types SteamClient

structure DepotInfo where
  id : DepotId
  name : Option String
  osList : Option String
  osArch : Option String
  language : Option String
  depotFromApp : Option Nat

/-- Depot filter criteria from CLI args. -/
structure DepotFilter where
  os : Option String := none
  arch : Option String := none
  language : Option String := none
  allPlatforms : Bool := false
  allArchs : Bool := false
  allLanguages : Bool := false

/-- The elements of a list with commas between them. -/
def commaList (text : String) : List String :=
  (text.toList.splitOn ',').map fun part => String.ofList (trim part)

/-- A criterion that is given does not match what the depot names. -/
def mismatch (all : Bool) (agrees : String → String → Bool) (wanted named : Option String) :
    Bool :=
  match all, wanted, named with
  | false, some wanted, some named => !agrees named wanted
  | _, _, _ => false

def DepotFilter.selects (filter : DepotFilter) (depot : DepotInfo) : Bool :=
  let listed (list os : String) := (commaList list).any (eqIgnoreAsciiCase · os)
  !(mismatch filter.allPlatforms listed filter.os depot.osList ||
    mismatch filter.allArchs eqIgnoreAsciiCase filter.arch depot.osArch ||
    mismatch filter.allLanguages eqIgnoreAsciiCase filter.language depot.language)

def depotInfo (id : DepotId) (depot : KeyValue) : DepotInfo :=
  let strField key := (depot.get key).bind (·.asStr)
  { id
    name := strField "name"
    osList := strField "oslist"
    osArch := strField "osarch"
    language := strField "language"
    depotFromApp := (strField "depotfromapp").bind (parseUnsigned UInt32.size) }

def discoverDepotDetails (appInfos : List AppInfo) : List DepotInfo :=
  (depotNodes appInfos).map fun node => depotInfo node.1 node.2

def discoverDepotsFiltered (appInfos : List AppInfo) (filter : DepotFilter) : List DepotId :=
  ((discoverDepotDetails appInfos).filter filter.selects).map (·.id)

/-- The options that say which depots and manifests to take. -/
structure Selection where
  depot : List DepotId
  manifest : List ManifestId
  branch : String
  betaPassword : Option String
  filter : DepotFilter

/-- What the servers answer for one depot, and what happens to its download. -/
structure DepotAnswers where
  key : Option DepotKey
  checkBetaPassword : PasswordCheck
  requestCodeAnswered : Bool
  response : Option Bytes
  fetcher : ChunkFetcher
  moves : List JobMove
  cacheFault : Option SaveFault
  configFault : Option WriteFault
  silent : Nat → SilentFailures := fun _ => .none

namespace Selection

variable (selection : Selection) (appInfos : List AppInfo)

def depotIds : List DepotId :=
  if selection.depot = [] then discoverDepotsFiltered appInfos selection.filter
  else selection.depot

/-- Explicit IDs, one for each depot in the order of the lists. The last one given for a
depot counts. -/
def explicitManifest (depotId : DepotId) : Option ManifestId :=
  ((selection.depotIds appInfos).zip selection.manifest).reverse.lookup depotId

/-- The requests of an iteration, in the order in which they are made. -/
def keyAndManifest (depotId : DepotId) (answers : DepotAnswers) :
    Except CliError (DepotKey × ManifestId) := do
  let depotKey ← answers.key.elim (.error .passedOn) .ok
  let manifestId ← match selection.explicitManifest appInfos depotId with
    | some id => .ok id
    | none => (resolveManifestId answers.checkBetaPassword appInfos depotId selection.branch
        selection.betaPassword).result
  if answers.requestCodeAnswered then return (depotKey, manifestId)
  else .error .passedOn

def depotRequest (depotId : DepotId) (answers : DepotAnswers) : DepotRequest where
  depotId := depotId
  keyAndManifest := (selection.keyAndManifest appInfos depotId answers).toOption
  response := answers.response
  fetcher := answers.fetcher
  moves := answers.moves
  cacheFault := answers.cacheFault
  configFault := answers.configFault
  silent := answers.silent

/-- The loop over the depots, with the error that ends it. -/
def runDepots (env : CliEnv) (args : DownloadArgs) (disk : Disk) :
    List (DepotId × DepotAnswers) → Option (Disk × Except CliError Unit)
  | [] => some (disk, .ok ())
  | (depotId, answers) :: rest =>
      match selection.keyAndManifest appInfos depotId answers with
      | .error error => some (disk, .error error)
      | .ok _ =>
          match env.runDepot args disk (selection.depotRequest appInfos depotId answers) with
          | none => none
          | some (disk, .aborted) => some (disk, .error .passedOn)
          | some (disk, _) => runDepots env args disk rest

/-- The command from the product info on. The CDN servers are counted, and the answers
for the depots are given by their place in the list. -/
def runDownload (env : CliEnv) (args : DownloadArgs) (disk : Disk) (cdnServers : Option Nat)
    (answers : Nat → DepotAnswers) : Option (Disk × Except CliError Unit) :=
  match cdnServers with
  | none => some (disk, .error .passedOn)
  | some 0 => some (disk, .error (.other "No CDN servers available"))
  | some _ =>
      match (selection.depotIds appInfos).mapIdx fun index depotId => (depotId, answers index) with
      | [] => some (disk, .error (.other "No depots to download"))
      | depots => selection.runDepots appInfos env args disk depots

variable {selection appInfos} {env : CliEnv} {args : DownloadArgs} {disk disk' : Disk}
  {depotId : DepotId} {answers : DepotAnswers}

/-- The loop is that of the downloads, with the error beside it. -/
theorem runDepots_runDownload (depots : List (DepotId × DepotAnswers)) :
    (selection.runDepots appInfos env args disk depots).map
        (fun result => (result.1, result.2.toBool)) =
      env.runDownload args disk
        (depots.map fun depot => selection.depotRequest appInfos depot.1 depot.2) := by
  induction depots generalizing disk with
  | nil => rfl
  | cons depot rest ih =>
      obtain ⟨depotId, answers⟩ := depot
      rw [runDepots, List.map_cons, CliEnv.runDownload]
      cases hasked : selection.keyAndManifest appInfos depotId answers with
      | error error =>
          have hmissing : (selection.depotRequest appInfos depotId answers).keyAndManifest =
              none := by
            simp only [depotRequest, hasked]
            rfl
          have haborted : env.runDepot args disk (selection.depotRequest appInfos depotId answers) =
              some (disk, .aborted) := by
            unfold CliEnv.runDepot CliEnv.prepareDepot
            rw [hmissing]
          simp only [haborted]
          rfl
      | ok found =>
          simp only
          cases hrun : env.runDepot args disk (selection.depotRequest appInfos depotId answers) with
          | none => rfl
          | some result =>
              obtain ⟨next, outcome⟩ := result
              cases outcome with
              | aborted => rfl
              | upToDate | installed => exact ih

/-- The lookups that count for a depot: the branch, and the public branch behind it. -/
def Resolvable (appInfos : List AppInfo) (branch : String) (depotId : DepotId) : Prop :=
  (discoverManifestId appInfos depotId branch).isSome ∨
    (discoverManifestId appInfos depotId "public").isSome

theorem resolvable_iff {branch : String} : Resolvable appInfos branch depotId ↔
    ∃ depot ∈ depotsOf appInfos depotId, ∃ manifests ∈ ["manifests", "encryptedmanifests"],
      ∃ wanted ∈ [branch, "public"], (manifestGid depot manifests wanted).isSome := by
  have hlookup : ∀ wanted, (discoverManifestId appInfos depotId wanted).isSome ↔
      ∃ depot ∈ depotsOf appInfos depotId, ∃ manifests ∈ ["manifests", "encryptedmanifests"],
        (manifestGid depot manifests wanted).isSome := by
    intro wanted
    rw [discoverManifestId_eq, List.findSome?_isSome_iff]
    simp [anyGid]
  unfold Resolvable
  rw [hlookup, hlookup]
  constructor
  · rintro (⟨depot, hmem, manifests, hsection, hgid⟩ | ⟨depot, hmem, manifests, hsection, hgid⟩)
    · exact ⟨depot, hmem, manifests, hsection, branch, by simp, hgid⟩
    · exact ⟨depot, hmem, manifests, hsection, "public", by simp, hgid⟩
  · rintro ⟨depot, hmem, manifests, hsection, wanted, hwanted, hgid⟩
    rcases List.mem_pair.mp hwanted with rfl | rfl
    · exact .inl ⟨depot, hmem, manifests, hsection, hgid⟩
    · exact .inr ⟨depot, hmem, manifests, hsection, hgid⟩

/-- A manifest is resolved, or the error says that there is none. -/
theorem resolve_cases (check : PasswordCheck) (appInfos : List AppInfo) (branch : String)
    (depotId : DepotId) (betaPassword : Option String) :
    (Resolvable appInfos branch depotId ∧
        ∃ id, (resolveManifestId check appInfos depotId branch betaPassword).result = .ok id) ∨
      (¬ Resolvable appInfos branch depotId ∧
        (resolveManifestId check appInfos depotId branch betaPassword).result =
          .error (.noManifest depotId branch)) := by
  cases hbranch : discoverManifestId appInfos depotId branch with
  | some id =>
      rw [resolveManifestId_found hbranch]
      exact .inl ⟨.inl (by rw [hbranch]; rfl), id, rfl⟩
  | none =>
      rw [resolveManifestId_missing hbranch]
      cases hpublic : discoverManifestId appInfos depotId "public" with
      | some id =>
          exact .inl ⟨.inr (by rw [hpublic]; rfl), id, (resolvePublic_eq_ok hbranch).mpr hpublic⟩
      | none =>
          right
          constructor
          · rintro (hsome | hsome)
            · simp [hbranch] at hsome
            · simp [hpublic] at hsome
          · simp [resolvePublic, hpublic]

theorem noManifest_ne {depotId : DepotId} {branch message : String}
    (hother : ¬ "No manifest for depot ".toList <+: message.toList) :
    CliError.noManifest depotId branch ≠ .other message := by
  intro heq
  obtain rfl := CliError.other.inj heq
  apply hother
  simp only [String.toList_append, List.append_assoc]
  exact List.prefix_append _ _

/-- With no explicit manifests a depot that can be resolved does not end the loop for
want of a manifest. -/
theorem keyAndManifest_resolvable (hmanifest : selection.manifest = [])
    (hresolvable : Resolvable appInfos selection.branch depotId) {other : DepotId}
    {branch : String} :
    selection.keyAndManifest appInfos depotId answers ≠ .error (.noManifest other branch) := by
  have hexplicit : selection.explicitManifest appInfos depotId = none := by
    simp [explicitManifest, hmanifest]
  unfold keyAndManifest
  rw [hexplicit]
  rcases resolve_cases answers.checkBetaPassword appInfos selection.branch depotId
    selection.betaPassword with ⟨_, id, hid⟩ | ⟨hnone, _⟩
  · cases answers.key with
    | none => simp [CliError.noManifest, bind, Except.bind]
    | some key =>
        simp only [hid]
        by_cases hcode : answers.requestCodeAnswered = true
        · simp [hcode, bind, Except.bind, pure, Except.pure]
        · simp [hcode, CliError.noManifest, bind, Except.bind]
  · exact absurd hresolvable hnone

theorem keyAndManifest_answered {key : DepotKey} (hmanifest : selection.manifest = [])
    (hkey : answers.key = some key) (hcode : answers.requestCodeAnswered = true) :
    selection.keyAndManifest appInfos depotId answers =
      (resolveManifestId answers.checkBetaPassword appInfos depotId selection.branch
        selection.betaPassword).result.map (key, ·) := by
  have hexplicit : selection.explicitManifest appInfos depotId = none := by
    simp [explicitManifest, hmanifest]
  unfold keyAndManifest
  rw [hexplicit, hkey, hcode]
  simp only
  cases (resolveManifestId answers.checkBetaPassword appInfos depotId selection.branch
    selection.betaPassword).result <;> rfl

theorem runDepots_resolvable (hmanifest : selection.manifest = [])
    {depots : List (DepotId × DepotAnswers)}
    (hresolvable : ∀ depot ∈ depots, Resolvable appInfos selection.branch depot.1)
    {other : DepotId} {branch : String} :
    selection.runDepots appInfos env args disk depots ≠
      some (disk', .error (.noManifest other branch)) := by
  induction depots generalizing disk with
  | nil => simp [runDepots]
  | cons depot rest ih =>
      obtain ⟨depotId, answers⟩ := depot
      obtain ⟨hfirst, hrest⟩ := List.forall_mem_cons.mp hresolvable
      rw [runDepots]
      split
      next error hasked =>
        intro heq
        cases heq
        exact keyAndManifest_resolvable hmanifest hfirst hasked
      next =>
        split
        next => simp
        next => simp [CliError.noManifest]
        next => exact ih hrest

/-- A depot whose manifest is recorded is up to date, and nothing is written when the
manifest cannot be cached. -/
theorem runDepot_current {request : DepotRequest} {key : DepotKey} {manifestId : ManifestId}
    {bytes : Bytes} {manifest : DepotManifest} {filter : Option FileFilter}
    (hasked : request.keyAndManifest = some (key, manifestId))
    (hmissing : env.loadCached args disk request.depotId manifestId = none)
    (hresponse : request.response = some bytes) (hfault : request.cacheFault = some .directory)
    (hparse : extractAndParse env.store bytes = .ok manifest)
    (hplain : manifest.filenamesEncrypted = false) (hfilter : args.fileFilter = some filter)
    (hverify : args.verify = false)
    (hinstalled : (env.loadConfig args disk).getInstalled request.depotId = some manifestId) :
    env.runDepot args disk request = some (disk, .upToDate) := by
  have hobtained : env.obtainManifest args disk request manifestId = (disk, some manifest) := by
    simp [CliEnv.obtainManifest, hmissing, hresponse, hfault, hparse, ManifestCache.save,
      Except.toOption]
  have hdecrypted : env.decrypted manifest key = some manifest := by
    simp [CliEnv.decrypted, hplain]
  simp [CliEnv.runDepot, CliEnv.prepareDepot, hasked, hobtained, hdecrypted, hfilter, hinstalled,
    hverify]

/-- Answers with which every depot that has a manifest is up to date. -/
def currentAnswers : DepotAnswers where
  key := some ⟨.replicate 32 0⟩
  checkBetaPassword _ := .error .io
  requestCodeAnswered := true
  response := some SampleManifest.blank.archive
  fetcher _ := .error "offline"
  moves := []
  cacheFault := some .directory
  configFault := none

theorem extract_blank : ∃ manifest,
    extractAndParse sampleEnv.store SampleManifest.blank.archive = .ok manifest ∧
      manifest.filenamesEncrypted = false := by
  have hparse : (extractAndParse sampleEnv.store SampleManifest.blank.archive).toOption.any
      (fun manifest => !manifest.filenamesEncrypted) = true := by decide +kernel
  cases hextract : extractAndParse sampleEnv.store SampleManifest.blank.archive with
  | error error => simp [hextract, Except.toOption] at hparse
  | ok manifest => exact ⟨manifest, rfl, by simpa [hextract, Except.toOption] using hparse⟩

/-- The manifests that are resolved for the depots. -/
def resolvedConfig (selection : Selection) (appInfos : List AppInfo) (depotIds : List DepotId) :
    DepotConfig where
  installedManifests := depotIds.filterMap fun depotId =>
    (resolveManifestId currentAnswers.checkBetaPassword appInfos depotId selection.branch
      selection.betaPassword).result.toOption.map (depotId, ·)

theorem getInstalled_resolvedConfig {depotIds : List DepotId} {id : ManifestId}
    (hmem : depotId ∈ depotIds)
    (hresolved : (resolveManifestId currentAnswers.checkBetaPassword appInfos depotId
      selection.branch selection.betaPassword).result = .ok id) :
    (resolvedConfig selection appInfos depotIds).getInstalled depotId = some id := by
  induction depotIds with
  | nil => cases hmem
  | cons first rest ih =>
      simp only [resolvedConfig, DepotConfig.getInstalled, List.filterMap_cons] at ih ⊢
      by_cases hfirst : depotId = first
      · subst hfirst
        simp [hresolved, Except.toOption]
      · have hrest := ih ((List.mem_cons.mp hmem).resolve_left hfirst)
        split
        next => exact hrest
        next entry hentry =>
          obtain ⟨other, -, rfl⟩ := Option.map_eq_some_iff.mp hentry
          have hne : (depotId == first) = false := beq_eq_false_iff_ne.mpr hfirst
          rw [List.lookup_cons, hne]
          exact hrest

/-- A disk on which the manifests that are resolved for the depots are recorded. -/
def currentDisk (selection : Selection) (appInfos : List AppInfo) (depotIds : List DepotId) :
    Disk :=
  (resolvedConfig selection appInfos depotIds).save sampleEnv.store sampleEnv.workingDir
    (.ofFiles []) (DepotConfig.pathFor (sampleArgs none).baseDir) none

theorem loadCached_currentDisk (depotIds : List DepotId) (manifestId : ManifestId) :
    sampleEnv.loadCached (sampleArgs none) (currentDisk selection appInfos depotIds) depotId
      manifestId = none := by
  have hread : (currentDisk selection appInfos depotIds).read
      (((CliEnv.cache (sampleArgs none)).manifestPath depotId manifestId).resolve
        sampleEnv.workingDir) = none := by
    unfold currentDisk DepotConfig.save CliEnv.cache
    rw [resolve_configPath, resolve_manifestPath, read_writeFile_of_ne]
    · rfl
    · exact (configPlace_ne_cachePlace ManifestCache.manifestName_ne_config).symm
  unfold CliEnv.loadCached ManifestCache.load
  rw [hread]

/-- On such a disk the loop gets to the first depot that has no manifest. -/
theorem runDepots_unresolvable (hmanifest : selection.manifest = []) {depotIds : List DepotId}
    {depots : List (DepotId × DepotAnswers)}
    (hdepots : ∀ depot ∈ depots, depot.1 ∈ depotIds ∧ depot.2 = currentAnswers)
    (hsome : ∃ depot ∈ depots, ¬ Resolvable appInfos selection.branch depot.1) :
    ∃ depotId, selection.runDepots appInfos sampleEnv (sampleArgs none)
        (currentDisk selection appInfos depotIds) depots =
      some (currentDisk selection appInfos depotIds,
        .error (.noManifest depotId selection.branch)) := by
  induction depots with
  | nil =>
      obtain ⟨depot, hmem, -⟩ := hsome
      cases hmem
  | cons depot rest ih =>
      obtain ⟨depotId, answers⟩ := depot
      obtain ⟨⟨hlisted, hanswers⟩, hrest⟩ := List.forall_mem_cons.mp hdepots
      simp only at hlisted hanswers
      subst hanswers
      have hanswered := @keyAndManifest_answered selection appInfos depotId currentAnswers _
        hmanifest rfl rfl
      rw [runDepots]
      rcases resolve_cases currentAnswers.checkBetaPassword appInfos selection.branch depotId
        selection.betaPassword with ⟨hresolvable, id, hid⟩ | ⟨_, hnone⟩
      · rw [hid] at hanswered
        have hinstalled : (sampleEnv.loadConfig (sampleArgs none)
            (currentDisk selection appInfos depotIds)).getInstalled depotId = some id := by
          unfold CliEnv.loadConfig currentDisk
          rw [DepotConfig.getInstalled_of_save]
          exact getInstalled_resolvedConfig hlisted hid
        have hrun : sampleEnv.runDepot (sampleArgs none) (currentDisk selection appInfos depotIds)
            (selection.depotRequest appInfos depotId currentAnswers) =
              some (currentDisk selection appInfos depotIds, .upToDate) := by
          obtain ⟨manifest, hparse, hplain⟩ := extract_blank
          apply runDepot_current _ (loadCached_currentDisk depotIds id) rfl rfl hparse hplain rfl
            rfl hinstalled
          · exact ⟨.replicate 32 0⟩
          · simp only [depotRequest, hanswered]
            rfl
        have hlater : ∃ depot ∈ rest, ¬ Resolvable appInfos selection.branch depot.1 := by
          obtain ⟨depot, hmem, hnone⟩ := hsome
          rcases List.mem_cons.mp hmem with rfl | hmem
          · exact absurd hresolvable hnone
          · exact ⟨depot, hmem, hnone⟩
        simp only [hanswered, Except.map, hrun]
        exact ih hrest hlater
      · rw [hnone] at hanswered
        simp only [hanswered, Except.map]
        exact ⟨depotId, rfl⟩

theorem mem_discoverDepotsFiltered {filter : DepotFilter} :
    depotId ∈ discoverDepotsFiltered appInfos filter ↔
      ∃ depot ∈ depotsOf appInfos depotId, filter.selects (depotInfo depotId depot) = true := by
  simp only [discoverDepotsFiltered, discoverDepotDetails, List.mem_map, List.mem_filter,
    mem_depotsOf]
  constructor
  · rintro ⟨info, ⟨⟨node, hmem, rfl⟩, hselects⟩, rfl⟩
    exact ⟨node.2, hmem, hselects⟩
  · rintro ⟨depot, hmem, hselects⟩
    exact ⟨_, ⟨⟨_, hmem, rfl⟩, hselects⟩, rfl⟩

end Selection

/-- The lookups find a manifest for every selected depot. -/
def EverySelectedFound (appInfos : List AppInfo) (filter : DepotFilter) (branch : String) : Prop :=
  ∀ depotId ∈ discoverDepotsFiltered appInfos filter,
    Selection.Resolvable appInfos branch depotId

/-- No run of the command without a list of depots or manifests ends because a depot has
no manifest. -/
def NeverInterrupted (appInfos : List AppInfo) (filter : DepotFilter) (branch : String) : Prop :=
  ∀ (env : CliEnv) (args : DownloadArgs) (betaPassword : Option String) (cdnServers : Option Nat)
    (answers : Nat → DepotAnswers) (disk disk' : Disk) (depotId : DepotId) (other : String),
    Selection.runDownload ⟨[], [], branch, betaPassword, filter⟩ appInfos env args disk cdnServers
      answers ≠ some (disk', .error (.noManifest depotId other))

/-- Every depot entry that matches the filter has a gid for the branch or for "public" in
one of the manifest sections, its own or those of an entry with the same number. -/
def EveryMatchHasGid (appInfos : List AppInfo) (filter : DepotFilter) (branch : String) : Prop :=
  ∀ node ∈ depotNodes appInfos, filter.selects (depotInfo node.1 node.2) = true →
    ∃ depot ∈ depotsOf appInfos node.1, ∃ manifests ∈ ["manifests", "encryptedmanifests"],
      ∃ wanted ∈ [branch, "public"], (manifestGid depot manifests wanted).isSome

section Downloadable

variable {appInfos : List AppInfo} {filter : DepotFilter} {branch : String}

theorem everySelectedFound_iff :
    EverySelectedFound appInfos filter branch ↔ EveryMatchHasGid appInfos filter branch := by
  unfold EverySelectedFound EveryMatchHasGid
  simp only [Selection.resolvable_iff, Selection.mem_discoverDepotsFiltered, mem_depotsOf]
  constructor
  · intro hfound node hmem hselects
    exact hfound node.1 ⟨node.2, hmem, hselects⟩
  · rintro hgid depotId ⟨depot, hmem, hselects⟩
    exact hgid ⟨depotId, depot⟩ hmem hselects

theorem EverySelectedFound.neverInterrupted (hfound : EverySelectedFound appInfos filter branch) :
    NeverInterrupted appInfos filter branch := by
  intro env args betaPassword cdnServers answers disk disk' depotId other
  unfold Selection.runDownload
  split
  next => simp [CliError.noManifest]
  next =>
    intro heq
    exact Selection.noManifest_ne (by decide) (Except.error.inj (Prod.mk.inj
      (Option.some.inj heq)).2).symm
  next =>
    split
    next =>
      intro heq
      exact Selection.noManifest_ne (by decide) (Except.error.inj (Prod.mk.inj
        (Option.some.inj heq)).2).symm
    next =>
      apply Selection.runDepots_resolvable rfl
      intro depot hmem
      obtain ⟨index, hindex, rfl⟩ := List.mem_mapIdx.mp hmem
      exact hfound _ (List.getElem_mem hindex)

/-- When a selected depot has no manifest, some run ends with it: one in which every
depot before it is up to date. -/
theorem NeverInterrupted.everySelectedFound (hnever : NeverInterrupted appInfos filter branch) :
    EverySelectedFound appInfos filter branch := by
  intro depotId hmem
  by_contra hnone
  let selection : Selection := ⟨[], [], branch, none, filter⟩
  let depotIds := selection.depotIds appInfos
  let depots := depotIds.mapIdx fun _ depotId => (depotId, Selection.currentAnswers)
  have hlisted : depotId ∈ depotIds := hmem
  have hdepots : ∀ depot ∈ depots, depot.1 ∈ depotIds ∧ depot.2 = Selection.currentAnswers := by
    intro depot hdepot
    obtain ⟨index, hindex, rfl⟩ := List.mem_mapIdx.mp hdepot
    exact ⟨List.getElem_mem hindex, rfl⟩
  have hsome : ∃ depot ∈ depots, ¬ Selection.Resolvable appInfos selection.branch depot.1 := by
    obtain ⟨index, hindex, rfl⟩ := List.mem_iff_getElem.mp hlisted
    exact ⟨_, List.mem_mapIdx.mpr ⟨index, hindex, rfl⟩, hnone⟩
  obtain ⟨other, hrun⟩ := Selection.runDepots_unresolvable rfl hdepots hsome
  apply hnever sampleEnv (sampleArgs none) none (some 1) (fun _ => Selection.currentAnswers)
    (selection.currentDisk appInfos depotIds) (selection.currentDisk appInfos depotIds) other branch
  unfold Selection.runDownload
  cases hlist : depots with
  | nil =>
      obtain ⟨depot, hdepot, -⟩ := hsome
      rw [hlist] at hdepot
      cases hdepot
  | cons first rest =>
      rw [hlist] at hrun
      change (match depots with
        | [] => _
        | depots => selection.runDepots appInfos sampleEnv (sampleArgs none) _ depots) = _
      rw [hlist]
      exact hrun

end Downloadable

/-- The two traversals agree exactly when every matching entry has a gid, and exactly
then no run ends for want of a manifest. -/
theorem selected_downloadable_iff (appInfos : List AppInfo) (filter : DepotFilter)
    (branch : String) :
    (EverySelectedFound appInfos filter branch ↔ EveryMatchHasGid appInfos filter branch) ∧
      (NeverInterrupted appInfos filter branch ↔ EveryMatchHasGid appInfos filter branch) := by
  refine ⟨everySelectedFound_iff, ?_⟩
  rw [← everySelectedFound_iff]
  exact ⟨NeverInterrupted.everySelectedFound, EverySelectedFound.neverInterrupted⟩

/-- Depot 1 comes from another app. -/
def sharedDepot : KeyValue := ⟨"1", .children [⟨"depotfromapp", .string "9"⟩]⟩

/-- Depot 2 has a public manifest. -/
def publicDepot : KeyValue :=
  ⟨"2", .children [⟨"manifests", .children [⟨"public", .children [⟨"gid", .string "5"⟩]⟩]⟩]⟩

def publicBytes : Bytes :=
  sectionBytes "2" (sectionBytes "manifests" (sectionBytes "public"
    (KvTag.string.toU8 :: (nullString "gid" ++ nullString "5" ++ []))))

def sharedBytes : Bytes :=
  sectionBytes "app" (sectionBytes "depots" (KvTag.none.toU8 :: (nullString "1" ++
    (KvTag.string.toU8 :: (nullString "depotfromapp" ++ nullString "9" ++ [])) ++
    KvTag.endTag.toU8 :: publicBytes)))

theorem depotNodes_shared :
    depotNodes [⟨some sharedBytes⟩] = [(⟨1⟩, sharedDepot), (⟨2⟩, publicDepot)] := by
  have hlt : sharedDepot.key < publicDepot.key := String.lt_iff_toList_lt.mpr (by decide)
  have hpublic : Written [publicDepot] publicBytes := by
    repeat apply written_section (by simp [NulFree])
    exact .leaf (by simp [NulFree]) (by simp [NulFree, KvValue.NulFree]) rfl .nil
  have hwritten : Written [⟨"app", .children [⟨"depots", .children [sharedDepot, publicDepot]⟩]⟩]
      sharedBytes := by
    apply written_section (by simp [NulFree])
    refine .branch (by simp [NulFree]) (List.pairwise_pair.mpr hlt) (List.Perm.refl _) ?_ rfl .nil
    refine .branch (by simp [NulFree]) (List.pairwise_singleton _ _) (List.Perm.refl _) ?_ rfl
      hpublic
    exact .leaf (by simp [NulFree]) (by simp [NulFree, KvValue.NulFree]) rfl .nil
  unfold depotNodes
  rw [List.flatMap_singleton, parseAppKv_written hwritten]
  rfl

/-- The first depot ends the run before the second one. -/
theorem shared_interrupts :
    discoverDepotsFiltered [⟨some sharedBytes⟩] {} = [⟨1⟩, ⟨2⟩] ∧
      ¬ EverySelectedFound [⟨some sharedBytes⟩] {} "public" ∧
      ¬ NeverInterrupted [⟨some sharedBytes⟩] {} "public" := by
  have hlisted : discoverDepotsFiltered [⟨some sharedBytes⟩] {} = [⟨1⟩, ⟨2⟩] := by
    unfold discoverDepotsFiltered discoverDepotDetails
    rw [depotNodes_shared]
    rfl
  have hfirst : depotsOf [⟨some sharedBytes⟩] ⟨1⟩ = [sharedDepot] := by
    unfold depotsOf
    rw [depotNodes_shared]
    rfl
  have hlost : ¬ EverySelectedFound [⟨some sharedBytes⟩] {} "public" := by
    intro hfound
    have hresolvable := hfound ⟨1⟩ (by simp [hlisted])
    unfold Selection.Resolvable at hresolvable
    rw [discoverManifestId_eq, hfirst] at hresolvable
    rcases hresolvable with hgid | hgid <;> cases hgid
  exact ⟨hlisted, hlost, fun hnever => hlost hnever.everySelectedFound⟩

end DepotDownloader.Cli
