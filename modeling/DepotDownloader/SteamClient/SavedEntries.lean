import DepotDownloader.Foundation.LenientStore
import DepotDownloader.Foundation.Machine
import DepotDownloader.SteamClient.CacheHistory

/-! # Saved entries

The records of installed manifests and of login tokens are changed by loading, setting
one entry and saving. This module embeds the token store beside the depot config and
says when a completed save outlives the later ones.
-/

namespace DepotDownloader.SteamClient

open Foundation Foundation.LexPath Steam

/-- Refresh tokens by username. A later entry for a user is found before an earlier
one. -/
structure TokenStore where
  tokens : List (String × String) := []
  deriving DecidableEq, Repr

/-- JSON for the token store. -/
structure TokenCodecs where
  toJson : TokenStore → Bytes
  fromJson : Bytes → Option TokenStore
  fromJson_toJson : ∀ store, ∃ store', fromJson (toJson store) = some store' ∧
    ∀ username, store'.tokens.lookup username = store.tokens.lookup username
  fromJson_cut : ∀ store written, written < (toJson store).length →
    fromJson ((toJson store).take written) = none

namespace TokenStore

/-- Default storage path: `.depotdownloader/tokens.json` in the home directory, or here if
there is none. -/
def defaultPath (home : Option Path) : Path :=
  let dir := match home with
    | some home => home.join (.ofString ".depotdownloader")
    | none => .ofString ".depotdownloader"
  dir.join (.ofString "tokens.json")

def get (store : TokenStore) (username : String) : Option String := store.tokens.lookup username

def set (store : TokenStore) (username token : String) : TokenStore where
  tokens := (username, token) :: store.tokens.filter fun entry => entry.1 ≠ username

variable (codecs : TokenCodecs) (workingDir : Place)

/-- Load from disk. A missing or unreadable file counts as empty. -/
def load (disk : Disk) (path : Path) : TokenStore :=
  match disk.read (path.resolve workingDir) with
  | none => {}
  | some json => (codecs.fromJson json).getD {}

/-- Save to disk. -/
def save (store : TokenStore) (disk : Disk) (path : Path) (fault : Option WriteFault) : Disk :=
  writeFile disk (path.resolve workingDir) (codecs.toJson store) fault

end TokenStore

/-- A write is what the fault leaves of it. -/
theorem read_writeFile_fault (disk : Disk) (place : Place) (bytes : Bytes)
    (fault : Option WriteFault) :
    (writeFile disk place bytes fault).read place =
      match fault with
      | none => some bytes
      | some .unopened => disk.read place
      | some (.cut written) => some (bytes.take written) := by
  cases fault with
  | none => exact read_writeFile disk place bytes
  | some fault =>
      cases fault with
      | unopened => rfl
      | cut written => exact read_writeFile_cut disk place bytes written

/-- The depot config as a store of entries. -/
def DepotConfig.format (store : StoreCodecs) : StoreFormat DepotId ManifestId DepotConfig where
  empty := {}
  get := getInstalled
  set := setInstalled
  encode := store.configToJson
  decode := store.configFromJson
  get_empty _ := rfl
  get_set_self := getInstalled_setInstalled_self
  get_set_of_ne config _ manifestId _ hne := getInstalled_setInstalled_of_ne config manifestId hne
  decode_encode := store.configFromJson_toJson
  decode_cut := store.configFromJson_cut

/-- The token store as a store of entries. -/
def TokenStore.format (codecs : TokenCodecs) : StoreFormat String String TokenStore where
  empty := {}
  get := get
  set := set
  encode := codecs.toJson
  decode := codecs.fromJson
  get_empty _ := rfl
  get_set_self store username token := by simp [get, set]
  get_set_of_ne store username token other hne := by
    have hother : (other == username) = false := beq_eq_false_iff_ne.mpr hne
    simp only [get, set, List.lookup_cons, hother, lookup_filter_of_ne hne]
  decode_encode := codecs.fromJson_toJson
  decode_cut := codecs.fromJson_cut

/-- The two files: the config of a download directory and the tokens of a user. -/
structure SavedFiles where
  store : StoreCodecs
  tokens : TokenCodecs
  workingDir : Place
  installDir : Path
  home : Option Path

/-- A load, a set and a save on one of the files. -/
inductive SaveCycle where
  | installed (depotId : DepotId) (manifestId : ManifestId) (fault : Option WriteFault)
  | token (username token : String) (fault : Option WriteFault)

/-- The disk, and the entries whose save has completed and that no set has replaced. -/
structure SavedState where
  disk : Disk
  installed : DepotId → Option ManifestId
  tokens : String → Option String

def SavedState.initial (disk : Disk) : SavedState := ⟨disk, fun _ => none, fun _ => none⟩

namespace SavedFiles

variable (files : SavedFiles)

def loadConfig (disk : Disk) : DepotConfig :=
  .load files.store files.workingDir disk (DepotConfig.pathFor files.installDir)

def loadTokens (disk : Disk) : TokenStore :=
  .load files.tokens files.workingDir disk (TokenStore.defaultPath files.home)

def cycle (disk : Disk) : SaveCycle → Disk
  | .installed depotId manifestId fault =>
      ((files.loadConfig disk).setInstalled depotId manifestId).save files.store files.workingDir
        disk (DepotConfig.pathFor files.installDir) fault
  | .token username token fault =>
      ((files.loadTokens disk).set username token).save files.tokens files.workingDir disk
        (TokenStore.defaultPath files.home) fault

/-- The promise of a completed save stands until a set for the same key. -/
def machine : Machine SavedState SaveCycle where
  step state saveCycle :=
    let disk := files.cycle state.disk saveCycle
    match saveCycle with
    | .installed depotId manifestId fault =>
        some { state with
          disk := disk
          installed := Function.update state.installed depotId
            (if fault = none then some manifestId else none) }
    | .token username token fault =>
        some { state with
          disk := disk
          tokens := Function.update state.tokens username
            (if fault = none then some token else none) }

/-- Loads still return the entries whose save has completed. -/
structure Survives (state : SavedState) : Prop where
  installed : ∀ depotId manifestId, state.installed depotId = some manifestId →
    (files.loadConfig state.disk).getInstalled depotId = some manifestId
  tokens : ∀ username token, state.tokens username = some token →
    (files.loadTokens state.disk).get username = some token

/-- A save that is cut before the last byte of its JSON has no other saved entry of the
file to lose. -/
def NothingToLose (state : SavedState) : SaveCycle → Prop
  | .installed depotId manifestId fault =>
      ∀ written, fault = some (.cut written) →
        written < (files.store.configToJson
          ((files.loadConfig state.disk).setInstalled depotId manifestId)).length →
        ∀ other, other ≠ depotId → state.installed other = none
  | .token username token fault =>
      ∀ written, fault = some (.cut written) →
        written < (files.tokens.toJson
          ((files.loadTokens state.disk).set username token)).length →
        ∀ other, other ≠ username → state.tokens other = none

def configPlace : Place := (DepotConfig.pathFor files.installDir).resolve files.workingDir

def tokensPlace : Place := (TokenStore.defaultPath files.home).resolve files.workingDir

variable {files}

theorem configPlace_ne_tokensPlace : files.configPlace ≠ files.tokensPlace := by
  intro heq
  have htokens := (by decide : Canonical "tokens.json").resolve_join files.workingDir
  rw [configPlace, resolve_configPath, tokensPlace, TokenStore.defaultPath.eq_def, htokens,
    segments_of_noSlash (by decide)] at heq
  exact absurd (List.append_inj' heq rfl).2 (by decide)

variable {state next : SavedState} {disk : Disk}

section Cycles

variable (depotId : DepotId) (manifestId : ManifestId) (username token : String)
  (fault : Option WriteFault)

/-- Each cycle is a step of its own file. -/
theorem read_cycle_installed :
    (files.cycle disk (.installed depotId manifestId fault)).read files.configPlace =
      (DepotConfig.format files.store).step (disk.read files.configPlace)
        ⟨depotId, manifestId, fault⟩ :=
  read_writeFile_fault disk files.configPlace _ fault

theorem read_cycle_token :
    (files.cycle disk (.token username token fault)).read files.tokensPlace =
      (TokenStore.format files.tokens).step (disk.read files.tokensPlace)
        ⟨username, token, fault⟩ :=
  read_writeFile_fault disk files.tokensPlace _ fault

/-- The other file stays as it is. -/
theorem read_cycle_installed_tokens :
    (files.cycle disk (.installed depotId manifestId fault)).read files.tokensPlace =
      disk.read files.tokensPlace :=
  read_writeFile_of_ne configPlace_ne_tokensPlace.symm _ fault

theorem read_cycle_token_config :
    (files.cycle disk (.token username token fault)).read files.configPlace =
      disk.read files.configPlace :=
  read_writeFile_of_ne configPlace_ne_tokensPlace _ fault

end Cycles

theorem survives_iff : files.Survives state ↔
    (DepotConfig.format files.store).Keeps state.installed (state.disk.read files.configPlace) ∧
      (TokenStore.format files.tokens).Keeps state.tokens (state.disk.read files.tokensPlace) :=
  ⟨fun hsurvives => ⟨hsurvives.installed, hsurvives.tokens⟩, fun h => ⟨h.1, h.2⟩⟩

/-- One cycle loses nothing exactly when it has nothing to lose. -/
theorem survives_step_iff {saveCycle : SaveCycle} (hsurvives : files.Survives state)
    (hstep : files.machine.step state saveCycle = some next) :
    files.Survives next ↔ files.NothingToLose state saveCycle := by
  obtain ⟨hconfig, htokens⟩ := survives_iff.mp hsurvives
  cases saveCycle with
  | installed depotId manifestId fault =>
      obtain rfl := Option.some.inj hstep
      rw [survives_iff, read_cycle_installed, read_cycle_installed_tokens, and_iff_left htokens]
      exact StoreFormat.keeps_step_iff ⟨depotId, manifestId, fault⟩ hconfig
  | token username token fault =>
      obtain rfl := Option.some.inj hstep
      rw [survives_iff, read_cycle_token, read_cycle_token_config, and_iff_right hconfig]
      exact StoreFormat.keeps_step_iff ⟨username, token, fault⟩ htokens

/-- Completed saves outlive the later cycles exactly when every cycle has nothing to
lose. -/
theorem entries_survive_iff {moves : List SaveCycle}
    (hrun : files.machine.run (.initial disk) moves = some next) :
    (∀ done middle, done <+: moves →
      files.machine.run (.initial disk) done = some middle → files.Survives middle) ↔
        files.machine.RunWhere files.NothingToLose (.initial disk) moves next := by
  have hinitial : files.Survives (.initial disk) := ⟨nofun, nofun⟩
  exact (files.machine.runWhere_iff_invariant (fun _ _ _ => survives_step_iff) hinitial hrun).symm

section Sample

/-- The text of a config in the order of its entries. -/
def savedConfig (entries : List (DepotId × ManifestId)) (lines : String) : DepotConfig × Bytes :=
  (⟨entries⟩, encodeUtf8
    ("\x7b\n  \"installed_manifests\": \x7b\n" ++ lines ++ "\n  \x7d\n\x7d").toList)

def savedConfigs : List (DepotConfig × Bytes) :=
  [savedConfig [(⟨1⟩, ⟨11⟩)] "    \"1\": 11",
    savedConfig [(⟨2⟩, ⟨22⟩), (⟨1⟩, ⟨11⟩)] "    \"2\": 22,\n    \"1\": 11",
    savedConfig [(⟨3⟩, ⟨33⟩)] "    \"3\": 33"]

theorem apart_savedConfigs : TableCodec.Apart savedConfigs where
  texts := by decide +kernel
  uncounted := by decide +kernel
  nonempty := by decide +kernel

deriving instance Encodable for TokenStore

def sampleFiles : SavedFiles where
  store :=
    { emptyStore with
      configToJson := TableCodec.encode savedConfigs
      configFromJson := TableCodec.decode savedConfigs
      configFromJson_toJson := fun config =>
        ⟨config, TableCodec.decode_encode apart_savedConfigs config, fun _ => rfl⟩
      configFromJson_cut := fun config _ hcut =>
        TableCodec.decode_cut apart_savedConfigs config hcut }
  tokens :=
    { toJson := TableCodec.encode []
      fromJson := TableCodec.decode []
      fromJson_toJson := fun store =>
        ⟨store, TableCodec.decode_encode TableCodec.apart_nil store, fun _ => rfl⟩
      fromJson_cut := fun store _ hcut => TableCodec.decode_cut TableCodec.apart_nil store hcut }
  workingDir := ["home"]
  installDir := .ofString "out"
  home := none

def sampleCycles : List SaveCycle :=
  [.installed ⟨1⟩ ⟨11⟩ (some (.cut 5)), .installed ⟨1⟩ ⟨11⟩ none, .token "anna" "refresh" none,
    .installed ⟨2⟩ ⟨22⟩ (some .unopened)]

/-- A first save may be cut, and a later one may fail to open the file. -/
theorem entries_survive_iff_sample :
    ∃ next, sampleFiles.machine.run (.initial .empty) sampleCycles = some next ∧
      next.installed ⟨1⟩ = some ⟨11⟩ ∧ next.tokens "anna" = some "refresh" ∧
        sampleFiles.Survives next := by
  refine ⟨_, rfl, rfl, by decide, ?_⟩
  refine (@entries_survive_iff sampleFiles _ _ sampleCycles rfl).mpr ?_ sampleCycles _
    List.prefix_rfl rfl
  refine ⟨fun _ _ _ _ _ => rfl, _, rfl, ?_⟩
  refine ⟨fun _ hfault => (by cases hfault), _, rfl, ?_⟩
  refine ⟨fun _ hfault => (by cases hfault), _, rfl, ?_⟩
  exact ⟨fun _ hfault => (by cases hfault), _, rfl, rfl⟩

/-- A save that is cut behind the opening brace loses the other depot, and the next save
overwrites the file without it. -/
theorem cut_save_loses :
    ∃ next, sampleFiles.machine.run (.initial .empty)
        [.installed ⟨1⟩ ⟨11⟩ none, .installed ⟨2⟩ ⟨22⟩ (some (.cut 1)),
          .installed ⟨3⟩ ⟨33⟩ none] = some next ∧
      next.installed ⟨1⟩ = some ⟨11⟩ ∧
        sampleFiles.loadConfig next.disk = ⟨[(⟨3⟩, ⟨33⟩)]⟩ := by
  refine ⟨_, rfl, rfl, ?_⟩
  decide +kernel

end Sample

end SavedFiles

end DepotDownloader.SteamClient
