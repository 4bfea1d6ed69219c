import DepotDownloader.SteamClient.Manifest

/-! # Where the store keeps its files

Every file of the cache and every `depot.json` lies below a directory named
`.depotdownloader`, and the cache keeps the files of different manifests apart.
-/

namespace DepotDownloader.SteamClient

open Foundation Foundation.LexPath Steam

section WriteFile

variable {disk : Disk} {place : Place}

theorem writeFile_changesOnly (disk : Disk) (place : Place) (bytes : Bytes)
    (fault : Option WriteFault) :
    FileTree.ChangesOnly (· = place) disk (writeFile disk place bytes fault) := by
  have hopen := disk.openTruncate_changesOnly place
  have hlink := disk.openTruncate_link place
  unfold writeFile
  split
  · exact FileTree.ChangesOnly.refl _ _
  · exact hopen.trans (FileTree.store_changesOnly hlink _)
  · exact hopen.trans (FileTree.store_changesOnly hlink _)

@[simp] theorem read_writeFile (disk : Disk) (place : Place) (bytes : Bytes) :
    (writeFile disk place bytes none).read place = some bytes :=
  FileTree.read_store_self (disk.openTruncate_link place) bytes

@[simp] theorem read_writeFile_cut (disk : Disk) (place : Place) (bytes : Bytes) (written : Nat) :
    (writeFile disk place bytes (some (.cut written))).read place = some (bytes.take written) :=
  FileTree.read_store_self (disk.openTruncate_link place) _

theorem read_writeFile_of_ne {other : Place} (hne : other ≠ place) (bytes : Bytes)
    (fault : Option WriteFault) :
    (writeFile disk place bytes fault).read other = disk.read other :=
  (writeFile_changesOnly disk place bytes fault other hne).read_eq

/-- A write removes no file. -/
theorem writeFile_present {other : Place} (hpresent : disk.present other = true) (bytes : Bytes)
    (fault : Option WriteFault) : (writeFile disk place bytes fault).present other = true := by
  by_cases heq : other = place
  · subst heq
    have hopened : (disk.openTruncate other).1.present other = true := by
      simp [FileTree.present, disk.openTruncate_link other]
    unfold writeFile
    split
    · exact hpresent
    · exact hopened
    · exact hopened
  · rw [(writeFile_changesOnly disk place bytes fault other heq).present_eq]
    exact hpresent

end WriteFile

/-- A name without a slash is its own only segment. -/
theorem segments_of_noSlash {name : String} (hslash : '/' ∉ name.toList) :
    segments name = [name] := by
  unfold segments List.splitOn
  rw [List.splitOnP_eq_singleton]
  · simp
  · intro char hchar
    simp only [beq_eq_false_iff_ne]
    intro heq
    exact hslash (heq ▸ hchar)

/-- A name with an underscore and without a slash is canonical. -/
theorem canonical_of_underscore {name : String} (hslash : '/' ∉ name.toList)
    (hunderscore : '_' ∈ name.toList) : Canonical name := by
  intro segment hsegment
  rw [segments_of_noSlash hslash, List.mem_singleton] at hsegment
  subst hsegment
  refine ⟨?_, ?_, ?_⟩
  all_goals
    intro heq
    rw [heq] at hunderscore
    exact absurd hunderscore (by decide)

theorem noSlash_toDigits (value : Nat) : '/' ∉ Nat.toDigits 10 value := by
  intro hmem
  exact absurd (Nat.isDigit_of_mem_toDigits (by decide) (by decide) hmem) (by decide)

theorem toDigits_injective : Function.Injective (Nat.toDigits 10) := by
  intro value value' heq
  have hread := congrArg (fun digits => Nat.ofDigitChars 10 digits 0) heq
  simpa only [Nat.ofDigitChars_ten_toDigits] using hread

namespace ManifestCache

variable {depotId depotId' : DepotId} {manifestId manifestId' : ManifestId}

/-- The files of one manifest are named by its two numbers and an extension. -/
def entryChars (depotId : DepotId) (manifestId : ManifestId) (extension : List Char) :
    List Char :=
  Nat.toDigits 10 depotId.id.toNat ++ '_' :: (Nat.toDigits 10 manifestId.id.toNat ++ extension)

theorem toList_manifestName (depotId : DepotId) (manifestId : ManifestId) :
    (manifestName depotId manifestId).toList =
      entryChars depotId manifestId ".manifest".toList := by
  simp [manifestName, entryChars]

theorem toList_shaName (depotId : DepotId) (manifestId : ManifestId) :
    (shaName depotId manifestId).toList = entryChars depotId manifestId ".sha".toList := by
  simp [shaName, entryChars]

/-- The underscore separates the numbers, so the name gives them back. -/
theorem entryChars_inj {extension : List Char} (hextension : '_' ∉ extension)
    (heq : entryChars depotId manifestId extension = entryChars depotId' manifestId' extension) :
    depotId = depotId' ∧ manifestId = manifestId' := by
  have hrest : '_' ∉ Nat.toDigits 10 manifestId.id.toNat ++ extension := by
    simp [hextension]
  have hrest' : '_' ∉ Nat.toDigits 10 manifestId'.id.toNat ++ extension := by
    simp [hextension]
  obtain ⟨hdepot, _, hmanifest⟩ := (List.append_cons_inj_of_notMem
    Nat.underscore_not_in_toDigits hrest').mp heq.symm
  have hmanifest := List.append_cancel_right hmanifest
  constructor
  · have := UInt32.toNat_inj.mp (toDigits_injective hdepot)
    cases depotId
    cases depotId'
    simp_all
  · have := UInt64.toNat_inj.mp (toDigits_injective hmanifest)
    cases manifestId
    cases manifestId'
    simp_all

theorem manifestName_inj
    (heq : manifestName depotId manifestId = manifestName depotId' manifestId') :
    depotId = depotId' ∧ manifestId = manifestId' := by
  apply entryChars_inj (by decide : '_' ∉ ".manifest".toList)
  rw [← toList_manifestName, ← toList_manifestName, heq]

theorem shaName_inj (heq : shaName depotId manifestId = shaName depotId' manifestId') :
    depotId = depotId' ∧ manifestId = manifestId' := by
  apply entryChars_inj (by decide : '_' ∉ ".sha".toList)
  rw [← toList_shaName, ← toList_shaName, heq]

theorem getLast?_entryChars (depotId : DepotId) (manifestId : ManifestId)
    {extension : List Char} {last : Char} (hlast : extension.getLast? = some last) :
    (entryChars depotId manifestId extension).getLast? = some last := by
  have hsplit : entryChars depotId manifestId extension =
      (Nat.toDigits 10 depotId.id.toNat ++ '_' :: Nat.toDigits 10 manifestId.id.toNat) ++
        extension := by
    simp [entryChars]
  rw [hsplit, List.getLast?_append, hlast]
  rfl

theorem manifestName_ne_shaName :
    manifestName depotId manifestId ≠ shaName depotId' manifestId' := by
  intro heq
  have hmanifest := getLast?_entryChars depotId manifestId
    (by decide : ".manifest".toList.getLast? = some 't')
  have hsha := getLast?_entryChars depotId' manifestId'
    (by decide : ".sha".toList.getLast? = some 'a')
  rw [← toList_manifestName, heq, toList_shaName, hsha] at hmanifest
  exact absurd hmanifest (by decide)

theorem noSlash_entryChars (depotId : DepotId) (manifestId : ManifestId) {extension : List Char}
    (hextension : '/' ∉ extension) : '/' ∉ entryChars depotId manifestId extension := by
  simp [entryChars, noSlash_toDigits, hextension]

theorem segments_manifestName (depotId : DepotId) (manifestId : ManifestId) :
    segments (manifestName depotId manifestId) = [manifestName depotId manifestId] := by
  apply segments_of_noSlash
  rw [toList_manifestName]
  exact noSlash_entryChars _ _ (by decide)

theorem segments_shaName (depotId : DepotId) (manifestId : ManifestId) :
    segments (shaName depotId manifestId) = [shaName depotId manifestId] := by
  apply segments_of_noSlash
  rw [toList_shaName]
  exact noSlash_entryChars _ _ (by decide)

theorem canonical_manifestName (depotId : DepotId) (manifestId : ManifestId) :
    Canonical (manifestName depotId manifestId) := by
  apply canonical_of_underscore <;> rw [toList_manifestName]
  · exact noSlash_entryChars _ _ (by decide)
  · simp [entryChars]

theorem canonical_shaName (depotId : DepotId) (manifestId : ManifestId) :
    Canonical (shaName depotId manifestId) := by
  apply canonical_of_underscore <;> rw [toList_shaName]
  · exact noSlash_entryChars _ _ (by decide)
  · simp [entryChars]

/-- A cached manifest is loaded when its checksum is the one beside it. -/
theorem load_iff {cache : ManifestCache} {store : StoreCodecs} {workingDir : Place} {disk : Disk}
    {manifest : DepotManifest} :
    cache.load store workingDir disk depotId manifestId = some manifest ↔
      ∃ data sha text,
        disk.read ((cache.manifestPath depotId manifestId).resolve workingDir) = some data ∧
        disk.read ((cache.shaPath depotId manifestId).resolve workingDir) = some sha ∧
        decodeUtf8 sha = some text ∧ shaText (store.sha1 data) = trim text ∧
        store.parse data = .ok manifest := by
  unfold load
  constructor
  · intro hload
    split at hload
    next data sha hdata hsha =>
      split at hload
      next => cases hload
      next text htext =>
        split at hload
        next => cases hload
        next hmatch =>
          refine ⟨data, sha, text, hdata, hsha, htext, not_not.mp hmatch, ?_⟩
          cases hparse : store.parse data with
          | error error => simp [hparse, Except.toOption] at hload
          | ok parsed => simpa [hparse, Except.toOption] using hload
    next => cases hload
  · rintro ⟨data, sha, text, hdata, hsha, htext, hmatch, hparse⟩
    simp [hdata, hsha, htext, hmatch, hparse, Except.toOption]

end ManifestCache

/-- The directory that the store of a base directory lies in. -/
def storePlace (workingDir : Place) (base : Path) : Place :=
  base.resolve workingDir ++ [".depotdownloader"]

section Places

variable (workingDir : Place) (base : Path)

theorem resolve_store :
    (base.join (.ofString ".depotdownloader")).resolve workingDir = storePlace workingDir base :=
  (by decide : Canonical ".depotdownloader").resolve_join _ _

theorem resolve_configPath :
    (DepotConfig.pathFor base).resolve workingDir =
      storePlace workingDir base ++ ["depot.json"] := by
  rw [DepotConfig.pathFor, (by decide : Canonical "depot.json").resolve_join, resolve_store]
  rfl

theorem resolve_cacheDir :
    (ManifestCache.defaultFor base).cacheDir.resolve workingDir =
      storePlace workingDir base ++ ["manifests"] := by
  rw [ManifestCache.defaultFor, (by decide : Canonical "manifests").resolve_join, resolve_store]
  rfl

theorem resolve_manifestPath (depotId : DepotId) (manifestId : ManifestId) :
    ((ManifestCache.defaultFor base).manifestPath depotId manifestId).resolve workingDir =
      storePlace workingDir base ++
        ["manifests", ManifestCache.manifestName depotId manifestId] := by
  have hcanonical := ManifestCache.canonical_manifestName depotId manifestId
  rw [ManifestCache.manifestPath, hcanonical.resolve_join, resolve_cacheDir,
    ManifestCache.segments_manifestName, List.append_assoc]
  rfl

theorem resolve_shaPath (depotId : DepotId) (manifestId : ManifestId) :
    ((ManifestCache.defaultFor base).shaPath depotId manifestId).resolve workingDir =
      storePlace workingDir base ++ ["manifests", ManifestCache.shaName depotId manifestId] := by
  rw [ManifestCache.shaPath, (ManifestCache.canonical_shaName depotId manifestId).resolve_join,
    resolve_cacheDir, ManifestCache.segments_shaName, List.append_assoc]
  rfl

end Places

/-- The place lies in some store. -/
def Stored (place : Place) : Prop := ".depotdownloader" ∈ place

theorem stored_storePlace (workingDir : Place) (base : Path) (rest : List String) :
    Stored (storePlace workingDir base ++ rest) := by
  simp [Stored, storePlace]

theorem configPlace_ne_cachePlace {workingDir : Place} {base base' : Path} {name : String}
    (hname : name ≠ "depot.json") :
    storePlace workingDir base ++ ["depot.json"] ≠
      storePlace workingDir base' ++ ["manifests", name] := by
  intro heq
  have hlast := congrArg List.getLast? heq
  simp only [List.getLast?_append, List.getLast?_singleton, Option.some_or, List.getLast?_cons_cons,
    Option.some.injEq] at hlast
  exact hname hlast.symm

end DepotDownloader.SteamClient
