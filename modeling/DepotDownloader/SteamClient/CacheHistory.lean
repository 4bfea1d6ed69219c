import DepotDownloader.Foundation.TableCodec
import DepotDownloader.Steam.Depot.ManifestParse
import DepotDownloader.SteamClient.ShaText
import DepotDownloader.SteamClient.StorePlaces
import Mathlib.Tactic.DeriveEncodable

/-! # The cache over any sequence of saves

Every save writes two files and may stop anywhere in either of them. What the two
files of an entry hold afterwards are beginnings of what saves for that entry wrote,
so a manifest with the right checksum is a whole one that a save was given.
-/

namespace DepotDownloader.SteamClient

open Foundation Foundation.LexPath Steam

/-- One call of `ManifestCache::save`. -/
structure SaveCall where
  depotId : DepotId
  manifestId : ManifestId
  rawData : Bytes
  fault : Option SaveFault

/-- The raw manifest is in an archive that some save was given for the entry. -/
def GivenFor (store : StoreCodecs) (calls : List SaveCall) (depotId : DepotId)
    (manifestId : ManifestId) (raw : Bytes) : Prop :=
  ∃ call ∈ calls, call.depotId = depotId ∧ call.manifestId = manifestId ∧
    extractZip store call.rawData = .ok raw

/-- The beginnings of the raw manifests that saves were given. -/
def involved (store : StoreCodecs) (calls : List SaveCall) : Set Bytes :=
  {data | ∃ depotId manifestId raw, GivenFor store calls depotId manifestId raw ∧ data <+: raw}

/-- A write leaves the file as it was, or with a beginning of what was written. -/
theorem read_writeFile_prefix {disk : Disk} {place : Place} {bytes data : Bytes}
    {fault : Option WriteFault}
    (hread : (writeFile disk place bytes fault).read place = some data) :
    disk.read place = some data ∨ data <+: bytes := by
  cases fault with
  | none =>
      rw [read_writeFile, Option.some.injEq] at hread
      exact .inr (hread ▸ List.prefix_rfl)
  | some fault =>
      cases fault with
      | unopened => exact .inl hread
      | cut written =>
          rw [read_writeFile_cut, Option.some.injEq] at hread
          exact .inr (hread ▸ List.take_prefix _ _)

namespace ManifestCache

variable (cache : ManifestCache) (store : StoreCodecs) (workingDir : Place)

/-- The saves, one after the other. -/
def saveAll (calls : List SaveCall) (disk : Disk) : Disk :=
  calls.foldl (fun disk call =>
    cache.save store workingDir disk call.depotId call.manifestId call.rawData call.fault) disk

/-- Where the cache keeps a file. -/
def filePlace (name : String) : Place := cache.cacheDir.resolve workingDir ++ [name]

section Places

variable {cache workingDir} in
theorem filePlace_inj {name name' : String}
    (heq : cache.filePlace workingDir name = cache.filePlace workingDir name') : name = name' := by
  simpa [filePlace] using heq

variable (depotId depotId' : DepotId) (manifestId manifestId' : ManifestId)

theorem resolve_manifest :
    (cache.manifestPath depotId manifestId).resolve workingDir =
      cache.filePlace workingDir (manifestName depotId manifestId) := by
  rw [manifestPath, (canonical_manifestName depotId manifestId).resolve_join,
    segments_manifestName]
  rfl

theorem resolve_sha :
    (cache.shaPath depotId manifestId).resolve workingDir =
      cache.filePlace workingDir (shaName depotId manifestId) := by
  rw [shaPath, (canonical_shaName depotId manifestId).resolve_join, segments_shaName]
  rfl

theorem manifest_ne_sha :
    cache.filePlace workingDir (manifestName depotId manifestId) ≠
      cache.filePlace workingDir (shaName depotId' manifestId') :=
  fun heq => manifestName_ne_shaName (filePlace_inj heq)

end Places

variable {cache store workingDir} {calls : List SaveCall} {disk : Disk} {depotId : DepotId}
  {manifestId : ManifestId}

/-- The two files of an entry hold beginnings of what saves for it wrote. -/
structure Kept (cache : ManifestCache) (store : StoreCodecs) (workingDir : Place)
    (calls : List SaveCall) (disk : Disk) (depotId : DepotId) (manifestId : ManifestId) : Prop where
  manifest : ∀ data,
    disk.read (cache.filePlace workingDir (manifestName depotId manifestId)) = some data →
      ∃ raw, GivenFor store calls depotId manifestId raw ∧ data <+: raw
  sha : ∀ text, disk.read (cache.filePlace workingDir (shaName depotId manifestId)) = some text →
    ∃ raw, GivenFor store calls depotId manifestId raw ∧ text <+: shaBytes (store.sha1 raw)

theorem Kept.manifest_write {raw : Bytes} {depotId' : DepotId} {manifestId' : ManifestId}
    {fault : Option WriteFault} (hgiven : GivenFor store calls depotId' manifestId' raw)
    (hkept : Kept cache store workingDir calls disk depotId manifestId) :
    Kept cache store workingDir calls
      (writeFile disk (cache.filePlace workingDir (manifestName depotId' manifestId')) raw fault)
      depotId manifestId where
  manifest data hread := by
    by_cases hplace : cache.filePlace workingDir (manifestName depotId manifestId) =
        cache.filePlace workingDir (manifestName depotId' manifestId')
    · obtain ⟨hdepot, hid⟩ := manifestName_inj (filePlace_inj hplace)
      rw [hplace] at hread
      rcases read_writeFile_prefix hread with hbefore | hlead
      · exact hkept.manifest data (hplace ▸ hbefore)
      · exact ⟨raw, hdepot ▸ hid ▸ hgiven, hlead⟩
    · rw [read_writeFile_of_ne hplace] at hread
      exact hkept.manifest data hread
  sha text hread := by
    rw [read_writeFile_of_ne (manifest_ne_sha _ _ _ _ _ _).symm] at hread
    exact hkept.sha text hread

theorem Kept.sha_write {raw : Bytes} {depotId' : DepotId} {manifestId' : ManifestId}
    {fault : Option WriteFault} (hgiven : GivenFor store calls depotId' manifestId' raw)
    (hkept : Kept cache store workingDir calls disk depotId manifestId) :
    Kept cache store workingDir calls
      (writeFile disk (cache.filePlace workingDir (shaName depotId' manifestId'))
        (shaBytes (store.sha1 raw)) fault)
      depotId manifestId where
  manifest data hread := by
    rw [read_writeFile_of_ne (manifest_ne_sha _ _ _ _ _ _)] at hread
    exact hkept.manifest data hread
  sha text hread := by
    by_cases hplace : cache.filePlace workingDir (shaName depotId manifestId) =
        cache.filePlace workingDir (shaName depotId' manifestId')
    · obtain ⟨hdepot, hid⟩ := shaName_inj (filePlace_inj hplace)
      rw [hplace] at hread
      rcases read_writeFile_prefix hread with hbefore | hlead
      · exact hkept.sha text (hplace ▸ hbefore)
      · exact ⟨raw, hdepot ▸ hid ▸ hgiven, hlead⟩
    · rw [read_writeFile_of_ne hplace] at hread
      exact hkept.sha text hread

/-- Wherever a save stops, both files of every entry hold beginnings. -/
theorem Kept.save {call : SaveCall} (hmem : call ∈ calls)
    (hkept : Kept cache store workingDir calls disk depotId manifestId) :
    Kept cache store workingDir calls
      (cache.save store workingDir disk call.depotId call.manifestId call.rawData call.fault)
      depotId manifestId := by
  unfold ManifestCache.save
  split
  next => exact hkept
  next =>
    split
    next => exact hkept
    next raw hextract =>
      have hgiven : GivenFor store calls call.depotId call.manifestId raw :=
        ⟨call, hmem, rfl, rfl, hextract⟩
      have hsha : (shaText (store.sha1 raw)).flatMap String.utf8EncodeChar =
          shaBytes (store.sha1 raw) := rfl
      simp only [resolve_manifest, resolve_sha, hsha]
      split
      · exact hkept.manifest_write hgiven
      · exact (hkept.manifest_write hgiven).sha_write hgiven
      · exact (hkept.manifest_write hgiven).sha_write hgiven

theorem Kept.saveAll {rest : List SaveCall} (hrest : ∀ call ∈ rest, call ∈ calls)
    (hkept : Kept cache store workingDir calls disk depotId manifestId) :
    Kept cache store workingDir calls (cache.saveAll store workingDir rest disk) depotId
      manifestId := by
  induction rest generalizing disk with
  | nil => exact hkept
  | cons call rest ih =>
      apply ih fun other hmem => hrest other (List.mem_cons_of_mem _ hmem)
      exact hkept.save (hrest call List.mem_cons_self)

/-- Only a whole checksum is accepted, and then the manifest file is whole too. -/
theorem Kept.load {manifest : DepotManifest}
    (hinjective : Set.InjOn store.sha1 (involved store calls))
    (hkept : Kept cache store workingDir calls disk depotId manifestId)
    (hload : cache.load store workingDir disk depotId manifestId = some manifest) :
    ∃ raw, GivenFor store calls depotId manifestId raw ∧ store.parse raw = .ok manifest := by
  obtain ⟨data, stored, text, hdata, hstored, htext, hmatch, hparse⟩ := load_iff.mp hload
  rw [resolve_manifest] at hdata
  rw [resolve_sha] at hstored
  obtain ⟨raw, hraw, hlead⟩ := hkept.manifest data hdata
  obtain ⟨raw', hraw', hsha⟩ := hkept.sha stored hstored
  -- forty characters take forty bytes, so the checksum was written to its end
  have hlong : 40 ≤ stored.length := by
    have htrim := length_trim_le text
    have hbytes := length_le_of_decodeUtf8 htext
    rw [← hmatch, length_shaText] at htrim
    omega
  have hwhole : stored = shaBytes (store.sha1 raw') :=
    hsha.eq_of_length_le (by rw [length_shaBytes]; exact hlong)
  have hsame : text = shaText (store.sha1 raw') := by
    apply encodeUtf8_injective
    rw [decodeUtf8_eq_some htext, hwhole]
    rfl
  rw [hsame, trim_shaText] at hmatch
  have heq := hinjective ⟨_, _, raw, hraw, hlead⟩ ⟨_, _, raw', hraw', List.prefix_rfl⟩
    (shaText_injective hmatch)
  exact ⟨raw', hraw', heq ▸ hparse⟩

/-- A save for another entry leaves both files of this one alone. -/
theorem save_read_other (cache : ManifestCache) (store : StoreCodecs) (workingDir : Place)
    {call : SaveCall} (hother : ¬(call.depotId = depotId ∧ call.manifestId = manifestId))
    (disk : Disk) :
    (cache.save store workingDir disk call.depotId call.manifestId call.rawData call.fault).read
        (cache.filePlace workingDir (manifestName depotId manifestId)) =
          disk.read (cache.filePlace workingDir (manifestName depotId manifestId)) ∧
      (cache.save store workingDir disk call.depotId call.manifestId call.rawData call.fault).read
        (cache.filePlace workingDir (shaName depotId manifestId)) =
          disk.read (cache.filePlace workingDir (shaName depotId manifestId)) := by
  have hmanifest : cache.filePlace workingDir (manifestName depotId manifestId) ≠
      cache.filePlace workingDir (manifestName call.depotId call.manifestId) := by
    intro heq
    obtain ⟨hdepot, hid⟩ := manifestName_inj (filePlace_inj heq)
    exact hother ⟨hdepot.symm, hid.symm⟩
  have hsha : cache.filePlace workingDir (shaName depotId manifestId) ≠
      cache.filePlace workingDir (shaName call.depotId call.manifestId) := by
    intro heq
    obtain ⟨hdepot, hid⟩ := shaName_inj (filePlace_inj heq)
    exact hother ⟨hdepot.symm, hid.symm⟩
  have hcross := manifest_ne_sha cache workingDir depotId call.depotId manifestId call.manifestId
  have hcross' := manifest_ne_sha cache workingDir call.depotId depotId call.manifestId manifestId
  unfold ManifestCache.save
  split
  next => exact ⟨rfl, rfl⟩
  next =>
    split
    next => exact ⟨rfl, rfl⟩
    next =>
      simp only [resolve_manifest, resolve_sha]
      split <;> simp [read_writeFile_of_ne, hmanifest, hsha, hcross, hcross'.symm]

/-- Loading only looks at the two files of the entry. -/
theorem load_of_read {disk' : Disk}
    (hmanifest : disk'.read (cache.filePlace workingDir (manifestName depotId manifestId)) =
      disk.read (cache.filePlace workingDir (manifestName depotId manifestId)))
    (hsha : disk'.read (cache.filePlace workingDir (shaName depotId manifestId)) =
      disk.read (cache.filePlace workingDir (shaName depotId manifestId))) :
    cache.load store workingDir disk' depotId manifestId =
      cache.load store workingDir disk depotId manifestId := by
  unfold ManifestCache.load
  rw [resolve_manifest, resolve_sha, hmanifest, hsha]

theorem load_saveAll_other {rest : List SaveCall}
    (hother : ∀ call ∈ rest, ¬(call.depotId = depotId ∧ call.manifestId = manifestId)) :
    cache.load store workingDir (cache.saveAll store workingDir rest disk) depotId manifestId =
      cache.load store workingDir disk depotId manifestId := by
  induction rest generalizing disk with
  | nil => rfl
  | cons call rest ih =>
      obtain ⟨hmanifest, hsha⟩ :=
        save_read_other cache store workingDir (hother call List.mem_cons_self) disk
      exact (ih fun other hmem => hother other (List.mem_cons_of_mem _ hmem)).trans
        (load_of_read hmanifest hsha)

/-- A save that completes is loaded. -/
theorem load_save {rawData raw : Bytes} {manifest : DepotManifest}
    (hextract : extractZip store rawData = .ok raw) (hparse : store.parse raw = .ok manifest) :
    cache.load store workingDir
        (cache.save store workingDir disk depotId manifestId rawData none) depotId manifestId =
      some manifest := by
  have hsha : (shaText (store.sha1 raw)).flatMap String.utf8EncodeChar =
      shaBytes (store.sha1 raw) := rfl
  have hdecode : decodeUtf8 (shaBytes (store.sha1 raw)) = some (shaText (store.sha1 raw)) :=
    decodeUtf8_shaBytes _
  unfold ManifestCache.save
  rw [if_neg (by simp)]
  simp only [hextract, resolve_manifest, resolve_sha, hsha]
  unfold ManifestCache.load
  rw [resolve_manifest, resolve_sha, read_writeFile,
    read_writeFile_of_ne (manifest_ne_sha _ _ _ _ _ _), read_writeFile]
  simp [hdecode, trim_shaText, hparse, Except.toOption]

/-- The cache never serves wrong data: after any saves, each of which may have
stopped anywhere, what is loaded for an entry is parsed from a whole raw manifest
that a save for that entry was given, and the last save for an entry, when it
completed, is what is loaded. -/
theorem load_safe (cache : ManifestCache) (store : StoreCodecs) (workingDir : Place)
    (calls : List SaveCall) (disk : Disk)
    (hfresh : ∀ name, disk.read (cache.filePlace workingDir name) = none)
    (hinjective : Set.InjOn store.sha1 (involved store calls)) :
    (∀ depotId manifestId manifest,
      cache.load store workingDir (cache.saveAll store workingDir calls disk) depotId manifestId =
          some manifest →
        ∃ raw, GivenFor store calls depotId manifestId raw ∧ store.parse raw = .ok manifest) ∧
    ∀ before call after raw manifest, calls = before ++ call :: after → call.fault = none →
      extractZip store call.rawData = .ok raw → store.parse raw = .ok manifest →
      (∀ other ∈ after, ¬(other.depotId = call.depotId ∧ other.manifestId = call.manifestId)) →
        cache.load store workingDir (cache.saveAll store workingDir calls disk) call.depotId
          call.manifestId = some manifest := by
  constructor
  · intro depotId manifestId manifest hload
    have hkept : Kept cache store workingDir calls disk depotId manifestId :=
      ⟨fun data hread => by simp [hfresh] at hread, fun text hread => by simp [hfresh] at hread⟩
    exact (hkept.saveAll fun _ hmem => hmem).load hinjective hload
  · intro before call after raw manifest hcalls hfault hextract hparse hafter
    rw [hcalls, saveAll, List.foldl_append, List.foldl_cons]
    exact (load_saveAll_other hafter).trans (hfault ▸ load_save hextract hparse)

end ManifestCache

section Sample

/-- A manifest without files, in its v5 layout. -/
def emptyRaw : Bytes :=
  [208, 23, 246, 113, 0, 0, 0, 0, 190, 18, 72, 31, 0, 0, 0, 0, 171, 21, 196, 50]

/-- A ZIP archive that stores it. -/
def emptyArchive : Bytes :=
  [80, 75, 3, 4, 20, 0, 0, 0, 0, 0, 0, 0, 33, 0, 254, 42, 156, 16, 20, 0, 0, 0, 20, 0, 0, 0, 1, 0,
    0, 0, 122, 208, 23, 246, 113, 0, 0, 0, 0, 190, 18, 72, 31, 0, 0, 0, 0, 171, 21, 196, 50, 80,
    75, 1, 2, 20, 3, 20, 0, 0, 0, 0, 0, 0, 0, 33, 0, 254, 42, 156, 16, 20, 0, 0, 0, 20, 0, 0, 0, 1,
    0, 0, 0, 0, 0, 0, 0, 0, 0, 0, 0, 128, 1, 0, 0, 0, 0, 122, 80, 75, 5, 6, 0, 0, 0, 0, 1, 0, 1, 0,
    47, 0, 0, 0, 51, 0, 0, 0, 0, 0]

/-- SHA-1 on that manifest, and different values on its proper beginnings. -/
def emptySha (data : Bytes) : Vector UInt8 20 :=
  if data = emptyRaw then
    #v[4, 254, 255, 124, 19, 184, 223, 132, 229, 123, 238, 98, 19, 162, 106, 192, 216, 163, 91, 97]
  else .replicate 20 (UInt8.ofNat data.length)

/-- The manifest sections without fields. -/
def emptySections : SectionCodecs where
  decodePayload data := if data = [] then some ⟨[]⟩ else none
  decodeMetadata data :=
    if data = [] then some ⟨none, none, none, none, none, none, none, none, none⟩ else none
  decodeSignature data := if data = [] then some ⟨none⟩ else none

deriving instance Encodable for DepotId, ManifestId, DepotConfig

/-- The text of a config without manifests. -/
def emptyConfig : List (DepotConfig × Bytes) :=
  [({}, encodeUtf8 "\x7b\n  \"installed_manifests\": \x7b\x7d\n\x7d".toList)]

theorem apart_emptyConfig : TableCodec.Apart emptyConfig := TableCodec.apart_single (by decide)

def emptyStore : StoreCodecs where
  codecs :=
    { aes := fun _ _ => []
      zstdDecodeAll := fun _ => none
      lzmaDecompress := fun _ => none
      zipFirst := fun data => if data = emptyArchive then .entry emptyRaw else .notAnArchive }
  base64Decode _ := none
  sha1 := emptySha
  parse := DepotManifest.parse emptySections
  configToJson := TableCodec.encode emptyConfig
  configFromJson := TableCodec.decode emptyConfig
  configFromJson_toJson config :=
    ⟨config, TableCodec.decode_encode apart_emptyConfig config, fun _ => rfl⟩
  configFromJson_cut config _ hcut := TableCodec.decode_cut apart_emptyConfig config hcut

/-- The saves of two manifests; the second one stops in its first write. -/
def emptyCalls : List SaveCall :=
  [⟨⟨1⟩, ⟨2⟩, emptyArchive, none⟩, ⟨⟨1⟩, ⟨3⟩, emptyArchive, some (.manifest (.cut 5))⟩]

theorem injOn_emptySha : Set.InjOn emptyStore.sha1 (involved emptyStore emptyCalls) := by
  have hlead : ∀ data ∈ involved emptyStore emptyCalls, data <+: emptyRaw := by
    rintro data ⟨_, _, raw, ⟨call, hmem, _, _, hextract⟩, hlead⟩
    have hraw : extractZip emptyStore emptyArchive = .ok emptyRaw := by
      simp [extractZip, emptyStore]
    have harchive : call.rawData = emptyArchive := by
      simp only [emptyCalls, List.mem_cons, List.not_mem_nil, or_false] at hmem
      rcases hmem with rfl | rfl <;> rfl
    rw [harchive, hraw] at hextract
    cases hextract
    exact hlead
  have hlengths : ∀ length < 21, ∀ length' < 21,
      emptySha (emptyRaw.take length) = emptySha (emptyRaw.take length') → length = length' := by
    decide
  intro data hdata data' hdata' heq
  have hdata := hlead data hdata
  have hdata' := hlead data' hdata'
  have hsame := hlengths data.length (Nat.lt_succ_of_le hdata.length_le) data'.length
    (Nat.lt_succ_of_le hdata'.length_le) (by
      rw [← List.prefix_iff_eq_take.mp hdata, ← List.prefix_iff_eq_take.mp hdata']
      exact heq)
  rw [List.prefix_iff_eq_take.mp hdata, List.prefix_iff_eq_take.mp hdata', hsame]

theorem load_safe_sample :
    (ManifestCache.mk (.ofString "cache")).load emptyStore ["home"]
        ((ManifestCache.mk (.ofString "cache")).saveAll emptyStore ["home"] emptyCalls .empty)
        ⟨1⟩ ⟨2⟩ =
      some ⟨none, none, none, false, none, none, []⟩ :=
  (ManifestCache.load_safe ⟨.ofString "cache"⟩ emptyStore ["home"] emptyCalls .empty
    (fun _ => rfl) injOn_emptySha).2 [] ⟨⟨1⟩, ⟨2⟩, emptyArchive, none⟩
    [⟨⟨1⟩, ⟨3⟩, emptyArchive, some (.manifest (.cut 5))⟩] emptyRaw _ rfl rfl
    (by simp [extractZip, emptyStore]) (by decide) (by decide)

end Sample

end DepotDownloader.SteamClient
