import DepotDownloader.Foundation.LenientStore
import DepotDownloader.SteamClient.Download.Job

/-! # Cached manifests and the record of installed manifests

Both live below `.depotdownloader` in the directory of a download: raw manifests
beside their SHA-1, and `depot.json`, which remembers the manifest installed for
each depot. Parsing, hashing and JSON are parameters.
-/

namespace DepotDownloader.SteamClient

open Foundation Foundation.LexPath Steam

/-- Tracks which manifest ID is currently installed per depot. A later entry for
a depot is found before an earlier one. -/
structure DepotConfig where
  installedManifests : List (DepotId × ManifestId) := []
  deriving DecidableEq, Repr

namespace DepotConfig

def getInstalled (config : DepotConfig) (depotId : DepotId) : Option ManifestId :=
  config.installedManifests.lookup depotId

def setInstalled (config : DepotConfig) (depotId : DepotId) (manifestId : ManifestId) :
    DepotConfig where
  installedManifests := (depotId, manifestId) ::
    config.installedManifests.filter fun entry => entry.1 ≠ depotId

@[simp] theorem getInstalled_setInstalled_self (config : DepotConfig) (depotId : DepotId)
    (manifestId : ManifestId) :
    (config.setInstalled depotId manifestId).getInstalled depotId = some manifestId := by
  simp [getInstalled, setInstalled]

theorem getInstalled_setInstalled_of_ne (config : DepotConfig) {depotId other : DepotId}
    (manifestId : ManifestId) (hne : other ≠ depotId) :
    (config.setInstalled depotId manifestId).getInstalled other = config.getInstalled other := by
  have hother : (other == depotId) = false := beq_eq_false_iff_ne.mpr hne
  simp only [getInstalled, setInstalled, List.lookup_cons, hother, lookup_filter_of_ne hne]

end DepotConfig

/-- The libraries behind the stored files, and the manifest parser. Reading back
a config that was written gives the same record, and the text of an object that
lost its end is no JSON. -/
structure StoreCodecs where
  codecs : Codecs
  base64Decode : String → Option Bytes
  sha1 : Bytes → Vector UInt8 20
  parse : Bytes → Except ManifestError DepotManifest
  configToJson : DepotConfig → Bytes
  configFromJson : Bytes → Option DepotConfig
  configFromJson_toJson : ∀ config, ∃ config', configFromJson (configToJson config) = some config' ∧
    ∀ depotId, config'.getInstalled depotId = config.getInstalled depotId
  configFromJson_cut : ∀ config written, written < (configToJson config).length →
    configFromJson ((configToJson config).take written) = none

/-- `std::fs::write`: truncate, then write. -/
def writeFile (disk : Disk) (place : Place) (bytes : Bytes) (fault : Option WriteFault) : Disk :=
  match fault with
  | some .unopened => disk
  | some (.cut written) =>
      (disk.openTruncate place).1.store (disk.openTruncate place).2 (bytes.take written)
  | none => (disk.openTruncate place).1.store (disk.openTruncate place).2 bytes

/-- Extract the first file from a ZIP archive. -/
def extractZip (store : StoreCodecs) (data : Bytes) : Except ManifestError Bytes :=
  match store.codecs.zipFirst data with
  | .notAnArchive => .error (.missingSection "zip archive")
  | .emptyArchive => .error (.missingSection "empty zip archive")
  | .badEntry => .error (.missingSection "zip entry")
  | .unreadable => .error (.missingSection "zip read failed")
  | .entry bytes => .ok bytes

/-- Extract a manifest from the CDN response and parse it. -/
def extractAndParse (store : StoreCodecs) (data : Bytes) : Except ManifestError DepotManifest :=
  match extractZip store data with
  | .error error => .error error
  | .ok raw => store.parse raw

/-- The lowercase hexadecimal digits of a hash. -/
def shaText (sha : Vector UInt8 20) : List Char :=
  sha.toList.flatMap fun byte => [(byte.toNat / 16).digitChar, (byte.toNat % 16).digitChar]

/-- Text that is valid UTF-8. -/
def decodeUtf8 (bytes : Bytes) : Option (List Char) :=
  let chars := fromUtf8Lossy bytes
  if chars.flatMap String.utf8EncodeChar = bytes then some chars else none

/-- Cache directory for storing downloaded manifests. -/
structure ManifestCache where
  cacheDir : Path

/-- What can go wrong in a save: the directory, and each of the two writes. -/
inductive SaveFault where
  | directory
  | manifest (fault : WriteFault)
  | sha (fault : WriteFault)
  deriving DecidableEq, Repr

namespace ManifestCache

/-- Default cache location: `.depotdownloader/manifests/`. -/
def defaultFor (installDir : Path) : ManifestCache :=
  ⟨(installDir.join (.ofString ".depotdownloader")).join (.ofString "manifests")⟩

def manifestName (depotId : DepotId) (manifestId : ManifestId) : String :=
  toString depotId.id.toNat ++ "_" ++ toString manifestId.id.toNat ++ ".manifest"

def shaName (depotId : DepotId) (manifestId : ManifestId) : String :=
  toString depotId.id.toNat ++ "_" ++ toString manifestId.id.toNat ++ ".sha"

variable (cache : ManifestCache) (store : StoreCodecs) (workingDir : Place)

def manifestPath (depotId : DepotId) (manifestId : ManifestId) : Path :=
  cache.cacheDir.join (.ofString (manifestName depotId manifestId))

def shaPath (depotId : DepotId) (manifestId : ManifestId) : Path :=
  cache.cacheDir.join (.ofString (shaName depotId manifestId))

/-- Load a cached manifest. Nothing is loaded without the right checksum. -/
def load (disk : Disk) (depotId : DepotId) (manifestId : ManifestId) : Option DepotManifest :=
  match disk.read ((cache.manifestPath depotId manifestId).resolve workingDir),
      disk.read ((cache.shaPath depotId manifestId).resolve workingDir) with
  | some data, some stored =>
      match decodeUtf8 stored with
      | none => none
      | some storedSha =>
          if shaText (store.sha1 data) ≠ trim storedSha then none
          else (store.parse data).toOption
  | _, _ => none

/-- Save a manifest to the cache: the raw manifest, not the archive. -/
def save (disk : Disk) (depotId : DepotId) (manifestId : ManifestId) (rawData : Bytes)
    (fault : Option SaveFault) : Disk :=
  if fault = some .directory then disk
  else
    match extractZip store rawData with
    | .error _ => disk
    | .ok manifestBytes =>
        let manifestPlace := (cache.manifestPath depotId manifestId).resolve workingDir
        let shaPlace := (cache.shaPath depotId manifestId).resolve workingDir
        let sha := (shaText (store.sha1 manifestBytes)).flatMap String.utf8EncodeChar
        match fault with
        | some (.manifest fault) => writeFile disk manifestPlace manifestBytes (some fault)
        | some (.sha fault) =>
            writeFile (writeFile disk manifestPlace manifestBytes none) shaPlace sha (some fault)
        | _ => writeFile (writeFile disk manifestPlace manifestBytes none) shaPlace sha none

end ManifestCache

namespace DepotConfig

def pathFor (installDir : Path) : Path :=
  (installDir.join (.ofString ".depotdownloader")).join (.ofString "depot.json")

variable (store : StoreCodecs) (workingDir : Place)

/-- A missing or unreadable config counts as empty. -/
def load (disk : Disk) (path : Path) : DepotConfig :=
  match disk.read (path.resolve workingDir) with
  | none => {}
  | some json => (store.configFromJson json).getD {}

def save (config : DepotConfig) (disk : Disk) (path : Path) (fault : Option WriteFault) : Disk :=
  writeFile disk (path.resolve workingDir) (store.configToJson config) fault

end DepotConfig

end DepotDownloader.SteamClient
