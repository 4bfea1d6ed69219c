import DepotDownloader.SteamClient.ShaText
import DepotDownloader.SteamClient.StorePlaces

/-! # What saving changes

A save of a manifest writes the two files of its entry, a save of a config writes the
config, and nothing outside the stores changes. A config that was saved is read back.
-/

namespace DepotDownloader.SteamClient

open Foundation Foundation.LexPath Steam

variable {store : StoreCodecs} {workingDir : Place} {disk disk' : Disk} {base : Path}

/-- A write into a store changes nothing outside the stores. -/
theorem writeFile_stored (disk : Disk) (workingDir : Place) (base : Path) (rest : List String)
    (bytes : Bytes) (fault : Option WriteFault) :
    FileTree.ChangesOnly Stored disk
      (writeFile disk (storePlace workingDir base ++ rest) bytes fault) := by
  apply (writeFile_changesOnly disk (storePlace workingDir base ++ rest) bytes fault).mono
  intro place heq
  rw [heq]
  exact stored_storePlace workingDir base rest

namespace ManifestCache

variable {depotId : DepotId} {manifestId : ManifestId}

/-- The writes of a save. -/
inductive Saves (store : StoreCodecs) (workingDir : Place) (base : Path) (depotId : DepotId)
    (manifestId : ManifestId) (rawData : Bytes) (disk : Disk) : Disk → Prop where
  | nothing : Saves store workingDir base depotId manifestId rawData disk disk
  | cut {bytes : Bytes} {written : Nat} :
      Saves store workingDir base depotId manifestId rawData disk
        (writeFile disk
          (storePlace workingDir base ++ ["manifests", manifestName depotId manifestId]) bytes
          (some (.cut written)))
  | written {manifestBytes : Bytes} {shaFault : Option WriteFault}
      (hextract : extractZip store rawData = .ok manifestBytes) :
      Saves store workingDir base depotId manifestId rawData disk
        (writeFile
          (writeFile disk
            (storePlace workingDir base ++ ["manifests", manifestName depotId manifestId])
            manifestBytes none)
          (storePlace workingDir base ++ ["manifests", shaName depotId manifestId])
          (shaBytes (store.sha1 manifestBytes)) shaFault)

theorem save_cases (disk : Disk) (depotId : DepotId) (manifestId : ManifestId) (rawData : Bytes)
    (fault : Option SaveFault) :
    Saves store workingDir base depotId manifestId rawData disk
      ((defaultFor base).save store workingDir disk depotId manifestId rawData fault) := by
  unfold save
  rw [resolve_manifestPath, resolve_shaPath]
  split
  · exact .nothing
  · split
    next => exact .nothing
    next manifestBytes hextract =>
      split
      next _ fault _ =>
        cases fault with
        | unopened => exact .nothing
        | cut written => exact .cut
      next => exact .written hextract
      next => exact .written hextract

theorem Saves.changesOnly {rawData : Bytes}
    (hsaves : Saves store workingDir base depotId manifestId rawData disk disk') :
    FileTree.ChangesOnly Stored disk disk' := by
  cases hsaves with
  | nothing => exact FileTree.ChangesOnly.refl _ _
  | cut => exact writeFile_stored disk workingDir base _ _ _
  | written =>
      exact (writeFile_stored disk workingDir base _ _ _).trans
        (writeFile_stored _ workingDir base _ _ _)

theorem manifestName_ne_config : manifestName depotId manifestId ≠ "depot.json" := by
  intro heq
  have hunderscore : '_' ∈ entryChars depotId manifestId ".manifest".toList := by
    simp [entryChars]
  rw [← toList_manifestName, heq] at hunderscore
  exact absurd hunderscore (by decide)

end ManifestCache

namespace DepotConfig

/-- A config that was saved is read back. -/
theorem getInstalled_of_save (config : DepotConfig) (disk : Disk) (depotId : DepotId) :
    (load store workingDir (config.save store workingDir disk (pathFor base) none)
      (pathFor base)).getInstalled depotId = config.getInstalled depotId := by
  obtain ⟨config', hread, hsame⟩ := store.configFromJson_toJson config
  unfold load save
  rw [resolve_configPath, read_writeFile]
  simp only [hread, Option.getD_some, hsame]

theorem save_changesOnly (config : DepotConfig) (disk : Disk) (fault : Option WriteFault) :
    FileTree.ChangesOnly Stored disk
      (config.save store workingDir disk (pathFor base) fault) := by
  unfold save
  rw [resolve_configPath]
  exact writeFile_stored disk workingDir base _ _ _

end DepotConfig

end DepotDownloader.SteamClient
