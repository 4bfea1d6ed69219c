import DepotDownloader.SteamClient.Download.DepotJob

/-! # The places of a manifest's files

Canonical names lead below the install directory to the place they spell, and to
the same place below `.staging` for the staging file. Names that are distinct,
canonical and not below `.staging` keep all these places apart.
-/

namespace DepotDownloader.SteamClient

open Foundation Foundation.LexPath Steam

/-- The names that a manifest lists. -/
def manifestNames (manifest : DepotManifest) : List String :=
  manifest.files.filterMap ManifestFile.filename

/-- A canonical relative name outside `.staging`. -/
structure CleanName (name : String) : Prop where
  canonical : Canonical name
  unstaged : (segments name).head? ≠ some ".staging"

/-- Distinct canonical names, none of them below `.staging`. -/
structure CleanNames (manifest : DepotManifest) : Prop where
  distinct : (manifestNames manifest).Nodup
  clean : ∀ name ∈ manifestNames manifest, CleanName name

namespace DepotJob

variable (job : DepotJob) {name name' : String}

/-- Where the install directory is. -/
def installPlace : Place := job.place job.installDir

theorem finalPlace_eq (hname : CleanName name) :
    job.finalPlace name = job.installPlace ++ segments name :=
  hname.canonical.resolve_join _ _

theorem stagingPlace_eq (hname : CleanName name) :
    job.stagingPlace name = job.installPlace ++ ".staging" :: segments name := by
  have hdir : job.place job.stagingDir = job.installPlace ++ [".staging"] := by
    have hcanonical : Canonical ".staging" := by decide
    exact hcanonical.resolve_join _ _
  have hfile : job.stagingPlace name = job.place job.stagingDir ++ segments name :=
    hname.canonical.resolve_join _ _
  rw [hfile, hdir, List.append_assoc, List.singleton_append]

theorem finalPlace_inj (hname : CleanName name) (hname' : CleanName name') :
    job.finalPlace name = job.finalPlace name' ↔ name = name' := by
  rw [job.finalPlace_eq hname, job.finalPlace_eq hname', List.append_cancel_left_eq]
  exact segments_injective.eq_iff

theorem stagingPlace_inj (hname : CleanName name) (hname' : CleanName name') :
    job.stagingPlace name = job.stagingPlace name' ↔ name = name' := by
  rw [job.stagingPlace_eq hname, job.stagingPlace_eq hname', List.append_cancel_left_eq,
    List.cons.injEq]
  simp only [true_and]
  exact segments_injective.eq_iff

theorem stagingPlace_ne_finalPlace (hname : CleanName name) (hname' : CleanName name') :
    job.stagingPlace name ≠ job.finalPlace name' := by
  rw [job.stagingPlace_eq hname, job.finalPlace_eq hname']
  intro heq
  rw [List.append_cancel_left_eq] at heq
  exact hname'.unstaged (by rw [← heq]; rfl)

end DepotJob

/-- The name is the only one that an entry of the manifest has. -/
theorem CleanNames.eq_of_filename {manifest : DepotManifest} (hnames : CleanNames manifest)
    {file file' : ManifestFile} {name : String} (hmem : file ∈ manifest.files)
    (hmem' : file' ∈ manifest.files) (hname : file.filename = some name)
    (hname' : file'.filename = some name) : file = file' := by
  have hpairwise := List.pairwise_iff_getElem.mp (List.pairwise_filterMap.mp hnames.distinct)
  obtain ⟨index, hindex, rfl⟩ := List.mem_iff_getElem.mp hmem
  obtain ⟨index', hindex', rfl⟩ := List.mem_iff_getElem.mp hmem'
  rcases Nat.lt_trichotomy index index' with hlt | rfl | hgt
  · exact absurd rfl (hpairwise index index' hindex hindex' hlt name hname name hname')
  · rfl
  · exact absurd rfl (hpairwise index' index hindex' hindex hgt name hname' name hname)

/-- A manifest with a single canonical name has clean names. -/
theorem cleanNames_single {manifest : DepotManifest} {name : String}
    (hnames : manifestNames manifest = [name]) (hclean : CleanName name) : CleanNames manifest where
  distinct := by simp [hnames]
  clean other hother := by
    rw [hnames, List.mem_singleton] at hother
    exact hother ▸ hclean

/-- The entry of a file of zero bytes that no chunk covers. -/
def zeroFile (name : String) (size : Nat) : ManifestFile where
  filename := some name
  size := some size
  flags := none
  shaContent := none
  chunks := []
  linkTarget := none

def manifestOf (files : List ManifestFile) : DepotManifest where
  depotId := none
  manifestId := none
  creationTime := none
  filenamesEncrypted := false
  totalUncompressedSize := none
  totalCompressedSize := none
  files := files

/-- A download into `/home/game` that never needs the network. -/
def offline (manifest : DepotManifest) (previous : Option DepotManifest) : JobContext where
  job :=
    { depotId := ⟨1⟩
      depotKey := ⟨.replicate 32 0⟩
      installDir := .ofString "game"
      verify := false
      fileFilter := none
      previousManifest := previous
      retry := .default
      workingDir := ["home"] }
  codecs :=
    { aes := fun _ _ => []
      zstdDecodeAll := fun _ => none
      lzmaDecompress := fun _ => none
      zipFirst := fun _ => .notAnArchive }
  fetcher _ := .error "offline"
  manifest := manifest

/-- The moves of a file task that finds nothing on the disk and has nothing to
fetch, and of its report. -/
def offlineMoves (position : Nat) : List JobMove :=
  List.replicate 10 (.file position ⟨.main, none⟩) ++ [.finish position]

end DepotDownloader.SteamClient
