import DepotDownloader.Foundation.FileSystem
import DepotDownloader.Foundation.LexPath
import DepotDownloader.Steam.Depot.Chunk
import DepotDownloader.Steam.Depot.Manifest
import Mathlib.Data.List.Dedup

/-! # Download jobs

A job downloads the files of one depot manifest into an install directory. This
module holds what a job is made of, the effects it has on the world, and the
checks it makes of files on disk.
-/

namespace DepotDownloader.SteamClient

open Foundation Foundation.LexPath Steam

/-- A place in the file tree: the names below the root. -/
abbrev Place := List String

abbrev Disk := FileTree Place

inductive DownloadError where
  | io
  | fetch (text : String)
  | message (text : String)
  | chunk (error : ChunkError)
  | panic
  deriving DecidableEq, Repr

/-- One call of the fetcher: the file task, the chunk's index in the file and the
attempt. No two calls of a run agree on all of them, so a fetcher whose answers
change over time is a function of its calls. -/
structure FetchCall where
  depotId : DepotId
  chunkId : ChunkId
  file : Nat
  chunk : Nat
  attempt : Nat

/-- Fetching raw chunk data. -/
abbrev ChunkFetcher := FetchCall → Except String Bytes

structure RetryConfig where
  maxAttempts : Nat
  /-- Nanoseconds. -/
  initialDelay : Nat
  deriving DecidableEq, Repr

namespace RetryConfig

def default : RetryConfig where
  maxAttempts := 5
  initialDelay := 1000000000

def none : RetryConfig where
  maxAttempts := 1
  initialDelay := 0

/-- `initial_delay * (1 << attempt)`. The shift and the multiplication panic on
overflow. -/
def delay (retry : RetryConfig) (attempt : Nat) : Option Nat :=
  if attempt < 32 ∧ retry.initialDelay * 2 ^ attempt < 2 ^ 64 * 1000000000 then
    some (retry.initialDelay * 2 ^ attempt)
  else Option.none

/-- The default delays stay far below an overflow. -/
theorem default_delay :
    ∀ attempt < default.maxAttempts, (default.delay attempt).isSome = true := by
  decide

end RetryConfig

/-- Filter to select which files to download. A compiled pattern is what it
matches. -/
inductive FileFilter where
  | fileList (list : List String)
  | regex (pattern : String → Bool)
  | mixed (literals : List String) (patterns : List (String → Bool))

/-- `str::eq_ignore_ascii_case`. -/
def eqIgnoreAsciiCase (left right : String) : Bool :=
  left.toList.map Char.toLower == right.toList.map Char.toLower

def FileFilter.selects (filter : FileFilter) (filename : String) : Bool :=
  let normalized := replaceBackslash filename
  match filter with
  | fileList list => list.any (eqIgnoreAsciiCase · normalized)
  | regex pattern => pattern normalized
  | mixed literals patterns =>
      literals.any (eqIgnoreAsciiCase · normalized) || patterns.any (· normalized)

/-- A depot download job. The working directory is what relative paths start
from. -/
structure DepotJob where
  depotId : DepotId
  depotKey : DepotKey
  installDir : Path
  verify : Bool
  fileFilter : Option FileFilter
  previousManifest : Option DepotManifest
  retry : RetryConfig
  workingDir : Place

/-- Per-file download context. -/
structure FileTask where
  path : Path
  size : Option Nat
  flags : Option UInt32
  chunks : List ManifestChunk
  oldChunks : Option (List ManifestChunk)
  filename : String

/-- Status events emitted during a depot download. -/
inductive DownloadEvent where
  | fileStarted (filename : String) (totalChunks : Nat) (fileSize : Option Nat)
  | chunkCompleted (chunkId : ChunkId) (bytesWritten : Nat)
  | fileCompleted (filename : String)
  | fileSkipped (filename : String)
  | depotProgress (filesCompleted filesTotal : Nat)
  deriving DecidableEq

/-- What a job does besides computing, in the order in which it happens. -/
inductive Effect where
  | createDirAll (path : Path)
  | openExisting (path : Path)
  | createTruncate (path : Path)
  | rename (source target : Path)
  | setPermissions (path : Path)
  | removeFile (path : Path)
  | fetchChunk (call : FetchCall)
  | send (event : DownloadEvent)

/-- The disk and the effects so far, latest first. -/
structure World where
  disk : Disk
  log : List Effect

namespace World

def emit (world : World) (effect : Effect) : World := { world with log := effect :: world.log }

def withDisk (world : World) (disk : Disk) : World := { world with disk := disk }

@[simp] theorem emit_disk (world : World) (effect : Effect) :
    (world.emit effect).disk = world.disk := rfl

@[simp] theorem emit_log (world : World) (effect : Effect) :
    (world.emit effect).log = effect :: world.log := rfl

@[simp] theorem withDisk_disk (world : World) (disk : Disk) :
    (world.withDisk disk).disk = disk := rfl

@[simp] theorem withDisk_log (world : World) (disk : Disk) :
    (world.withDisk disk).log = world.log := rfl

end World

namespace DepotJob

variable (job : DepotJob)

def place (path : Path) : Place := path.resolve job.workingDir

/-- `install_dir.join(filename)`. -/
def finalPath (filename : String) : Path := job.installDir.join (.ofString filename)

def stagingDir : Path := job.installDir.join (.ofString ".staging")

def stagingPath (filename : String) : Path := job.stagingDir.join (.ofString filename)

def finalPlace (filename : String) : Place := job.place (job.finalPath filename)

def stagingPlace (filename : String) : Place := job.place (job.stagingPath filename)

end DepotJob

/-- The check of one chunk of a file: its metadata is complete, its bytes can be
read, and their checksum is the expected one. -/
def chunkValid (data : Bytes) (chunk : ManifestChunk) : Bool :=
  match chunk.offset, chunk.uncompressedSize, chunk.checksum with
  | some offset, some size, some checksum =>
      match Bytes.readAt data offset size with
      | some buffer => SteamAdler32.compute buffer == checksum
      | none => false
  | _, _, _ => false

/-- The calls of a check of a file that fail although the file can be opened: the look
at its metadata, and the reads of its chunks. Such a failure counts as a `no`. -/
structure FailingReads where
  metadata : Bool
  chunk : Nat → Bool

/-- Every call succeeds. -/
def FailingReads.none : FailingReads where
  metadata := false
  chunk _ := false

@[simp] theorem FailingReads.none_metadata : FailingReads.none.metadata = false := rfl

@[simp] theorem FailingReads.none_chunk (index : Nat) :
    FailingReads.none.chunk index = false := rfl

/-- The chunk indices that need to be downloaded again. -/
def verifyChunks (data : Bytes) (chunks : List ManifestChunk)
    (failing : FailingReads := .none) : List Nat :=
  (chunks.zipIdx.filter fun entry =>
    failing.chunk entry.2 || !chunkValid data entry.1).map Prod.snd

def fileHasCorrectSize (disk : Disk) (place : Place) (expected : Option Nat)
    (failing : FailingReads := .none) : Bool :=
  match expected, disk.read place with
  | some size, some data => !failing.metadata && data.length == size
  | _, _ => false

def fileHasValidChunks (disk : Disk) (place : Place) (expectedSize : Option Nat)
    (chunks : List ManifestChunk) (failing : FailingReads := .none) : Bool :=
  fileHasCorrectSize disk place expectedSize failing &&
    (verifyChunks ((disk.read place).getD []) chunks failing).isEmpty

/-- The identifiers of the chunks that the staging file already holds. -/
def validChunkIds (data : Bytes) (chunks : List ManifestChunk)
    (failing : FailingReads := .none) : List ChunkId :=
  let bad := verifyChunks data chunks failing
  ((chunks.zipIdx.filter fun entry => !bad.contains entry.2).filterMap fun entry =>
    entry.1.id).dedup

section Checks

variable {disk : Disk} {place : Place} {size : Option Nat} {data : Bytes}
  {chunks : List ManifestChunk} {failing : FailingReads} {index : Nat}

theorem mem_verifyChunks :
    index ∈ verifyChunks data chunks failing ↔ ∃ chunk, chunks[index]? = some chunk ∧
      (failing.chunk index = true ∨ chunkValid data chunk = false) := by
  simp only [verifyChunks, List.mem_map, List.mem_filter, Prod.exists, exists_eq_right,
    List.mem_zipIdx_iff_getElem?, Bool.or_eq_true, Bool.not_eq_true']

/-- Nothing is found bad when every read succeeds and gives a valid chunk. -/
theorem verifyChunks_eq_nil : verifyChunks data chunks failing = [] ↔
    ∀ index chunk, chunks[index]? = some chunk →
      failing.chunk index = false ∧ chunkValid data chunk = true := by
  simp only [List.eq_nil_iff_forall_not_mem, mem_verifyChunks, not_exists, not_and, not_or,
    Bool.not_eq_true, Bool.not_eq_false]

theorem verifyChunks_none_eq_nil :
    verifyChunks data chunks = [] ↔ ∀ chunk ∈ chunks, chunkValid data chunk = true := by
  rw [verifyChunks_eq_nil]
  constructor
  · intro hall chunk hmem
    obtain ⟨index, hindex⟩ := List.mem_iff_getElem?.mp hmem
    exact (hall index chunk hindex).2
  · intro hall index chunk hindex
    exact ⟨rfl, hall chunk (List.mem_of_getElem? hindex)⟩

/-- An identifier counts as valid when some chunk that carries it is found valid. -/
theorem mem_validChunkIds {id : ChunkId} :
    id ∈ validChunkIds data chunks failing ↔
      ∃ index chunk, chunks[index]? = some chunk ∧ failing.chunk index = false ∧
        chunkValid data chunk = true ∧ chunk.id = some id := by
  simp only [validChunkIds, List.mem_dedup, List.mem_filterMap, List.mem_filter, Prod.exists,
    List.mem_zipIdx_iff_getElem?, Bool.not_eq_true', List.contains_eq_mem,
    decide_eq_false_iff_not, mem_verifyChunks]
  constructor
  · rintro ⟨chunk, index, ⟨hindex, hgood⟩, hid⟩
    simp only [not_exists, not_and, not_or, Bool.not_eq_true, Bool.not_eq_false] at hgood
    obtain ⟨hread, hvalid⟩ := hgood chunk hindex
    exact ⟨index, chunk, hindex, hread, hvalid, hid⟩
  · rintro ⟨index, chunk, hindex, hread, hgood, hid⟩
    refine ⟨chunk, index, ⟨hindex, ?_⟩, hid⟩
    rintro ⟨other, hother, hbad⟩
    rw [hindex, Option.some.injEq] at hother
    rw [← hother, hread, hgood] at hbad
    simp at hbad

/-- As many identifiers as chunks can count as valid only when nothing is found bad. -/
theorem verifyChunks_of_validChunkIds_length
    (hlength : (validChunkIds data chunks failing).length = chunks.length) :
    verifyChunks data chunks failing = [] := by
  let kept := chunks.zipIdx.filter fun entry =>
    !(verifyChunks data chunks failing).contains entry.2
  have hdedup : (validChunkIds data chunks failing).length ≤
      (kept.filterMap fun entry => entry.1.id).length :=
    (List.dedup_sublist _).length_le
  have hmap : (kept.filterMap fun entry => entry.1.id).length ≤ kept.length :=
    List.length_filterMap_le _ _
  have hfull : kept.length = chunks.zipIdx.length := by
    have hle : kept.length ≤ chunks.zipIdx.length := List.length_filter_le _ _
    rw [List.length_zipIdx] at hle ⊢
    omega
  refine List.eq_nil_iff_forall_not_mem.mpr fun index hbad => ?_
  obtain ⟨chunk, hchunk, _⟩ := mem_verifyChunks.mp hbad
  have hkept := List.length_filter_eq_length_iff.mp hfull (chunk, index)
    (List.mem_zipIdx_iff_getElem?.mpr hchunk)
  simp [hbad] at hkept

theorem chunkValid_of_validChunkIds_length
    (hlength : (validChunkIds data chunks failing).length = chunks.length) :
    ∀ chunk ∈ chunks, chunkValid data chunk = true := by
  intro chunk hmem
  obtain ⟨index, hindex⟩ := List.mem_iff_getElem?.mp hmem
  exact (verifyChunks_eq_nil.mp (verifyChunks_of_validChunkIds_length hlength) index chunk
    hindex).2

theorem fileHasCorrectSize_iff : fileHasCorrectSize disk place size failing = true ↔
    failing.metadata = false ∧ ∃ data, disk.read place = some data ∧ size = some data.length := by
  unfold fileHasCorrectSize
  cases disk.read place with
  | none => cases size <;> simp
  | some data =>
      cases size with
      | none => simp
      | some size =>
          simp only [Bool.and_eq_true, Bool.not_eq_true', beq_iff_eq, Option.some.injEq,
            exists_eq_left']
          exact and_congr_right fun _ => eq_comm

/-- A file passes the check when it is there with the expected size, and every chunk
can be read and is valid. -/
theorem fileHasValidChunks_iff_of_failing :
    fileHasValidChunks disk place size chunks failing = true ↔ failing.metadata = false ∧
      ∃ data, disk.read place = some data ∧ size = some data.length ∧
        ∀ index chunk, chunks[index]? = some chunk →
          failing.chunk index = false ∧ chunkValid data chunk = true := by
  unfold fileHasValidChunks
  rw [Bool.and_eq_true, fileHasCorrectSize_iff, List.isEmpty_iff, verifyChunks_eq_nil]
  constructor
  · rintro ⟨⟨hmetadata, data, hread, hsize⟩, hall⟩
    rw [hread] at hall
    exact ⟨hmetadata, data, hread, hsize, hall⟩
  · rintro ⟨hmetadata, data, hread, hsize, hall⟩
    refine ⟨⟨hmetadata, data, hread, hsize⟩, ?_⟩
    rw [hread]
    exact hall

/-- When every call succeeds a file passes the check exactly when it is there with the
expected size and all its chunks are valid. -/
theorem fileHasValidChunks_iff :
    fileHasValidChunks disk place size chunks = true ↔
      ∃ data, disk.read place = some data ∧ size = some data.length ∧
        ∀ chunk ∈ chunks, chunkValid data chunk = true := by
  unfold fileHasValidChunks
  rw [Bool.and_eq_true, fileHasCorrectSize_iff, List.isEmpty_iff, verifyChunks_none_eq_nil]
  constructor
  · rintro ⟨⟨_, data, hread, hsize⟩, hall⟩
    rw [hread] at hall
    exact ⟨data, hread, hsize, hall⟩
  · rintro ⟨data, hread, hsize, hall⟩
    refine ⟨⟨rfl, data, hread, hsize⟩, ?_⟩
    rw [hread]
    exact hall

/-- A file that passes although calls may fail passes when none does. -/
theorem fileHasValidChunks_of_failing
    (hvalid : fileHasValidChunks disk place size chunks failing = true) :
    fileHasValidChunks disk place size chunks = true := by
  obtain ⟨_, data, hread, hsize, hall⟩ := fileHasValidChunks_iff_of_failing.mp hvalid
  refine fileHasValidChunks_iff.mpr ⟨data, hread, hsize, fun chunk hmem => ?_⟩
  obtain ⟨index, hindex⟩ := List.mem_iff_getElem?.mp hmem
  exact (hall index chunk hindex).2

end Checks

end DepotDownloader.SteamClient
