import DepotDownloader.Steam.Depot.Manifest
import DepotDownloader.Steam.LittleEndian

/-! # Parsing manifests

A manifest is either a fixed header with file mappings behind it, or a sequence of
protobuf sections that each carry a magic number and a length. The protobuf
decoders are parameters.
-/

namespace DepotDownloader.Steam

open Foundation WireInt

/-- Manifest section magic values. -/
inductive ManifestMagic where
  | payloadV5
  | metadata
  | signature
  | endOfManifest
  | v4
  deriving DecidableEq, Repr

namespace ManifestMagic

def toU32 : ManifestMagic → UInt32
  | payloadV5 => 0x71F617D0
  | metadata => 0x1F4812BE
  | signature => 0x1B81B817
  | endOfManifest => 0x32C415AB
  | v4 => 0x16349781

def fromU32 (value : UInt32) : Option ManifestMagic :=
  match value.toNat with
  | 0x71F617D0 => some payloadV5
  | 0x1F4812BE => some metadata
  | 0x1B81B817 => some signature
  | 0x32C415AB => some endOfManifest
  | 0x16349781 => some v4
  | _ => none

@[simp] theorem fromU32_toU32 (magic : ManifestMagic) : fromU32 magic.toU32 = some magic := by
  cases magic <;> rfl

theorem toU32_inj {magic magic' : ManifestMagic} :
    magic.toU32 = magic'.toU32 ↔ magic = magic' := by
  constructor
  · intro heq
    have hmagic := congrArg fromU32 heq
    rwa [fromU32_toU32, fromU32_toU32, Option.some.injEq] at hmagic
  · rintro rfl
    rfl

end ManifestMagic

/-- `ContentManifestPayload.FileMapping.ChunkData`. -/
structure ChunkData where
  sha : Option Bytes
  crc : Option UInt32
  offset : Option UInt64
  cbOriginal : Option UInt32
  cbCompressed : Option UInt32
  deriving DecidableEq

/-- `ContentManifestPayload.FileMapping`. -/
structure FileMapping where
  filename : Option String
  size : Option UInt64
  flags : Option UInt32
  shaFilename : Option Bytes
  shaContent : Option Bytes
  chunks : List ChunkData
  linktarget : Option String
  deriving DecidableEq

structure ContentManifestPayload where
  mappings : List FileMapping
  deriving DecidableEq

structure ContentManifestMetadata where
  depotId : Option UInt32
  gidManifest : Option UInt64
  creationTime : Option UInt32
  filenamesEncrypted : Option Bool
  cbDiskOriginal : Option UInt64
  cbDiskCompressed : Option UInt64
  uniqueChunks : Option UInt32
  crcEncrypted : Option UInt32
  crcClear : Option UInt32
  deriving DecidableEq

structure ContentManifestSignature where
  signature : Option Bytes
  deriving DecidableEq

/-- The protobuf decoders of the manifest sections. -/
structure SectionCodecs where
  decodePayload : Bytes → Option ContentManifestPayload
  decodeMetadata : Bytes → Option ContentManifestMetadata
  decodeSignature : Bytes → Option ContentManifestSignature

/-- `map_err(|_| ManifestError::MissingSection(name))`. -/
def orMissing {α : Type} (name : String) (found : Option α) : Except ManifestError α :=
  found.elim (.error (.missingSection name)) .ok

@[simp] theorem orMissing_some {α : Type} (name : String) (value : α) :
    orMissing name (some value) = .ok value := rfl

/-- Try to convert bytes to a SHA-1 hash. -/
def trySha (bytes : Bytes) : Option (Vector UInt8 20) :=
  if hlength : bytes.length = 20 then some ⟨bytes.toArray, by simpa using hlength⟩ else none

/-- `read_exact` into 20 bytes. -/
def readSha (data : Bytes) : Option (Vector UInt8 20 × Bytes) := do
  let (bytes, rest) ← readBytes 20 data
  let sha ← trySha bytes
  return (sha, rest)

namespace DepotManifest

/-- One chunk of a v4 file mapping. -/
def parseChunkV4 (input : Bytes) : Except ManifestError (ManifestChunk × Bytes) := do
  let (sha, input) ← orMissing "v4 chunk sha" (readSha input)
  let (checksum, input) ← orMissing "v4 chunk checksum" (u32.read input)
  let (offset, input) ← orMissing "v4 chunk offset" (u64.read input)
  let (uncompressedSize, input) ← orMissing "v4 chunk uncompressed" (u32.read input)
  let (compressedSize, input) ← orMissing "v4 chunk compressed" (u32.read input)
  return (⟨some ⟨sha⟩, some checksum, some offset.toNat, some compressedSize.toNat,
    some uncompressedSize.toNat⟩, input)

def parseChunksV4 : Nat → Bytes → Except ManifestError (List ManifestChunk × Bytes)
  | 0, input => return ([], input)
  | count + 1, input => do
      let (chunk, input) ← parseChunkV4 input
      let (chunks, input) ← parseChunksV4 count input
      return (chunk :: chunks, input)

/-- One v4 file mapping. -/
def parseFileV4 (input : Bytes) : Except ManifestError (ManifestFile × Bytes) := do
  let (name, input) ← orMissing "v4 filename nul terminator" (readNullTerminated input)
  let (size, input) ← orMissing "v4 file size" (u64.read input)
  let (flags, input) ← orMissing "v4 file flags" (u32.read input)
  let (hashContent, input) ← orMissing "v4 hash_content" (readSha input)
  let (_, input) ← orMissing "v4 hash_filename" (readSha input)
  let (numChunks, input) ← orMissing "v4 num_chunks" (u32.read input)
  let (chunks, input) ← parseChunksV4 numChunks.toNat input
  return (⟨some (String.ofList (fromUtf8Lossy name)), some size.toNat, some flags,
    some hashContent, chunks, none⟩, input)

/-- File mappings until their size is consumed. The fuel bounds the loop: every
mapping takes bytes. -/
def parseFilesV4 (fileMappingSize : Nat) :
    Nat → Nat → Bytes → Except ManifestError (List ManifestFile)
  | 0, _, _ => .error .outOfFuel
  | fuel + 1, consumed, input =>
      if consumed < fileMappingSize then do
        let (file, rest) ← parseFileV4 input
        let files ← parseFilesV4 fileMappingSize fuel (consumed + (input.length - rest.length)) rest
        return file :: files
      else return []

/-- Parse a v4 (binary) manifest. -/
def parseV4 (data : Bytes) : Except ManifestError DepotManifest := do
  let (_, input) ← orMissing "v4 header" (u32.read data)
  let (version, input) ← orMissing "v4 version" (u32.read input)
  if version ≠ 4 then .error (.invalidMagic version)
  else
    let (depotId, input) ← orMissing "v4 depot_id" (u32.read input)
    let (manifestGid, input) ← orMissing "v4 manifest_gid" (u64.read input)
    let (creationTime, input) ← orMissing "v4 creation_time" (u32.read input)
    let (filenamesEncrypted, input) ← orMissing "v4 filenames_encrypted" (u32.read input)
    let (totalUncompressed, input) ← orMissing "v4 total_uncompressed" (u64.read input)
    let (totalCompressed, input) ← orMissing "v4 total_compressed" (u64.read input)
    let (_, input) ← orMissing "v4 chunk_count" (u32.read input)
    let (_, input) ← orMissing "v4 file_entry_count" (u32.read input)
    let (fileMappingSize, input) ← orMissing "v4 file_mapping_size" (u32.read input)
    let (_, input) ← orMissing "v4 encrypted_crc" (u32.read input)
    let (_, input) ← orMissing "v4 decrypted_crc" (u32.read input)
    let (_, input) ← orMissing "v4 flags" (u32.read input)
    let files ← parseFilesV4 fileMappingSize.toNat (input.length + 1) 0 input
    return ⟨some ⟨depotId⟩, some ⟨manifestGid⟩, some creationTime.toNat, filenamesEncrypted != 0,
      some totalUncompressed.toNat, some totalCompressed.toNat, files⟩

/-- Sections until the end magic. A later section replaces an earlier one of its
kind. The fuel bounds the loop: every section takes bytes. -/
def parseSections (codecs : SectionCodecs) :
    Nat → Option ContentManifestPayload → Option ContentManifestMetadata → Bytes →
      Except ManifestError (Option ContentManifestPayload × Option ContentManifestMetadata)
  | 0, _, _, _ => .error .outOfFuel
  | fuel + 1, payload, metadata, input => do
      let (magic, input) ← orMissing "unexpected EOF reading magic" (u32.read input)
      if magic = ManifestMagic.endOfManifest.toU32 then return (payload, metadata)
      else
        let (length, input) ← orMissing "unexpected EOF reading length" (u32.read input)
        let (sectionData, input) ←
          orMissing "section data truncated" (readBytes length.toNat input)
        match ManifestMagic.fromU32 magic with
        | some .payloadV5 => do
            let found ← orMissing "payload decode failed" (codecs.decodePayload sectionData)
            parseSections codecs fuel (some found) metadata input
        | some .metadata => do
            let found ← orMissing "metadata decode failed" (codecs.decodeMetadata sectionData)
            parseSections codecs fuel payload (some found) input
        | some .signature => do
            let _ ← orMissing "signature decode failed" (codecs.decodeSignature sectionData)
            parseSections codecs fuel payload metadata input
        | _ => .error (.invalidMagic magic)

end DepotManifest

def ManifestChunk.ofChunkData (chunk : ChunkData) : ManifestChunk where
  id := (chunk.sha.bind trySha).map ChunkId.mk
  checksum := chunk.crc
  offset := chunk.offset.map UInt64.toNat
  compressedSize := chunk.cbCompressed.map UInt32.toNat
  uncompressedSize := chunk.cbOriginal.map UInt32.toNat

def ManifestFile.ofFileMapping (mapping : FileMapping) : ManifestFile where
  filename := mapping.filename
  size := mapping.size.map UInt64.toNat
  flags := mapping.flags
  shaContent := mapping.shaContent.bind trySha
  chunks := mapping.chunks.map ManifestChunk.ofChunkData
  linkTarget := mapping.linktarget.filter fun target => !target.isEmpty

namespace DepotManifest

/-- Parse a v5 (protobuf) manifest. -/
def parseV5 (codecs : SectionCodecs) (data : Bytes) : Except ManifestError DepotManifest := do
  let (payload, metadata) ← parseSections codecs (data.length + 1) none none data
  let payload ← orMissing "payload" payload
  let metadata ← orMissing "metadata" metadata
  return {
    depotId := metadata.depotId.map DepotId.mk
    manifestId := metadata.gidManifest.map ManifestId.mk
    creationTime := metadata.creationTime.map UInt32.toNat
    filenamesEncrypted := metadata.filenamesEncrypted.getD false
    totalUncompressedSize := metadata.cbDiskOriginal.map UInt64.toNat
    totalCompressedSize := metadata.cbDiskCompressed.map UInt64.toNat
    files := payload.mappings.map ManifestFile.ofFileMapping }

/-- Parse a manifest from raw bytes, in either format. -/
def parse (codecs : SectionCodecs) (data : Bytes) : Except ManifestError DepotManifest :=
  match u32.read data with
  | none => .error (.missingSection "manifest too short")
  | some (magic, _) => if magic = ManifestMagic.v4.toU32 then parseV4 data else parseV5 codecs data

end DepotManifest

end DepotDownloader.Steam
