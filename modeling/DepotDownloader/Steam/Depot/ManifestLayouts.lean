import DepotDownloader.Foundation.TableCodec
import DepotDownloader.Steam.Depot.ManifestParse
import DepotDownloader.Steam.Utf8
import Mathlib.Tactic.DeriveEncodable

/-! # The two layouts of a manifest

The same content is laid out as file mappings behind a fixed header and as protobuf
sections. Parsing either layout gives the content.
-/

namespace DepotDownloader.Steam

open Foundation WireInt

/-- A chunk with all its fields. -/
structure ChunkEntry where
  id : ChunkId
  checksum : UInt32
  offset : UInt64
  compressedSize : UInt32
  uncompressedSize : UInt32

/-- A file with all its fields. -/
structure FileEntry where
  name : String
  nulFree : NulFree name
  size : UInt64
  flags : UInt32
  shaContent : Vector UInt8 20
  chunks : List ChunkEntry

/-- What a manifest says, apart from its format. -/
structure ManifestContent where
  depotId : DepotId
  manifestId : ManifestId
  creationTime : UInt32
  filenamesEncrypted : Bool
  totalUncompressedSize : UInt64
  totalCompressedSize : UInt64
  files : List FileEntry

def ChunkEntry.chunk (entry : ChunkEntry) : ManifestChunk where
  id := some entry.id
  checksum := some entry.checksum
  offset := some entry.offset.toNat
  compressedSize := some entry.compressedSize.toNat
  uncompressedSize := some entry.uncompressedSize.toNat

def FileEntry.file (entry : FileEntry) : ManifestFile where
  filename := some entry.name
  size := some entry.size.toNat
  flags := some entry.flags
  shaContent := some entry.shaContent
  chunks := entry.chunks.map ChunkEntry.chunk
  linkTarget := none

def ManifestContent.manifest (content : ManifestContent) : DepotManifest where
  depotId := some content.depotId
  manifestId := some content.manifestId
  creationTime := some content.creationTime.toNat
  filenamesEncrypted := content.filenamesEncrypted
  totalUncompressedSize := some content.totalUncompressedSize.toNat
  totalCompressedSize := some content.totalCompressedSize.toNat
  files := content.files.map FileEntry.file

/-- The fields of the v4 layout that do not reach the parsed manifest. -/
structure UnreadV4 where
  chunkCount : UInt32
  fileEntryCount : UInt32
  encryptedCrc : UInt32
  decryptedCrc : UInt32
  flags : UInt32
  hashFilename : FileEntry → Vector UInt8 20

def ChunkEntry.layoutV4 (entry : ChunkEntry) : Bytes :=
  entry.id.sha.toList ++ u32.write entry.checksum ++ u64.write entry.offset ++
    u32.write entry.uncompressedSize ++ u32.write entry.compressedSize

def FileEntry.layoutV4 (unread : UnreadV4) (entry : FileEntry) : Bytes :=
  encodeUtf8 entry.name.toList ++ [0] ++ u64.write entry.size ++ u32.write entry.flags ++
    entry.shaContent.toList ++ (unread.hashFilename entry).toList ++
    u32.write (UInt32.ofNat entry.chunks.length) ++ entry.chunks.flatMap ChunkEntry.layoutV4

/-- The file mappings of the v4 layout. -/
def mappingsV4 (unread : UnreadV4) (files : List FileEntry) : Bytes :=
  files.flatMap (FileEntry.layoutV4 unread)

/-- The v4 layout. -/
def ManifestContent.layoutV4 (content : ManifestContent) (unread : UnreadV4) : Bytes :=
  let mappings := mappingsV4 unread content.files
  u32.write ManifestMagic.v4.toU32 ++ u32.write 4 ++ u32.write content.depotId.id ++
    u64.write content.manifestId.id ++ u32.write content.creationTime ++
    u32.write (if content.filenamesEncrypted then 1 else 0) ++
    u64.write content.totalUncompressedSize ++ u64.write content.totalCompressedSize ++
    u32.write unread.chunkCount ++ u32.write unread.fileEntryCount ++
    u32.write (UInt32.ofNat mappings.length) ++ u32.write unread.encryptedCrc ++
    u32.write unread.decryptedCrc ++ u32.write unread.flags ++ mappings ++
    u32.write ManifestMagic.v4.toU32

/-- The protobuf encoders of the manifest sections. -/
structure SectionEncoders where
  encodePayload : ContentManifestPayload → Bytes
  encodeMetadata : ContentManifestMetadata → Bytes
  encodeSignature : ContentManifestSignature → Bytes

/-- Decoding a section gives back the message that was encoded. -/
structure SectionInverse (encoders : SectionEncoders) (codecs : SectionCodecs) : Prop where
  payload : ∀ message, codecs.decodePayload (encoders.encodePayload message) = some message
  metadata : ∀ message, codecs.decodeMetadata (encoders.encodeMetadata message) = some message
  signature : ∀ message, codecs.decodeSignature (encoders.encodeSignature message) = some message

/-- The fields of the v5 layout that do not reach the parsed manifest. -/
structure UnreadV5 where
  uniqueChunks : Option UInt32
  crcEncrypted : Option UInt32
  crcClear : Option UInt32
  shaFilename : FileEntry → Option Bytes
  signature : Option ContentManifestSignature

def ChunkEntry.chunkData (entry : ChunkEntry) : ChunkData where
  sha := some entry.id.sha.toList
  crc := some entry.checksum
  offset := some entry.offset
  cbOriginal := some entry.uncompressedSize
  cbCompressed := some entry.compressedSize

def FileEntry.mapping (unread : UnreadV5) (entry : FileEntry) : FileMapping where
  filename := some entry.name
  size := some entry.size
  flags := some entry.flags
  shaFilename := unread.shaFilename entry
  shaContent := some entry.shaContent.toList
  chunks := entry.chunks.map ChunkEntry.chunkData
  linktarget := none

namespace ManifestContent

variable (content : ManifestContent) (encoders : SectionEncoders) (unread : UnreadV5)

def payload : ContentManifestPayload where
  mappings := content.files.map (FileEntry.mapping unread)

def metadata : ContentManifestMetadata where
  depotId := some content.depotId.id
  gidManifest := some content.manifestId.id
  creationTime := some content.creationTime
  filenamesEncrypted := some content.filenamesEncrypted
  cbDiskOriginal := some content.totalUncompressedSize
  cbDiskCompressed := some content.totalCompressedSize
  uniqueChunks := unread.uniqueChunks
  crcEncrypted := unread.crcEncrypted
  crcClear := unread.crcClear

/-- The sections of the v5 layout. A signature may stand behind the others. -/
def sectionsV5 : List (ManifestMagic × Bytes) :=
  (.payloadV5, encoders.encodePayload (content.payload unread)) ::
    (.metadata, encoders.encodeMetadata (content.metadata unread)) ::
    (unread.signature.map fun signature => (.signature, encoders.encodeSignature signature)).toList

/-- A section behind its magic and its length. -/
def sectionBytes (part : ManifestMagic × Bytes) : Bytes :=
  u32.write part.1.toU32 ++ u32.write (UInt32.ofNat part.2.length) ++ part.2

/-- The v5 layout. -/
def layoutV5 : Bytes :=
  (content.sectionsV5 encoders unread).flatMap sectionBytes ++
    u32.write ManifestMagic.endOfManifest.toU32

end ManifestContent

section Reading

variable {rest : Bytes}

theorem trySha_toList (sha : Vector UInt8 20) : trySha sha.toList = some sha := by
  have hlength : sha.toList.length = 20 := by simp
  rw [trySha, dif_pos hlength]
  rfl

@[simp] theorem readSha_append (sha : Vector UInt8 20) (rest : Bytes) :
    readSha (sha.toList ++ rest) = some (sha, rest) := by
  have hread := readBytes_append sha.toList rest
  have hlength : sha.toList.length = 20 := by simp
  rw [hlength] at hread
  simp [readSha, hread, trySha_toList]

theorem readNullTerminated_append {name : String} (hname : NulFree name) (rest : Bytes) :
    readNullTerminated (encodeUtf8 name.toList ++ 0 :: rest) =
      some (encodeUtf8 name.toList, rest) := by
  have hzero : ∀ byte ∈ encodeUtf8 name.toList, decide (byte ≠ 0) = true := by
    intro byte hmem
    apply decide_eq_true
    rintro rfl
    exact zero_notMem_encodeUtf8 hname hmem
  unfold readNullTerminated
  rw [List.dropWhile_append_of_pos hzero, List.takeWhile_append_of_pos hzero]
  simp

end Reading

namespace DepotManifest

section V4

variable {rest : Bytes}

theorem parseChunkV4_layout (entry : ChunkEntry) (rest : Bytes) :
    parseChunkV4 (entry.layoutV4 ++ rest) = .ok (entry.chunk, rest) := by
  simp [parseChunkV4, ChunkEntry.layoutV4, ChunkEntry.chunk, bind, Except.bind, pure, Except.pure]

theorem parseChunksV4_layout (entries : List ChunkEntry) (rest : Bytes) :
    parseChunksV4 entries.length (entries.flatMap ChunkEntry.layoutV4 ++ rest) =
      .ok (entries.map ChunkEntry.chunk, rest) := by
  induction entries with
  | nil => rfl
  | cons entry entries ih =>
      rw [List.flatMap_cons, List.append_assoc, List.length_cons, parseChunksV4,
        parseChunkV4_layout]
      simp [ih, bind, Except.bind, pure, Except.pure]

theorem parseFileV4_layout (unread : UnreadV4) (entry : FileEntry)
    (hcount : entry.chunks.length < 2 ^ 32) (rest : Bytes) :
    parseFileV4 (entry.layoutV4 unread ++ rest) = .ok (entry.file, rest) := by
  have hnumber : (UInt32.ofNat entry.chunks.length).toNat = entry.chunks.length :=
    UInt32.toNat_ofNat_of_lt' hcount
  have hchunks := parseChunksV4_layout entry.chunks rest
  simp [parseFileV4, FileEntry.layoutV4, FileEntry.file, readNullTerminated_append entry.nulFree,
    hnumber, hchunks, fromUtf8Lossy_encodeUtf8, bind, Except.bind, pure, Except.pure]

theorem length_layoutV4_pos (unread : UnreadV4) (entry : FileEntry) :
    0 < (entry.layoutV4 unread).length := by
  simp [FileEntry.layoutV4]

/-- A file has no more chunks than its mapping has bytes. -/
theorem chunks_le_layoutV4 (unread : UnreadV4) (entry : FileEntry) :
    entry.chunks.length ≤ (entry.layoutV4 unread).length := by
  have hchunks : ∀ chunks : List ChunkEntry,
      chunks.length ≤ (chunks.flatMap ChunkEntry.layoutV4).length := by
    intro chunks
    induction chunks with
    | nil => exact Nat.le_refl _
    | cons chunk chunks ih =>
        have hchunk : 0 < chunk.layoutV4.length := by simp [ChunkEntry.layoutV4, u32]
        rw [List.flatMap_cons, List.length_append, List.length_cons]
        omega
  have hentry := hchunks entry.chunks
  rw [FileEntry.layoutV4, List.length_append]
  omega

/-- The loop takes the mappings one by one until their size is consumed. -/
theorem parseFilesV4_layout (unread : UnreadV4) (files : List FileEntry) {size : Nat}
    (fuel consumed : Nat) (hsize : size = consumed + (mappingsV4 unread files).length)
    (hbound : size < 2 ^ 32)
    (hfuel : (mappingsV4 unread files).length < fuel) (rest : Bytes) :
    parseFilesV4 size fuel consumed (mappingsV4 unread files ++ rest) =
      .ok (files.map FileEntry.file) := by
  induction files generalizing fuel consumed with
  | nil =>
      obtain ⟨fuel, rfl⟩ := Nat.exists_eq_add_of_lt hfuel
      have hdone : ¬consumed < size := by
        simp only [mappingsV4, List.flatMap_nil, List.length_nil] at hsize
        omega
      simp [parseFilesV4, hdone, pure, Except.pure]
  | cons entry files ih =>
      have hpositive := length_layoutV4_pos unread entry
      have hchunks := chunks_le_layoutV4 unread entry
      simp only [mappingsV4, List.flatMap_cons, List.length_append] at hsize hfuel
      obtain ⟨fuel, rfl⟩ : ∃ less, fuel = less + 1 := ⟨fuel - 1, by omega⟩
      have hrest := ih fuel (consumed + (entry.layoutV4 unread).length)
        (by rw [mappingsV4]; omega) (by rw [mappingsV4]; omega)
      have hfile := parseFileV4_layout unread entry (by omega)
        (mappingsV4 unread files ++ rest)
      rw [show mappingsV4 unread (entry :: files) ++ rest =
        entry.layoutV4 unread ++ (mappingsV4 unread files ++ rest) by simp [mappingsV4]]
      rw [parseFilesV4, if_pos (by omega), hfile]
      simp only [bind, Except.bind]
      rw [List.length_append, Nat.add_sub_cancel, hrest]
      rfl

theorem parseV4_layout (content : ManifestContent) (unread : UnreadV4)
    (hmapping : (mappingsV4 unread content.files).length < 2 ^ 32) :
    parseV4 (content.layoutV4 unread) = .ok content.manifest := by
  have hsize : (UInt32.ofNat (mappingsV4 unread content.files).length).toNat =
      (mappingsV4 unread content.files).length := UInt32.toNat_ofNat_of_lt' hmapping
  have hfiles := parseFilesV4_layout unread content.files
    ((mappingsV4 unread content.files ++ u32.write ManifestMagic.v4.toU32).length + 1) 0
    (Nat.zero_add _).symm hmapping (by rw [List.length_append]; omega)
    (u32.write ManifestMagic.v4.toU32)
  have hencrypted : ((if content.filenamesEncrypted then 1 else 0 : UInt32) != 0) =
      content.filenamesEncrypted := by
    cases content.filenamesEncrypted <;> rfl
  unfold parseV4 ManifestContent.layoutV4
  simp only [List.append_assoc, read_append, orMissing_some, bind, Except.bind]
  rw [if_neg (by decide)]
  simp only [hsize, hfiles]
  simp [ManifestContent.manifest, hencrypted, pure, Except.pure]

end V4

section V5

variable {codecs : SectionCodecs} {encoders : SectionEncoders}

/-- A section is cut out between its header and what comes behind. -/
theorem parseSections_section {part : ManifestMagic × Bytes} (hlength : part.2.length < 2 ^ 32)
    (hend : part.1 ≠ .endOfManifest) (fuel : Nat) (payload : Option ContentManifestPayload)
    (metadata : Option ContentManifestMetadata) (rest : Bytes) :
    parseSections codecs (fuel + 1) payload metadata
        (ManifestContent.sectionBytes part ++ rest) =
      match part.1 with
      | .payloadV5 => do
          let found ← orMissing "payload decode failed" (codecs.decodePayload part.2)
          parseSections codecs fuel (some found) metadata rest
      | .metadata => do
          let found ← orMissing "metadata decode failed" (codecs.decodeMetadata part.2)
          parseSections codecs fuel payload (some found) rest
      | .signature => do
          let _ ← orMissing "signature decode failed" (codecs.decodeSignature part.2)
          parseSections codecs fuel payload metadata rest
      | magic => .error (.invalidMagic magic.toU32) := by
  have hnumber : (UInt32.ofNat part.2.length).toNat = part.2.length :=
    UInt32.toNat_ofNat_of_lt' hlength
  have hmagic : part.1.toU32 ≠ ManifestMagic.endOfManifest.toU32 :=
    fun heq => hend (ManifestMagic.toU32_inj.mp heq)
  unfold ManifestContent.sectionBytes
  simp only [parseSections, List.append_assoc, read_append, orMissing_some, bind, Except.bind,
    if_neg hmagic, hnumber, readBytes_append, ManifestMagic.fromU32_toU32]
  cases part.1 <;> rfl

theorem parseSections_end (fuel : Nat) (payload : Option ContentManifestPayload)
    (metadata : Option ContentManifestMetadata) :
    parseSections codecs (fuel + 1) payload metadata
      (u32.write ManifestMagic.endOfManifest.toU32) = .ok (payload, metadata) := by
  have hread := u32.read_append ManifestMagic.endOfManifest.toU32 []
  rw [List.append_nil] at hread
  simp only [parseSections, hread, orMissing_some, bind, Except.bind, if_true]
  rfl

theorem ofChunkData_chunkData (entry : ChunkEntry) :
    ManifestChunk.ofChunkData entry.chunkData = entry.chunk := by
  simp [ManifestChunk.ofChunkData, ChunkEntry.chunkData, ChunkEntry.chunk, trySha_toList]

theorem ofFileMapping_mapping (unread : UnreadV5) (entry : FileEntry) :
    ManifestFile.ofFileMapping (entry.mapping unread) = entry.file := by
  have hchunks : (entry.chunks.map ChunkEntry.chunkData).map ManifestChunk.ofChunkData =
      entry.chunks.map ChunkEntry.chunk := by
    rw [List.map_map]
    exact List.map_congr_left fun chunk _ => ofChunkData_chunkData chunk
  simp only [ManifestFile.ofFileMapping, FileEntry.mapping, FileEntry.file, hchunks,
    Option.bind_some, trySha_toList]
  rfl

/-- The sections of the layout are collected up to the end magic. -/
theorem parseSections_layout (hinverse : SectionInverse encoders codecs)
    (content : ManifestContent) (unread : UnreadV5)
    (hsections : ∀ part ∈ content.sectionsV5 encoders unread, part.2.length < 2 ^ 32) (fuel : Nat) :
    parseSections codecs (fuel + 4) none none (content.layoutV5 encoders unread) =
      .ok (some (content.payload unread), some (content.metadata unread)) := by
  have hpayload := hsections (.payloadV5, encoders.encodePayload (content.payload unread))
    List.mem_cons_self
  have hmetadata := hsections (.metadata, encoders.encodeMetadata (content.metadata unread))
    (List.mem_cons_of_mem _ List.mem_cons_self)
  unfold ManifestContent.layoutV5
  rw [ManifestContent.sectionsV5, List.flatMap_cons, List.flatMap_cons, List.append_assoc,
    List.append_assoc, parseSections_section hpayload (by simp)]
  simp only [hinverse.payload, orMissing_some, bind, Except.bind]
  rw [parseSections_section hmetadata (by simp)]
  simp only [hinverse.metadata, orMissing_some, bind, Except.bind]
  cases hsignature : unread.signature with
  | none => exact parseSections_end (fuel + 1) _ _
  | some signature =>
      have hlength := hsections (.signature, encoders.encodeSignature signature) (by
        simp [ManifestContent.sectionsV5, hsignature])
      simp only [Option.map_some, Option.toList_some, List.flatMap_cons, List.flatMap_nil,
        List.append_nil]
      rw [parseSections_section hlength (by simp)]
      simp only [hinverse.signature, orMissing_some, bind, Except.bind]
      exact parseSections_end fuel _ _

theorem parseV5_layout (hinverse : SectionInverse encoders codecs) (content : ManifestContent)
    (unread : UnreadV5)
    (hsections : ∀ part ∈ content.sectionsV5 encoders unread, part.2.length < 2 ^ 32) :
    parseV5 codecs (content.layoutV5 encoders unread) = .ok content.manifest := by
  obtain ⟨fuel, hfuel⟩ : ∃ fuel, (content.layoutV5 encoders unread).length + 1 = fuel + 4 := by
    have hend : 4 ≤ (content.layoutV5 encoders unread).length := by
      rw [ManifestContent.layoutV5, List.length_append, length_write]
      exact Nat.le_add_left 4 _
    exact ⟨(content.layoutV5 encoders unread).length - 3, by omega⟩
  have hfiles : (content.files.map (FileEntry.mapping unread)).map ManifestFile.ofFileMapping =
      content.files.map FileEntry.file := by
    rw [List.map_map]
    exact List.map_congr_left fun entry _ => ofFileMapping_mapping unread entry
  unfold parseV5
  rw [hfuel, parseSections_layout hinverse content unread hsections]
  simp only [bind, Except.bind, orMissing_some, ManifestContent.payload, hfiles]
  rfl

end V5

/-- Both formats decode the same content: the v4 layout and the v5 layout of a
manifest both parse to exactly that manifest, files and chunks in their order. -/
theorem parse_layouts {codecs : SectionCodecs} {encoders : SectionEncoders}
    (hinverse : SectionInverse encoders codecs) (content : ManifestContent)
    (unreadV4 : UnreadV4) (unreadV5 : UnreadV5)
    (hmappings : (mappingsV4 unreadV4 content.files).length < 2 ^ 32)
    (hsections : ∀ part ∈ content.sectionsV5 encoders unreadV5, part.2.length < 2 ^ 32) :
    parse codecs (content.layoutV4 unreadV4) = .ok content.manifest ∧
      parse codecs (content.layoutV5 encoders unreadV5) = .ok content.manifest := by
  constructor
  · have hmagic : ∃ rest, u32.read (content.layoutV4 unreadV4) =
        some (ManifestMagic.v4.toU32, rest) := by
      simp only [ManifestContent.layoutV4, List.append_assoc, read_append]
      exact ⟨_, rfl⟩
    obtain ⟨rest, hread⟩ := hmagic
    simp only [parse, hread, if_true]
    exact parseV4_layout content unreadV4 hmappings
  · have hmagic : ∃ rest, u32.read (content.layoutV5 encoders unreadV5) =
        some (ManifestMagic.payloadV5.toU32, rest) := by
      simp only [ManifestContent.layoutV5, ManifestContent.sectionsV5, List.flatMap_cons,
        ManifestContent.sectionBytes, List.append_assoc, read_append]
      exact ⟨_, rfl⟩
    obtain ⟨rest, hread⟩ := hmagic
    simp only [parse, hread]
    rw [if_neg (by decide)]
    exact parseV5_layout hinverse content unreadV5 hsections

end DepotManifest

deriving instance Encodable for ChunkData, FileMapping, ContentManifestPayload,
  ContentManifestMetadata, ContentManifestSignature

/-- A depot with one file of one chunk. -/
def oneFile : ManifestContent where
  depotId := ⟨441⟩
  manifestId := ⟨5⟩
  creationTime := 1
  filenamesEncrypted := false
  totalUncompressedSize := 3
  totalCompressedSize := 2
  files :=
    [{ name := "a"
       nulFree := by simp [NulFree]
       size := 3
       flags := 0
       shaContent := .replicate 20 7
       chunks := [⟨⟨.replicate 20 9⟩, 11, 0, 2, 3⟩] }]

def oneFileV4 : UnreadV4 where
  chunkCount := 1
  fileEntryCount := 1
  encryptedCrc := 0
  decryptedCrc := 0
  flags := 0
  hashFilename _ := .replicate 20 8

def oneFileV5 : UnreadV5 where
  uniqueChunks := none
  crcEncrypted := none
  crcClear := none
  shaFilename _ := none
  signature := none

/-- The protobuf text of the payload. -/
def oneFilePayload : Bytes :=
  [0x0A, 0x40, 0x0A, 0x01, 0x61, 0x10, 0x03, 0x18, 0x00, 0x2A, 0x14] ++ List.replicate 20 7 ++
    [0x32, 0x21, 0x0A, 0x14] ++ List.replicate 20 9 ++
    [0x15, 0x0B, 0x00, 0x00, 0x00, 0x18, 0x00, 0x20, 0x03, 0x28, 0x02]

/-- The protobuf text of the metadata. -/
def oneFileMetadata : Bytes :=
  [0x08, 0xB9, 0x03, 0x10, 0x05, 0x18, 0x01, 0x20, 0x00, 0x28, 0x03, 0x30, 0x02]

def oneFileEncoders : SectionEncoders where
  encodePayload := TableCodec.encode [(oneFile.payload oneFileV5, oneFilePayload)]
  encodeMetadata := TableCodec.encode [(oneFile.metadata oneFileV5, oneFileMetadata)]
  encodeSignature := TableCodec.encode []

def oneFileCodecs : SectionCodecs where
  decodePayload := TableCodec.decode [(oneFile.payload oneFileV5, oneFilePayload)]
  decodeMetadata := TableCodec.decode [(oneFile.metadata oneFileV5, oneFileMetadata)]
  decodeSignature := TableCodec.decode []

theorem oneFile_inverse : SectionInverse oneFileEncoders oneFileCodecs where
  payload := TableCodec.decode_encode (TableCodec.apart_single (by decide))
  metadata := TableCodec.decode_encode (TableCodec.apart_single (by decide))
  signature := TableCodec.decode_encode TableCodec.apart_nil

theorem sectionsV5_oneFile : oneFile.sectionsV5 oneFileEncoders oneFileV5 =
    [(.payloadV5, oneFilePayload), (.metadata, oneFileMetadata)] := by
  have hpayload : oneFileEncoders.encodePayload (oneFile.payload oneFileV5) = oneFilePayload :=
    TableCodec.encode_given (oneFile.payload oneFileV5, oneFilePayload) []
  have hmetadata : oneFileEncoders.encodeMetadata (oneFile.metadata oneFileV5) =
      oneFileMetadata :=
    TableCodec.encode_given (oneFile.metadata oneFileV5, oneFileMetadata) []
  rw [ManifestContent.sectionsV5, hpayload, hmetadata]
  rfl

theorem parse_layouts_sample :
    DepotManifest.parse oneFileCodecs (oneFile.layoutV4 oneFileV4) = .ok oneFile.manifest ∧
      DepotManifest.parse oneFileCodecs (oneFile.layoutV5 oneFileEncoders oneFileV5) =
        .ok oneFile.manifest := by
  apply DepotManifest.parse_layouts oneFile_inverse oneFile oneFileV4 oneFileV5
  · decide
  · rw [sectionsV5_oneFile]
    intro part hmem
    rcases List.mem_cons.mp hmem with rfl | hmem
    · decide
    · rw [List.mem_singleton.mp hmem]
      decide

end DepotDownloader.Steam
