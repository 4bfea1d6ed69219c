import DepotDownloader.Steam.Depot.ManifestLayouts

/-! # What the manifest parser accepts

A v4 manifest is accepted when its mappings reach the size that its header gives;
where the last one ends, and what stands behind it, is not looked at. A v5 manifest
is accepted exactly when it is a sequence of sections up to the end magic.
-/

namespace DepotDownloader.Steam

open Foundation WireInt

section Steps

variable {ε α β : Type} {value : α} {result : β}

@[simp] theorem orMissing_eq_ok {name : String} {found : Option α} :
    orMissing name found = .ok value ↔ found = some value := by
  cases found with
  | none => simp [orMissing]
  | some found => simp [orMissing]

/-- The result does not come from a loop that was cut off. -/
def Finishes (parsed : Except ManifestError α) : Prop := parsed ≠ .error .outOfFuel

theorem finishes_ok (value : α) : Finishes (.ok value) := by
  intro heq
  cases heq

theorem finishes_orMissing (name : String) (found : Option α) :
    Finishes (orMissing name found) := by
  cases found with
  | none =>
      intro heq
      cases heq
  | some value => exact finishes_ok value

theorem Finishes.bind {first : Except ManifestError α} {next : α → Except ManifestError β}
    (hfirst : Finishes first) (hnext : ∀ value, first = .ok value → Finishes (next value)) :
    Finishes (first >>= next) := by
  cases first with
  | error error =>
      intro heq
      cases heq
      exact hfirst rfl
  | ok value => exact hnext value rfl

/-- What is missing ends a parse. -/
theorem Finishes.orMissing {name : String} {found : Option α} {next : α → Except ManifestError β}
    (hnext : ∀ value, found = some value → Finishes (next value)) :
    Finishes (Steam.orMissing name found >>= next) :=
  (finishes_orMissing name found).bind fun value hvalue => hnext value (orMissing_eq_ok.mp hvalue)

end Steps

section Reading

variable {data rest : Bytes}

theorem trySha_eq_some {sha : Vector UInt8 20} : trySha data = some sha ↔ data = sha.toList := by
  constructor
  · intro hsha
    unfold trySha at hsha
    split at hsha
    next => cases hsha; rfl
    next => cases hsha
  · rintro rfl
    exact trySha_toList sha

theorem readSha_eq_some {sha : Vector UInt8 20} :
    readSha data = some (sha, rest) ↔ data = sha.toList ++ rest := by
  constructor
  · intro hread
    simp only [readSha, Option.bind_eq_bind, Option.bind_eq_some_iff] at hread
    obtain ⟨⟨bytes, left⟩, hbytes, sha', hsha, heq⟩ := hread
    cases heq
    obtain ⟨_, rfl⟩ := readBytes_eq_some.mp hbytes
    rw [show bytes = sha.toList from trySha_eq_some.mp hsha]
  · rintro rfl
    exact readSha_append sha rest

end Reading

section V4

/-- A file mapping of the v4 layout, as its bytes have it. -/
structure RawMapping where
  name : Bytes
  nulFree : (0 : UInt8) ∉ name
  size : UInt64
  flags : UInt32
  hashContent : Vector UInt8 20
  hashFilename : Vector UInt8 20
  chunks : List ChunkEntry
  counted : chunks.length < 2 ^ 32

def RawMapping.layout (mapping : RawMapping) : Bytes :=
  mapping.name ++ 0 :: (u64.write mapping.size ++ u32.write mapping.flags ++
    mapping.hashContent.toList ++ mapping.hashFilename.toList ++
    u32.write (UInt32.ofNat mapping.chunks.length) ++ mapping.chunks.flatMap ChunkEntry.layoutV4)

/-- The header of the v4 layout, behind the magic and the version. -/
structure HeaderV4 where
  depotId : UInt32
  manifestGid : UInt64
  creationTime : UInt32
  filenamesEncrypted : UInt32
  totalUncompressed : UInt64
  totalCompressed : UInt64
  chunkCount : UInt32
  fileEntryCount : UInt32
  fileMappingSize : UInt32
  encryptedCrc : UInt32
  decryptedCrc : UInt32
  flags : UInt32

def HeaderV4.layout (header : HeaderV4) : Bytes :=
  u32.write ManifestMagic.v4.toU32 ++ u32.write 4 ++ u32.write header.depotId ++
    u64.write header.manifestGid ++ u32.write header.creationTime ++
    u32.write header.filenamesEncrypted ++ u64.write header.totalUncompressed ++
    u64.write header.totalCompressed ++ u32.write header.chunkCount ++
    u32.write header.fileEntryCount ++ u32.write header.fileMappingSize ++
    u32.write header.encryptedCrc ++ u32.write header.decryptedCrc ++ u32.write header.flags

/-- The documented layout: a header, mappings of exactly the size that it gives, and
the magic again. -/
def LayoutV4 (data : Bytes) : Prop :=
  ∃ (header : HeaderV4) (mappings : List RawMapping),
    (mappings.flatMap RawMapping.layout).length = header.fileMappingSize.toNat ∧
      data = header.layout ++ mappings.flatMap RawMapping.layout ++
        u32.write ManifestMagic.v4.toU32

/-- The size of the mappings that the header gives. -/
def declaredSize (data : Bytes) : Nat := leNat ((data.drop 52).take 4)

/-- The bytes that the mapping at the start takes: its name with the NUL, the fixed
fields, and forty bytes for each chunk that it counts. -/
def mappingLength (input : Bytes) : Nat :=
  let name := input.takeWhile (· ≠ 0)
  name.length + 57 + 40 * leNat ((input.drop (name.length + 53)).take 4)

/-- Whole mappings, told by their lengths, take the bytes up to a place. -/
inductive Boundary : Bytes → Nat → Prop where
  | start (input : Bytes) : Boundary input 0
  | step {input : Bytes} {size : Nat} (hrest : Boundary (input.drop (mappingLength input)) size) :
      Boundary input (mappingLength input + size)

theorem RawMapping.takeWhile_layout (mapping : RawMapping) (rest : Bytes) :
    (mapping.layout ++ rest).takeWhile (· ≠ 0) = mapping.name := by
  have hall : ∀ byte ∈ mapping.name, decide (byte ≠ 0) = true := by
    intro byte hmem
    apply decide_eq_true
    rintro rfl
    exact mapping.nulFree hmem
  rw [RawMapping.layout, List.append_assoc, List.takeWhile_append_of_pos hall]
  simp

theorem RawMapping.length_layout (mapping : RawMapping) :
    mapping.layout.length = mapping.name.length + 57 + 40 * mapping.chunks.length := by
  have hchunks : (mapping.chunks.flatMap ChunkEntry.layoutV4).length =
      40 * mapping.chunks.length := by
    induction mapping.chunks with
    | nil => rfl
    | cons entry entries ih =>
        rw [List.flatMap_cons, List.length_append, ih, List.length_cons]
        simp only [ChunkEntry.layoutV4, List.length_append, Vector.length_toList, length_write, u32,
          u64]
        omega
  simp only [RawMapping.layout, List.length_append, List.length_cons, Vector.length_toList,
    length_write, hchunks, u32, u64]
  omega

/-- The bytes of a mapping tell how many they are. -/
theorem mappingLength_layout (mapping : RawMapping) (rest : Bytes) :
    mappingLength (mapping.layout ++ rest) = mapping.layout.length := by
  let front := mapping.name ++ 0 :: (u64.write mapping.size ++ u32.write mapping.flags ++
    mapping.hashContent.toList ++ mapping.hashFilename.toList)
  have hfront : front.length = mapping.name.length + 53 := by
    simp [front, u32, u64]
  have hlayout : mapping.layout ++ rest = front ++
      (u32.write (UInt32.ofNat mapping.chunks.length) ++
        (mapping.chunks.flatMap ChunkEntry.layoutV4 ++ rest)) := by
    simp [front, RawMapping.layout]
  have hcount : (UInt32.ofNat mapping.chunks.length).toNat = mapping.chunks.length :=
    UInt32.toNat_ofNat_of_lt' mapping.counted
  rw [mappingLength, mapping.takeWhile_layout, ← hfront, hlayout, leNat_field, hcount,
    mapping.length_layout]

theorem boundary_layouts (mappings : List RawMapping) (rest : Bytes) :
    Boundary (mappings.flatMap RawMapping.layout ++ rest)
      (mappings.flatMap RawMapping.layout).length := by
  induction mappings with
  | nil => exact .start _
  | cons mapping mappings ih =>
      have hlength := mappingLength_layout mapping (mappings.flatMap RawMapping.layout ++ rest)
      rw [List.flatMap_cons, List.append_assoc, List.length_append, ← hlength]
      apply Boundary.step
      rw [hlength, List.drop_left]
      exact ih

theorem declaredSize_header (header : HeaderV4) (rest : Bytes) :
    declaredSize (header.layout ++ rest) = header.fileMappingSize.toNat := by
  let front := u32.write ManifestMagic.v4.toU32 ++ u32.write 4 ++ u32.write header.depotId ++
    u64.write header.manifestGid ++ u32.write header.creationTime ++
    u32.write header.filenamesEncrypted ++ u64.write header.totalUncompressed ++
    u64.write header.totalCompressed ++ u32.write header.chunkCount ++
    u32.write header.fileEntryCount
  have hfront : front.length = 52 := by
    simp [front, u32, u64]
  have hlayout : header.layout ++ rest = front ++ (u32.write header.fileMappingSize ++
      (u32.write header.encryptedCrc ++ u32.write header.decryptedCrc ++
        u32.write header.flags ++ rest)) := by
    simp [front, HeaderV4.layout]
  rw [declaredSize, hlayout, ← hfront, leNat_field]

theorem HeaderV4.length_layout (header : HeaderV4) : header.layout.length = 68 := by
  simp [HeaderV4.layout, u32, u64]

theorem LayoutV4.marker {data : Bytes} (hlayout : LayoutV4 data) :
    data.drop (68 + declaredSize data) = u32.write ManifestMagic.v4.toU32 := by
  obtain ⟨header, mappings, hsize, rfl⟩ := hlayout
  rw [List.append_assoc, declaredSize_header, ← hsize, ← List.drop_drop,
    List.drop_left' header.length_layout, List.drop_left]

theorem LayoutV4.boundary {data : Bytes} (hlayout : LayoutV4 data) :
    Boundary (data.drop 68) (declaredSize data) := by
  obtain ⟨header, mappings, hsize, rfl⟩ := hlayout
  rw [List.append_assoc, declaredSize_header, ← hsize, List.drop_left' header.length_layout]
  exact boundary_layouts mappings _

namespace DepotManifest

variable {input rest : Bytes}

theorem parseChunkV4_eq_ok {chunk : ManifestChunk}
    (hparse : parseChunkV4 input = .ok (chunk, rest)) :
    ∃ entry : ChunkEntry, entry.chunk = chunk ∧ input = entry.layoutV4 ++ rest := by
  simp only [parseChunkV4, bind_eq_ok, orMissing_eq_ok, Prod.exists, readSha_eq_some,
    read_eq_some] at hparse
  obtain ⟨sha, _, rfl, checksum, _, rfl, offset, _, rfl, uncompressedSize, _, rfl,
    compressedSize, _, rfl, heq⟩ := hparse
  cases heq
  exact ⟨⟨⟨sha⟩, checksum, offset, compressedSize, uncompressedSize⟩, rfl,
    by simp [ChunkEntry.layoutV4]⟩

theorem parseChunksV4_eq_ok {count : Nat} {chunks : List ManifestChunk}
    (hparse : parseChunksV4 count input = .ok (chunks, rest)) :
    ∃ entries : List ChunkEntry, entries.length = count ∧ entries.map ChunkEntry.chunk = chunks ∧
      input = entries.flatMap ChunkEntry.layoutV4 ++ rest := by
  induction count generalizing input chunks with
  | zero =>
      cases hparse
      exact ⟨[], rfl, rfl, rfl⟩
  | succ count ih =>
      simp only [parseChunksV4, bind_eq_ok, Prod.exists] at hparse
      obtain ⟨chunk, middle, hchunk, others, left, hothers, heq⟩ := hparse
      cases heq
      obtain ⟨entry, rfl, rfl⟩ := parseChunkV4_eq_ok hchunk
      obtain ⟨entries, hcount, rfl, rfl⟩ := ih hothers
      exact ⟨entry :: entries, by rw [List.length_cons, hcount], rfl, by simp⟩

theorem parseFileV4_eq_ok {file : ManifestFile} (hparse : parseFileV4 input = .ok (file, rest)) :
    ∃ mapping : RawMapping, input = mapping.layout ++ rest := by
  simp only [parseFileV4, bind_eq_ok, orMissing_eq_ok, Prod.exists, readNullTerminated_eq_some,
    readSha_eq_some, read_eq_some] at hparse
  obtain ⟨name, _, ⟨hname, rfl⟩, size, _, rfl, flags, _, rfl, hashContent, _, rfl, hashFilename,
    _, rfl, count, _, rfl, chunks, left, hchunks, heq⟩ := hparse
  cases heq
  obtain ⟨entries, hcount, _, rfl⟩ := parseChunksV4_eq_ok hchunks
  refine ⟨⟨name, hname, size, flags, hashContent, hashFilename, entries, ?_⟩, ?_⟩
  · rw [hcount]
    exact count.toNat_lt
  · simp [RawMapping.layout, hcount]

/-- The loop has taken whole mappings when it is done: at a boundary it stops there. -/
theorem parseFilesV4_boundary {size fuel consumed : Nat} {files : List ManifestFile}
    (hparse : parseFilesV4 (consumed + size) fuel consumed input = .ok files)
    (hboundary : Boundary input size) :
    ∃ mappings : List RawMapping, (mappings.flatMap RawMapping.layout).length = size ∧
      ∃ rest, input = mappings.flatMap RawMapping.layout ++ rest := by
  induction fuel generalizing input consumed size files with
  | zero => cases hparse
  | succ fuel ih =>
      cases hboundary with
      | start => exact ⟨[], rfl, input, rfl⟩
      | @step _ size hrest =>
          by_cases hmore : mappingLength input + size = 0
          · rw [hmore]
            exact ⟨[], rfl, input, rfl⟩
          · rw [parseFilesV4, if_pos (by omega)] at hparse
            simp only [bind_eq_ok, Prod.exists] at hparse
            obtain ⟨file, rest, hfile, others, hothers, _⟩ := hparse
            obtain ⟨mapping, rfl⟩ := parseFileV4_eq_ok hfile
            rw [mappingLength_layout, List.drop_left] at hrest
            rw [mappingLength_layout, ← Nat.add_assoc, List.length_append,
              Nat.add_sub_cancel] at hothers
            obtain ⟨mappings, hlength, behind, rfl⟩ := ih hothers hrest
            refine ⟨mapping :: mappings, ?_, behind, ?_⟩
            · rw [List.flatMap_cons, List.length_append, hlength, mappingLength_layout]
            · rw [List.flatMap_cons, List.append_assoc]

/-- Reading the fields of a v4 manifest only misses fields. -/
theorem parseChunksV4_finishes (count : Nat) : Finishes (parseChunksV4 count input) := by
  induction count generalizing input with
  | zero => exact finishes_ok _
  | succ count ih =>
      rw [parseChunksV4]
      refine .bind ?_ fun _ _ => ih.bind fun _ _ => finishes_ok _
      unfold parseChunkV4
      iterate 5 refine .orMissing fun _ _ => ?_
      exact finishes_ok _

theorem parseFileV4_finishes : Finishes (parseFileV4 input) := by
  unfold parseFileV4
  iterate 6 refine .orMissing fun _ _ => ?_
  exact (parseChunksV4_finishes _).bind fun _ _ => finishes_ok _

theorem length_mapping_pos (mapping : RawMapping) : 0 < mapping.layout.length := by
  simp [RawMapping.layout]

/-- The loop is never cut off: a mapping takes bytes. -/
theorem parseFilesV4_finishes {size fuel consumed : Nat} (hfuel : input.length < fuel) :
    Finishes (parseFilesV4 size fuel consumed input) := by
  induction fuel generalizing input consumed with
  | zero => cases hfuel
  | succ fuel ih =>
      rw [parseFilesV4]
      split
      next =>
        refine parseFileV4_finishes.bind ?_
        rintro ⟨file, rest⟩ hfile
        obtain ⟨mapping, rfl⟩ := parseFileV4_eq_ok hfile
        have hrest : rest.length < fuel := by
          have hpos := length_mapping_pos mapping
          rw [List.length_append] at hfuel
          omega
        exact (ih hrest).bind fun _ _ => finishes_ok _
      next => exact finishes_ok _

theorem parseV4_finishes (data : Bytes) : Finishes (parseV4 data) := by
  unfold parseV4
  refine .orMissing fun _ _ => .orMissing ?_
  rintro ⟨version, _⟩ _
  dsimp only
  split
  next =>
    intro heq
    cases heq
  next =>
    iterate 12 refine .orMissing fun _ _ => ?_
    exact (parseFilesV4_finishes (Nat.lt_succ_self _)).bind fun _ _ => finishes_ok _

theorem parseV4_eq_ok {data : Bytes} {manifest : DepotManifest}
    (hparse : parseV4 (u32.write ManifestMagic.v4.toU32 ++ data) = .ok manifest) :
    ∃ (header : HeaderV4) (input : Bytes),
      u32.write ManifestMagic.v4.toU32 ++ data = header.layout ++ input ∧
      parseFilesV4 header.fileMappingSize.toNat (input.length + 1) 0 input =
        .ok manifest.files := by
  simp only [parseV4, bind_eq_ok, orMissing_eq_ok, Prod.exists, read_append, Option.some.injEq,
    Prod.mk.injEq] at hparse
  obtain ⟨_, _, ⟨rfl, rfl⟩, version, _, hversion, hparse⟩ := hparse
  split at hparse
  next => cases hparse
  next hfour =>
    simp only [bind_eq_ok, orMissing_eq_ok, Prod.exists, read_eq_some] at hparse hversion
    obtain ⟨depotId, _, rfl, manifestGid, _, rfl, creationTime, _, rfl, filenamesEncrypted, _,
      rfl, totalUncompressed, _, rfl, totalCompressed, _, rfl, chunkCount, _, rfl,
      fileEntryCount, _, rfl, fileMappingSize, _, rfl, encryptedCrc, _, rfl, decryptedCrc, _, rfl,
      flags, input, rfl, files, hfiles, heq⟩ := hparse
    cases heq
    rw [not_not] at hfour
    subst hfour hversion
    exact ⟨⟨depotId, manifestGid, creationTime, filenamesEncrypted, totalUncompressed,
      totalCompressed, chunkCount, fileEntryCount, fileMappingSize, encryptedCrc, decryptedCrc,
      flags⟩, input, by simp [HeaderV4.layout], hfiles⟩

/-- What is accepted as a v4 manifest has the documented layout exactly when the marker
stands right behind the declared size, at the very end, and a mapping ends there. -/
theorem parse_v4_layout_iff {codecs : SectionCodecs} {data : Bytes} {manifest : DepotManifest}
    (hmagic : ∃ behind, data = u32.write ManifestMagic.v4.toU32 ++ behind)
    (hparse : parse codecs data = .ok manifest) :
    LayoutV4 data ↔
      data.drop (68 + declaredSize data) = u32.write ManifestMagic.v4.toU32 ∧
        Boundary (data.drop 68) (declaredSize data) := by
  obtain ⟨behind, rfl⟩ := hmagic
  rw [parse, read_append] at hparse
  simp only [if_true] at hparse
  constructor
  · intro hlayout
    exact ⟨hlayout.marker, hlayout.boundary⟩
  -- the loop stops at the first end of a mapping that is not before the declared end
  · rintro ⟨hmarker, hboundary⟩
    obtain ⟨header, input, hdata, hfiles⟩ := parseV4_eq_ok hparse
    rw [hdata, declaredSize_header, ← List.drop_drop, List.drop_left' header.length_layout]
      at hmarker
    rw [hdata, declaredSize_header, List.drop_left' header.length_layout] at hboundary
    rw [← Nat.zero_add header.fileMappingSize.toNat] at hfiles
    obtain ⟨mappings, hsize, rest, rfl⟩ := parseFilesV4_boundary hfiles hboundary
    rw [← hsize, List.drop_left] at hmarker
    exact ⟨header, mappings, hsize, by rw [hdata, hmarker, List.append_assoc]⟩

end DepotManifest

theorem parse_v4_layout_iff_sample :
    LayoutV4 (oneFile.layoutV4 oneFileV4) ↔
      (oneFile.layoutV4 oneFileV4).drop (68 + declaredSize (oneFile.layoutV4 oneFileV4)) =
        u32.write ManifestMagic.v4.toU32 ∧
      Boundary ((oneFile.layoutV4 oneFileV4).drop 68)
        (declaredSize (oneFile.layoutV4 oneFileV4)) := by
  have hparse : DepotManifest.parse oneFileCodecs (oneFile.layoutV4 oneFileV4) =
      .ok oneFile.manifest := by decide +kernel
  exact DepotManifest.parse_v4_layout_iff ⟨_, rfl⟩ hparse

/-- The manifest is accepted with its last bytes cut off, with a wrong marker, and with
a declared size that ends within the mapping. -/
theorem parse_v4_unterminated :
    let mapped := (oneFile.layoutV4 oneFileV4).take 166
    let short := (oneFile.layoutV4 oneFileV4).set 52 1
    DepotManifest.parse oneFileCodecs mapped = .ok oneFile.manifest ∧ ¬LayoutV4 mapped ∧
    DepotManifest.parse oneFileCodecs (mapped ++ [0, 0, 0, 0]) = .ok oneFile.manifest ∧
      ¬LayoutV4 (mapped ++ [0, 0, 0, 0]) ∧
    DepotManifest.parse oneFileCodecs short = .ok oneFile.manifest ∧ ¬LayoutV4 short := by
  refine ⟨by decide +kernel, ?_, by decide +kernel, ?_, by decide +kernel, ?_⟩
  · intro hlayout
    exact absurd hlayout.marker (by decide +kernel)
  · intro hlayout
    exact absurd hlayout.marker (by decide +kernel)
  · intro hlayout
    exact absurd hlayout.marker (by decide +kernel)

end V4

section V5

variable (codecs : SectionCodecs)

/-- The message of a payload section. -/
def payloadOf (part : ManifestMagic × Bytes) : Option ContentManifestPayload :=
  match part.1 with
  | .payloadV5 => codecs.decodePayload part.2
  | _ => none

/-- The message of a metadata section. -/
def metadataOf (part : ManifestMagic × Bytes) : Option ContentManifestMetadata :=
  match part.1 with
  | .metadata => codecs.decodeMetadata part.2
  | _ => none

/-- A section whose bytes decode as its message, of a length that can be written. -/
structure ValidSection (part : ManifestMagic × Bytes) : Prop where
  length : part.2.length < 2 ^ 32
  decodes : match part.1 with
    | .payloadV5 => (codecs.decodePayload part.2).isSome
    | .metadata => (codecs.decodeMetadata part.2).isSome
    | .signature => (codecs.decodeSignature part.2).isSome
    | _ => False

/-- The manifest that a payload and a metadata message make up. -/
def DepotManifest.ofMessages (payload : ContentManifestPayload)
    (metadata : ContentManifestMetadata) : DepotManifest where
  depotId := metadata.depotId.map DepotId.mk
  manifestId := metadata.gidManifest.map ManifestId.mk
  creationTime := metadata.creationTime.map UInt32.toNat
  filenamesEncrypted := metadata.filenamesEncrypted.getD false
  totalUncompressedSize := metadata.cbDiskOriginal.map UInt64.toNat
  totalCompressedSize := metadata.cbDiskCompressed.map UInt64.toNat
  files := payload.mappings.map ManifestFile.ofFileMapping

variable {codecs}

theorem ValidSection.ne_end {part : ManifestMagic × Bytes} (hvalid : ValidSection codecs part) :
    part.1 ≠ .endOfManifest := by
  intro hend
  have hdecodes := hvalid.decodes
  rw [hend] at hdecodes
  exact hdecodes

theorem getLast?_filterMap_cons {α β : Type} (f : α → Option β) (head : α) (tail : List α) :
    ((head :: tail).filterMap f).getLast? = (tail.filterMap f).getLast?.or (f head) := by
  cases hhead : f head with
  | none => rw [List.filterMap_cons_none hhead, Option.or_none]
  | some value =>
      rw [List.filterMap_cons_some hhead, List.getLast?_cons]
      cases (tail.filterMap f).getLast? <;> rfl

theorem ManifestMagic.toU32_of_fromU32 {value : UInt32} {magic : ManifestMagic}
    (hmagic : ManifestMagic.fromU32 value = some magic) : magic.toU32 = value := by
  unfold ManifestMagic.fromU32 at hmagic
  apply UInt32.toNat.inj
  split at hmagic
  next hvalue => cases hmagic; exact hvalue.symm
  next hvalue => cases hmagic; exact hvalue.symm
  next hvalue => cases hmagic; exact hvalue.symm
  next hvalue => cases hmagic; exact hvalue.symm
  next hvalue => cases hmagic; exact hvalue.symm
  next => cases hmagic

namespace DepotManifest

variable {input rest : Bytes} {payload : Option ContentManifestPayload}
  {metadata : Option ContentManifestMetadata}

/-- One turn of the loop: a valid section replaces the messages of its kind. -/
theorem parseSections_valid {part : ManifestMagic × Bytes} (hvalid : ValidSection codecs part)
    (fuel : Nat) (rest : Bytes) :
    parseSections codecs (fuel + 1) payload metadata (ManifestContent.sectionBytes part ++ rest) =
      parseSections codecs fuel ((payloadOf codecs part).or payload)
        ((metadataOf codecs part).or metadata) rest := by
  rw [parseSections_section hvalid.length hvalid.ne_end]
  obtain ⟨magic, bytes⟩ := part
  have hdecodes := hvalid.decodes
  cases magic with
  | payloadV5 =>
      obtain ⟨found, hfound⟩ := Option.isSome_iff_exists.mp hdecodes
      simp only [hfound, payloadOf, metadataOf]
      rfl
  | metadata =>
      obtain ⟨found, hfound⟩ := Option.isSome_iff_exists.mp hdecodes
      simp only [hfound, payloadOf, metadataOf]
      rfl
  | signature =>
      obtain ⟨found, hfound⟩ := Option.isSome_iff_exists.mp hdecodes
      simp only [hfound, payloadOf, metadataOf]
      rfl
  | endOfManifest => exact hdecodes.elim
  | v4 => exact hdecodes.elim

/-- A turn of the loop that does not fail has read a valid section or the end magic. -/
theorem parseSections_head {fuel : Nat}
    {result : Option ContentManifestPayload × Option ContentManifestMetadata}
    (hparse : parseSections codecs (fuel + 1) payload metadata input = .ok result) :
    (∃ rest, input = u32.write ManifestMagic.endOfManifest.toU32 ++ rest) ∨
      ∃ part rest, ValidSection codecs part ∧
        input = ManifestContent.sectionBytes part ++ rest := by
  simp only [parseSections, bind_eq_ok, orMissing_eq_ok, Prod.exists, read_eq_some] at hparse
  obtain ⟨magic, input, rfl, hparse⟩ := hparse
  split at hparse
  next hend =>
    left
    exact ⟨input, by rw [hend]⟩
  next hend =>
    right
    simp only [bind_eq_ok, orMissing_eq_ok, Prod.exists, read_eq_some, readBytes_eq_some] at hparse
    obtain ⟨length, _, rfl, bytes, rest, ⟨hlength, rfl⟩, hparse⟩ := hparse
    have hcounted : bytes.length < 2 ^ 32 := by
      rw [hlength]
      exact length.toNat_lt
    have hbytes : u32.write magic ++ (u32.write length ++ (bytes ++ rest)) =
        u32.write magic ++ u32.write (UInt32.ofNat bytes.length) ++ bytes ++ rest := by
      simp [hlength]
    rw [hbytes]
    split at hparse
    next hmagic =>
      simp only [bind_eq_ok, orMissing_eq_ok] at hparse
      obtain ⟨found, hfound, _⟩ := hparse
      rw [← ManifestMagic.toU32_of_fromU32 hmagic]
      exact ⟨(.payloadV5, bytes), rest, ⟨hcounted, Option.isSome_of_eq_some hfound⟩, rfl⟩
    next hmagic =>
      simp only [bind_eq_ok, orMissing_eq_ok] at hparse
      obtain ⟨found, hfound, _⟩ := hparse
      rw [← ManifestMagic.toU32_of_fromU32 hmagic]
      exact ⟨(.metadata, bytes), rest, ⟨hcounted, Option.isSome_of_eq_some hfound⟩, rfl⟩
    next hmagic =>
      simp only [bind_eq_ok, orMissing_eq_ok] at hparse
      obtain ⟨found, hfound, _⟩ := hparse
      rw [← ManifestMagic.toU32_of_fromU32 hmagic]
      exact ⟨(.signature, bytes), rest, ⟨hcounted, Option.isSome_of_eq_some hfound⟩, rfl⟩
    next => cases hparse

theorem parseSections_endMagic (fuel : Nat) (rest : Bytes) :
    parseSections codecs (fuel + 1) payload metadata
      (u32.write ManifestMagic.endOfManifest.toU32 ++ rest) = .ok (payload, metadata) := by
  simp only [parseSections, read_append, orMissing_some, bind, Except.bind, if_true]
  rfl

/-- The messages that a sequence of sections leaves, behind the ones from before. -/
def lastMessages (codecs : SectionCodecs) (parts : List (ManifestMagic × Bytes))
    (payload : Option ContentManifestPayload) (metadata : Option ContentManifestMetadata) :
    Option ContentManifestPayload × Option ContentManifestMetadata :=
  (((parts.filterMap (payloadOf codecs)).getLast?).or payload,
    ((parts.filterMap (metadataOf codecs)).getLast?).or metadata)

theorem lastMessages_cons (part : ManifestMagic × Bytes) (parts : List (ManifestMagic × Bytes)) :
    lastMessages codecs (part :: parts) payload metadata =
      lastMessages codecs parts ((payloadOf codecs part).or payload)
        ((metadataOf codecs part).or metadata) := by
  rw [lastMessages, lastMessages, getLast?_filterMap_cons, getLast?_filterMap_cons,
    Option.or_assoc, Option.or_assoc]

/-- Reading sections up to the end magic, by induction on them. -/
theorem parseSections_parts {parts : List (ManifestMagic × Bytes)}
    (hvalid : ∀ part ∈ parts, ValidSection codecs part) {fuel : Nat} (hfuel : parts.length < fuel)
    (rest : Bytes) :
    parseSections codecs fuel payload metadata (parts.flatMap ManifestContent.sectionBytes ++
        (u32.write ManifestMagic.endOfManifest.toU32 ++ rest)) =
      .ok (lastMessages codecs parts payload metadata) := by
  induction parts generalizing fuel payload metadata with
  | nil =>
      obtain ⟨fuel, rfl⟩ := Nat.exists_eq_add_of_lt hfuel
      exact parseSections_endMagic _ rest
  | cons part parts ih =>
      obtain ⟨fuel, rfl⟩ : ∃ less, fuel = less + 1 := ⟨fuel - 1, by omega⟩
      have hpart := hvalid part List.mem_cons_self
      rw [List.flatMap_cons, List.append_assoc, parseSections_valid hpart, lastMessages_cons]
      apply ih
      · intro other hmem
        exact hvalid other (List.mem_cons_of_mem _ hmem)
      · rw [List.length_cons] at hfuel
        omega

/-- The loop succeeds on sequences of sections only, by induction on the fuel. -/
theorem parseSections_eq_ok {fuel : Nat}
    {result : Option ContentManifestPayload × Option ContentManifestMetadata}
    (hparse : parseSections codecs fuel payload metadata input = .ok result) :
    ∃ parts rest, (∀ part ∈ parts, ValidSection codecs part) ∧
      input = parts.flatMap ManifestContent.sectionBytes ++
        (u32.write ManifestMagic.endOfManifest.toU32 ++ rest) ∧
      result = lastMessages codecs parts payload metadata := by
  induction fuel generalizing input payload metadata with
  | zero => cases hparse
  | succ fuel ih =>
      obtain ⟨rest, rfl⟩ | ⟨part, behind, hpart, rfl⟩ := parseSections_head hparse
      -- the end magic: no further section
      · rw [parseSections_endMagic] at hparse
        cases hparse
        exact ⟨[], rest, by simp, rfl, rfl⟩
      · rw [parseSections_valid hpart] at hparse
        obtain ⟨parts, rest, hparts, rfl, rfl⟩ := ih hparse
        refine ⟨part :: parts, rest, ?_, ?_, (lastMessages_cons part parts).symm⟩
        · exact List.forall_mem_cons.mpr ⟨hpart, hparts⟩
        · rw [List.flatMap_cons, List.append_assoc]

theorem length_le_flatMap_sectionBytes (parts : List (ManifestMagic × Bytes)) :
    parts.length ≤ (parts.flatMap ManifestContent.sectionBytes).length := by
  induction parts with
  | nil => exact Nat.le_refl 0
  | cons part parts ih =>
      rw [List.flatMap_cons, List.length_append, List.length_cons]
      simp only [ManifestContent.sectionBytes, List.length_append, length_write, u32]
      omega

/-- The loop ends on its own: more fuel than there are bytes changes nothing. -/
theorem parseSections_fuel {fuel more : Nat} (hfuel : input.length < fuel) (hmore : fuel ≤ more) :
    parseSections codecs more payload metadata input =
      parseSections codecs fuel payload metadata input := by
  induction fuel generalizing input payload metadata more with
  | zero => cases hfuel
  | succ fuel ih =>
      obtain ⟨more, rfl⟩ : ∃ less, more = less + 1 := ⟨more - 1, by omega⟩
      rw [parseSections, parseSections]
      apply bind_congr_ok
      rintro ⟨magic, behindMagic⟩ hmagic
      obtain rfl := u32.read_eq_some.mp (orMissing_eq_ok.mp hmagic)
      by_cases hend : magic = ManifestMagic.endOfManifest.toU32
      · simp only [if_pos hend]
      · simp only [if_neg hend]
        apply bind_congr_ok
        rintro ⟨length, behindLength⟩ hlength
        obtain rfl := u32.read_eq_some.mp (orMissing_eq_ok.mp hlength)
        apply bind_congr_ok
        rintro ⟨bytes, rest⟩ hbytes
        obtain ⟨_, rfl⟩ := readBytes_eq_some.mp (orMissing_eq_ok.mp hbytes)
        have hrest : rest.length < fuel := by
          simp only [List.length_append, length_write, u32] at hfuel
          omega
        have hless : fuel ≤ more := by omega
        simp only [ih hrest hless]

/-- The loop is never cut off: what is left of the fuel stays above what is left of the
bytes. -/
theorem parseSections_finishes {fuel : Nat} (hfuel : input.length < fuel) :
    Finishes (parseSections codecs fuel payload metadata input) := by
  induction fuel generalizing input payload metadata with
  | zero => cases hfuel
  | succ fuel ih =>
      rw [parseSections]
      refine .orMissing ?_
      rintro ⟨magic, behindMagic⟩ hmagic
      obtain rfl := u32.read_eq_some.mp hmagic
      dsimp only
      split
      next => exact finishes_ok _
      next =>
        refine .orMissing ?_
        rintro ⟨length, behindLength⟩ hlength
        obtain rfl := u32.read_eq_some.mp hlength
        refine .orMissing ?_
        rintro ⟨bytes, rest⟩ hbytes
        obtain ⟨_, rfl⟩ := readBytes_eq_some.mp hbytes
        have hrest : rest.length < fuel := by
          simp only [List.length_append, length_write, u32] at hfuel
          omega
        dsimp only
        split
        next => exact .orMissing fun _ _ => ih hrest
        next => exact .orMissing fun _ _ => ih hrest
        next => exact .orMissing fun _ _ => ih hrest
        next =>
          intro heq
          cases heq

theorem parseV5_eq_ok {data : Bytes} {manifest : DepotManifest} :
    parseV5 codecs data = .ok manifest ↔ ∃ payload metadata,
      parseSections codecs (data.length + 1) none none data = .ok (some payload, some metadata) ∧
        manifest = ofMessages payload metadata := by
  simp only [parseV5, bind_eq_ok, orMissing_eq_ok, Prod.exists]
  constructor
  · rintro ⟨_, _, hsections, payload, rfl, metadata, rfl, heq⟩
    cases heq
    exact ⟨payload, metadata, hsections, rfl⟩
  · rintro ⟨payload, metadata, hsections, rfl⟩
    exact ⟨_, _, hsections, payload, rfl, metadata, rfl, rfl⟩

/-- Every parse ends on its own: no loop of the parser is cut off. -/
theorem parse_finishes (codecs : SectionCodecs) (data : Bytes) : Finishes (parse codecs data) := by
  unfold parse
  split
  next =>
    intro heq
    cases heq
  next =>
    split
    next => exact parseV4_finishes data
    next =>
      refine (parseSections_finishes (Nat.lt_succ_self _)).bind fun _ _ => ?_
      iterate 2 refine .orMissing fun _ _ => ?_
      exact finishes_ok _

/-- A manifest of the v5 format is accepted exactly when it is a sequence of valid
sections, with a payload and a metadata among them, up to the end magic. The last of
each kind make the manifest. The loop ends whatever the bytes are. -/
theorem parse_sections_iff {codecs : SectionCodecs} {data : Bytes}
    (hmagic : ¬∃ behind, data = u32.write ManifestMagic.v4.toU32 ++ behind) :
    (∀ manifest, parse codecs data = .ok manifest ↔
      ∃ (parts : List (ManifestMagic × Bytes)) (rest : Bytes) (payload : ContentManifestPayload)
        (metadata : ContentManifestMetadata),
        (∀ part ∈ parts, ValidSection codecs part) ∧
        data = parts.flatMap ManifestContent.sectionBytes ++
          (u32.write ManifestMagic.endOfManifest.toU32 ++ rest) ∧
        (parts.filterMap (payloadOf codecs)).getLast? = some payload ∧
        (parts.filterMap (metadataOf codecs)).getLast? = some metadata ∧
        manifest = ofMessages payload metadata) ∧
    ∀ fuel, data.length < fuel →
      parseSections codecs fuel none none data =
        parseSections codecs (data.length + 1) none none data := by
  constructor
  · intro manifest
    constructor
    · intro hparse
      unfold parse at hparse
      split at hparse
      next => cases hparse
      next magic behind hread =>
        have hfirst : magic ≠ ManifestMagic.v4.toU32 := by
          rintro rfl
          exact hmagic ⟨behind, u32.read_eq_some.mp hread⟩
        rw [if_neg hfirst] at hparse
        obtain ⟨payload, metadata, hsections, rfl⟩ := parseV5_eq_ok.mp hparse
        obtain ⟨parts, rest, hvalid, hdata, hlast⟩ := parseSections_eq_ok hsections
        simp only [lastMessages, Option.or_none, Prod.mk.injEq] at hlast
        exact ⟨parts, rest, payload, metadata, hvalid, hdata, hlast.1.symm, hlast.2.symm, rfl⟩
    · rintro ⟨parts, rest, payload, metadata, hvalid, hdata, hpayload, hmetadata, rfl⟩
      -- a section takes at least a byte, so the fuel of the loop is enough
      have hcount := length_le_flatMap_sectionBytes parts
      have hsections : parseSections codecs (data.length + 1) none none data =
          .ok (some payload, some metadata) := by
        have hfuel : parts.length < data.length + 1 := by
          rw [hdata, List.length_append]
          omega
        have hlast : lastMessages codecs parts none none = (some payload, some metadata) := by
          rw [lastMessages, Option.or_none, Option.or_none, hpayload, hmetadata]
        rw [← hlast, hdata]
        rw [hdata] at hfuel
        exact parseSections_parts hvalid hfuel rest
      have hparse := parseV5_eq_ok.mpr ⟨payload, metadata, hsections, rfl⟩
      unfold parse
      split
      next hread =>
        rw [u32.read_eq_none, hdata] at hread
        simp [u32] at hread
        omega
      next magic behind hread =>
        have hfirst : magic ≠ ManifestMagic.v4.toU32 := by
          rintro rfl
          exact hmagic ⟨behind, u32.read_eq_some.mp hread⟩
        rw [if_neg hfirst, hparse]
  · intro fuel hfuel
    exact parseSections_fuel (Nat.lt_succ_self _) hfuel

end DepotManifest

/-- The sections of a manifest with one file, the metadata in front. -/
def oneFileSections : Bytes :=
  ManifestContent.sectionBytes (.metadata, oneFileMetadata) ++
    ManifestContent.sectionBytes (.payloadV5, oneFilePayload) ++
    u32.write ManifestMagic.endOfManifest.toU32

theorem parse_sections_iff_sample :
    (∀ manifest, DepotManifest.parse oneFileCodecs oneFileSections = .ok manifest ↔
      ∃ (parts : List (ManifestMagic × Bytes)) (rest : Bytes) (payload : ContentManifestPayload)
        (metadata : ContentManifestMetadata),
        (∀ part ∈ parts, ValidSection oneFileCodecs part) ∧
        oneFileSections = parts.flatMap ManifestContent.sectionBytes ++
          (u32.write ManifestMagic.endOfManifest.toU32 ++ rest) ∧
        (parts.filterMap (payloadOf oneFileCodecs)).getLast? = some payload ∧
        (parts.filterMap (metadataOf oneFileCodecs)).getLast? = some metadata ∧
        manifest = DepotManifest.ofMessages payload metadata) ∧
    ∀ fuel, oneFileSections.length < fuel →
      DepotManifest.parseSections oneFileCodecs fuel none none oneFileSections =
        DepotManifest.parseSections oneFileCodecs (oneFileSections.length + 1) none none
          oneFileSections := by
  apply DepotManifest.parse_sections_iff
  rintro ⟨behind, hdata⟩
  have hfirst : oneFileSections.take 4 = u32.write ManifestMagic.v4.toU32 := by
    rw [hdata]
    exact List.take_left' (u32.length_write _)
  exact absurd hfirst (by decide +kernel)

end V5

end DepotDownloader.Steam
