import DepotDownloader.Steam.ChecksumSums
import DepotDownloader.Steam.LittleEndian
import DepotDownloader.Steam.Sealing

/-! # Chunk containers

A payload is put into one of three containers or left as it is, and then sealed.
Processing the chunk takes it out again. An uncompressed payload must not look like
a container.
-/

namespace DepotDownloader.Steam

open Foundation

/-- The container holds the payload: as a Zstandard frame, as LZMA data, as the entry
of an archive, or plainly. The checksums in the headers and footers are not read. -/
inductive Contains (codecs : Codecs) (payload : Bytes) : Bytes → Prop where
  | vzstd {crc frame footer : Bytes} (hcrc : crc.length = 4) (hfooter : footer.length = 15)
      (hframe : codecs.zstdDecodeAll frame = some payload) :
      Contains codecs payload (ChunkCompression.vzstdMagic ++ crc ++ frame ++ footer)
  | lzma {crc props compressed crcEnd magicEnd : Bytes} (hcrc : crc.length = 4)
      (hprops : props.length = 5) (hcrcEnd : crcEnd.length = 4) (hmagicEnd : magicEnd.length = 2)
      (hstream : codecs.lzmaDecompress (props ++ toLeBytes 8 payload.length ++ compressed) =
        some payload) :
      Contains codecs payload (ChunkCompression.lzmaMagic ++ crc ++ props ++ compressed ++
        crcEnd ++ toLeBytes 4 payload.length ++ magicEnd)
  | zip {archive : Bytes} (hmagic : archive.take 4 = ChunkCompression.zipMagic)
      (hentry : codecs.zipFirst archive = .entry payload) : Contains codecs payload archive
  | raw (hplain : ChunkCompression.detect payload = .none) : Contains codecs payload payload

section Detection

theorem detect_vzstd (rest : Bytes) :
    ChunkCompression.detect (ChunkCompression.vzstdMagic ++ rest) = .vzstd := by
  have hfirst : (ChunkCompression.vzstdMagic ++ rest).take 4 = ChunkCompression.vzstdMagic :=
    List.take_left' rfl
  rw [ChunkCompression.detect, if_pos hfirst]

theorem detect_zip {data : Bytes} (hmagic : data.take 4 = ChunkCompression.zipMagic) :
    ChunkCompression.detect data = .zip := by
  have hother : ¬data.take 4 = ChunkCompression.vzstdMagic := by
    rw [hmagic]
    decide
  rw [ChunkCompression.detect, if_neg hother, if_pos hmagic]

/-- The third byte tells LZMA data from an archive and from a Zstandard frame. -/
theorem detect_lzma (rest : Bytes) :
    ChunkCompression.detect (ChunkCompression.lzmaMagic ++ rest) = .lzma := by
  have hfirst : (ChunkCompression.lzmaMagic ++ rest).take 3 = ChunkCompression.lzmaMagic :=
    List.take_left' rfl
  have hother : ∀ magic : Bytes, magic.take 3 ≠ ChunkCompression.lzmaMagic →
      ¬(ChunkCompression.lzmaMagic ++ rest).take 4 = magic := by
    rintro magic hmagic rfl
    rw [List.take_take] at hmagic
    exact hmagic hfirst
  rw [ChunkCompression.detect, if_neg (hother _ (by decide)), if_neg (hother _ (by decide)),
    if_pos hfirst]

end Detection

section Contents

variable {codecs : Codecs} {payload container : Bytes}

/-- The header and the footer are cut off the frame. -/
theorem decompressVzstd_frame {crc frame footer : Bytes} (hcrc : crc.length = 4)
    (hfooter : footer.length = 15) (hframe : codecs.zstdDecodeAll frame = some payload) :
    decompressVzstd codecs (ChunkCompression.vzstdMagic ++ crc ++ frame ++ footer) =
      .ok payload := by
  have hheader : (ChunkCompression.vzstdMagic ++ crc).length = 8 := by
    rw [List.length_append, hcrc]
    rfl
  have hlength : (ChunkCompression.vzstdMagic ++ crc ++ frame ++ footer).length =
      (ChunkCompression.vzstdMagic ++ crc ++ frame).length + 15 := by
    rw [List.length_append, hfooter]
  have hlong : ¬(ChunkCompression.vzstdMagic ++ crc ++ frame ++ footer).length < 8 + 15 := by
    simp only [List.length_append] at hheader hlength ⊢
    omega
  rw [decompressVzstd, if_neg hlong, hlength, Nat.add_sub_cancel, List.take_left,
    List.drop_left' hheader, hframe]

/-- The stream for the library is put together from the header and the footer. -/
theorem lzmaStream_container {crc props compressed crcEnd magicEnd : Bytes} (hcrc : crc.length = 4)
    (hprops : props.length = 5) (hcrcEnd : crcEnd.length = 4) (hmagicEnd : magicEnd.length = 2)
    (hsize : payload.length < 2 ^ 32) :
    lzmaStream (ChunkCompression.lzmaMagic ++ crc ++ props ++ compressed ++ crcEnd ++
        toLeBytes 4 payload.length ++ magicEnd) =
      props ++ toLeBytes 8 payload.length ++ compressed := by
  have hmagic : (ChunkCompression.lzmaMagic ++ crc).length = 7 := by
    rw [List.length_append, hcrc]
    rfl
  have hheader : (ChunkCompression.lzmaMagic ++ crc ++ props).length = 12 := by
    rw [List.length_append, hmagic, hprops]
  have hfooter : (crcEnd ++ toLeBytes 4 payload.length ++ magicEnd).length = 10 := by
    rw [List.length_append, List.length_append, hcrcEnd, hmagicEnd, length_toLeBytes]
  have hcut : ChunkCompression.lzmaMagic ++ crc ++ props ++ compressed ++ crcEnd ++
      toLeBytes 4 payload.length ++ magicEnd =
      ChunkCompression.lzmaMagic ++ crc ++ props ++ compressed ++
        (crcEnd ++ toLeBytes 4 payload.length ++ magicEnd) := by
    simp only [List.append_assoc]
  have hbody : (ChunkCompression.lzmaMagic ++ crc ++ props ++ compressed ++
      (crcEnd ++ toLeBytes 4 payload.length ++ magicEnd)).length - 10 =
      (ChunkCompression.lzmaMagic ++ crc ++ props ++ compressed).length := by
    rw [List.length_append, hfooter, Nat.add_sub_cancel]
  have hfields : (ChunkCompression.lzmaMagic ++ crc ++ props ++ compressed ++
      (crcEnd ++ toLeBytes 4 payload.length ++ magicEnd)).drop 7 = props ++ (compressed ++
        (crcEnd ++ toLeBytes 4 payload.length ++ magicEnd)) := by
    rw [List.append_assoc, List.append_assoc, List.drop_left' hmagic]
  have hnumber : leNat (toLeBytes 4 payload.length) = payload.length := leNat_toLeBytes hsize
  have hend : ((crcEnd ++ toLeBytes 4 payload.length ++ magicEnd).drop 4).take 4 =
      toLeBytes 4 payload.length := by
    rw [List.append_assoc, List.drop_left' hcrcEnd]
    exact List.take_left' (length_toLeBytes 4 _)
  rw [lzmaStream, hcut, hbody, List.drop_left, List.take_left, hend, hnumber,
    List.drop_left' hheader, hfields, List.take_left' hprops]

theorem decompressVzip_container {crc props compressed crcEnd magicEnd : Bytes}
    (hcrc : crc.length = 4) (hprops : props.length = 5) (hcrcEnd : crcEnd.length = 4)
    (hmagicEnd : magicEnd.length = 2) (hsize : payload.length < 2 ^ 32)
    (hstream : codecs.lzmaDecompress (props ++ toLeBytes 8 payload.length ++ compressed) =
      some payload) :
    decompressVzip codecs (ChunkCompression.lzmaMagic ++ crc ++ props ++ compressed ++ crcEnd ++
      toLeBytes 4 payload.length ++ magicEnd) = .ok payload := by
  have hlong : ¬(ChunkCompression.lzmaMagic ++ crc ++ props ++ compressed ++ crcEnd ++
      toLeBytes 4 payload.length ++ magicEnd).length < 7 + 5 + 10 := by
    simp only [List.length_append, length_toLeBytes, ChunkCompression.lzmaMagic, List.length_cons,
      List.length_nil]
    omega
  rw [decompressVzip, if_neg hlong,
    lzmaStream_container hcrc hprops hcrcEnd hmagicEnd hsize, hstream]

/-- Every container is recognised and opened. -/
theorem decompress_container (hsize : payload.length < 2 ^ 32)
    (hcontains : Contains codecs payload container) :
    decompress codecs container = .ok payload := by
  unfold decompress
  cases hcontains with
  | vzstd hcrc hfooter hframe =>
      rw [List.append_assoc, List.append_assoc, detect_vzstd, ← List.append_assoc,
        ← List.append_assoc]
      exact decompressVzstd_frame hcrc hfooter hframe
  | lzma hcrc hprops hcrcEnd hmagicEnd hstream =>
      have hopened := decompressVzip_container hcrc hprops hcrcEnd hmagicEnd hsize hstream
      simp only [List.append_assoc] at hopened ⊢
      rw [detect_lzma]
      exact hopened
  | zip hmagic hentry =>
      rw [detect_zip hmagic]
      simp only [decompressZip, hentry]
  | raw hplain => rw [hplain]

/-- Processing a sealed chunk gives back the payload, whatever its container, if a
payload without one does not begin like a container. -/
theorem processChunk_container {encrypt : Aes256} {key : DepotKey} {iv : Bytes}
    (haes : AesInverse encrypt codecs.aes) (hiv : iv.length = 16)
    (hsize : payload.length < 2 ^ 32) (hcontains : Contains codecs payload container) :
    processChunk codecs (symmetricEncryptEcb encrypt key iv container) key payload.length
      (SteamAdler32.compute payload) = .ok payload := by
  unfold processChunk
  rw [symmetricDecryptEcb_encrypt haes hiv]
  simp [decompress_container hsize hcontains]

/-- With the checksum of a payload no chunk is accepted whose bytes differ from it in one
place. -/
theorem processChunk_ne_changed (codecs : Codecs) (data : Bytes) (key : DepotKey) (size : Nat)
    {front rest : Bytes} {byte changed : UInt8} (hne : byte ≠ changed) :
    processChunk codecs data key size (SteamAdler32.compute (front ++ byte :: rest)) ≠
      .ok (front ++ changed :: rest) := by
  intro hok
  exact SteamAdler32.compute_ne_of_changed hne (processChunk_ok hok).2.symm

end Contents

section Samples

/-- The blocks that AES-256 encrypts under the zero key for a frame of three bytes, and
for the three bytes of the LZMA magic. -/
def containerBlocks : List (Bytes × Bytes) :=
  [([0, 1, 2, 3, 4, 5, 6, 7, 8, 9, 10, 11, 12, 13, 14, 15],
    [182, 93, 48, 3, 12, 136, 180, 76, 151, 90, 52, 63, 147, 251, 60, 9]),
  ([86, 82, 88, 98, 198, 68, 34, 50, 32, 188, 37, 246, 44, 14, 23, 15],
    [140, 69, 90, 40, 242, 19, 166, 183, 241, 44, 133, 7, 5, 103, 72, 149]),
  ([140, 36, 56, 75, 48, 82, 130, 130, 242, 44, 133, 7, 5, 103, 72, 149],
    [49, 179, 74, 12, 79, 45, 8, 88, 175, 100, 104, 174, 244, 176, 225, 240]),
  ([75, 192, 60, 1, 66, 32, 5, 85, 162, 105, 101, 163, 249, 189, 236, 253],
    [2, 76, 127, 202, 40, 200, 203, 6, 20, 114, 25, 15, 150, 158, 105, 29]),
  ([86, 91, 99, 14, 9, 8, 11, 10, 5, 4, 7, 6, 1, 0, 3, 2],
    [187, 149, 37, 65, 106, 0, 34, 37, 19, 116, 12, 197, 19, 111, 87, 195])]

/-- A Zstandard frame with the bytes `abc` as its only, uncompressed block. -/
def sampleFrame : Bytes := [0x28, 0xB5, 0x2F, 0xFD, 0x20, 3, 0x19, 0, 0, 0x61, 0x62, 0x63]

def containerCodecs : Codecs where
  aes := tableAes containerBlocks.reverse
  zstdDecodeAll frame := if frame = sampleFrame then some [0x61, 0x62, 0x63] else none
  lzmaDecompress _ := none
  zipFirst _ := .notAnArchive

theorem processChunk_container_sample :
    processChunk containerCodecs
      (symmetricEncryptEcb (tableAes containerBlocks) ⟨.replicate 32 0⟩
        [0, 1, 2, 3, 4, 5, 6, 7, 8, 9, 10, 11, 12, 13, 14, 15]
        (ChunkCompression.vzstdMagic ++ [194, 65, 36, 53] ++ sampleFrame ++
          [194, 65, 36, 53, 3, 0, 0, 0, 0, 0, 0, 0, 122, 115, 118]))
      ⟨.replicate 32 0⟩ 3 (SteamAdler32.compute [0x61, 0x62, 0x63]) =
        .ok [0x61, 0x62, 0x63] := by
  have hcontains : Contains containerCodecs [0x61, 0x62, 0x63]
      (ChunkCompression.vzstdMagic ++ [194, 65, 36, 53] ++ sampleFrame ++
        [194, 65, 36, 53, 3, 0, 0, 0, 0, 0, 0, 0, 122, 115, 118]) :=
    .vzstd rfl rfl (by decide)
  exact processChunk_container (tableAes_inverse (by decide)) rfl (by decide) hcontains

/-- Three bytes that are not compressed, but look like it. -/
theorem processChunk_looks_compressed :
    AesInverse (tableAes containerBlocks) containerCodecs.aes ∧
    processChunk containerCodecs
      (symmetricEncryptEcb (tableAes containerBlocks) ⟨.replicate 32 0⟩
        [0, 1, 2, 3, 4, 5, 6, 7, 8, 9, 10, 11, 12, 13, 14, 15] [0x56, 0x5A, 0x61])
      ⟨.replicate 32 0⟩ 3 (SteamAdler32.compute [0x56, 0x5A, 0x61]) = .error .tooShort :=
  ⟨tableAes_inverse (by decide), by decide +kernel⟩

end Samples

end DepotDownloader.Steam
