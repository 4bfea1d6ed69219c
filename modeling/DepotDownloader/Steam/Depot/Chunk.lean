import DepotDownloader.Steam.Checksum
import DepotDownloader.Steam.Crypto

/-! # Chunk processing

A raw chunk is decrypted, decompressed by the format its first bytes name, and
checked against the length and the checksum of the manifest. The compression
libraries are parameters.
-/

namespace DepotDownloader.Steam

open Foundation

/-- What reading the first entry of a ZIP archive gives. -/
inductive ZipRead where
  | notAnArchive
  | emptyArchive
  | badEntry
  | unreadable
  | entry (bytes : Bytes)
  deriving DecidableEq

/-- The libraries that chunk and manifest processing call. -/
structure Codecs where
  aes : Aes256
  zstdDecodeAll : Bytes → Option Bytes
  lzmaDecompress : Bytes → Option Bytes
  zipFirst : Bytes → ZipRead

inductive ChunkError where
  | tooShort
  | sizeMismatch (expected actual : Nat)
  | checksumMismatch (expected actual : UInt32)
  | emptyArchive
  | crypto (error : CryptoError)
  | io
  | zip
  deriving DecidableEq, Repr

/-- Compression format of a decrypted chunk, detected from magic bytes. -/
inductive ChunkCompression where
  | vzstd
  | lzma
  | zip
  | none
  deriving DecidableEq, Repr

namespace ChunkCompression

def vzstdMagic : Bytes := [0x56, 0x53, 0x5A, 0x61]
def zipMagic : Bytes := [0x50, 0x4B, 0x03, 0x04]
def lzmaMagic : Bytes := [0x56, 0x5A, 0x61]

def detect (data : Bytes) : ChunkCompression :=
  if data.take 4 = vzstdMagic then .vzstd
  else if data.take 4 = zipMagic then .zip
  else if data.take 3 = lzmaMagic then .lzma
  else .none

end ChunkCompression

/-- A number from its little-endian bytes. -/
def leNat : Bytes → Nat
  | [] => 0
  | byte :: rest => byte.toNat + 256 * leNat rest

/-- The low bytes of a number, least significant first. -/
def toLeBytes : Nat → Nat → Bytes
  | 0, _ => []
  | width + 1, value => UInt8.ofNat (value % 256) :: toLeBytes width (value / 256)

def decompressVzstd (codecs : Codecs) (data : Bytes) : Except ChunkError Bytes :=
  if data.length < 8 + 15 then .error .tooShort
  else
    match codecs.zstdDecodeAll ((data.take (data.length - 15)).drop 8) with
    | none => .error .io
    | some output => .ok output

/-- The LZMA stream handed to the library: properties and dictionary size, the
decompressed size of the footer as eight bytes, and the compressed data. -/
def lzmaStream (data : Bytes) : Bytes :=
  let footer := data.drop (data.length - 10)
  (data.drop 7).take 5 ++ toLeBytes 8 (leNat ((footer.drop 4).take 4)) ++
    (data.take (data.length - 10)).drop (7 + 5)

def decompressVzip (codecs : Codecs) (data : Bytes) : Except ChunkError Bytes :=
  if data.length < 7 + 5 + 10 then .error .tooShort
  else
    match codecs.lzmaDecompress (lzmaStream data) with
    | none => .error .io
    | some output => .ok output

def decompressZip (codecs : Codecs) (data : Bytes) : Except ChunkError Bytes :=
  match codecs.zipFirst data with
  | .notAnArchive => .error .zip
  | .emptyArchive => .error .emptyArchive
  | .badEntry => .error .zip
  | .unreadable => .error .io
  | .entry bytes => .ok bytes

def decompress (codecs : Codecs) (data : Bytes) : Except ChunkError Bytes :=
  match ChunkCompression.detect data with
  | .vzstd => decompressVzstd codecs data
  | .lzma => decompressVzip codecs data
  | .zip => decompressZip codecs data
  | .none => .ok data

/-- Decrypt, decompress and verify a raw chunk. -/
def processChunk (codecs : Codecs) (data : Bytes) (depotKey : DepotKey)
    (expectedSize : Nat) (expectedChecksum : UInt32) : Except ChunkError Bytes :=
  match symmetricDecryptEcb codecs.aes depotKey data with
  | .error error => .error (.crypto error)
  | .ok decrypted =>
      match decompress codecs decrypted with
      | .error error => .error error
      | .ok decompressed =>
          if decompressed.length ≠ expectedSize then
            .error (.sizeMismatch expectedSize decompressed.length)
          else if SteamAdler32.compute decompressed ≠ expectedChecksum then
            .error (.checksumMismatch expectedChecksum (SteamAdler32.compute decompressed))
          else .ok decompressed

/-- What process_chunk accepts has the length and the checksum it was asked to
check, whatever the key and the container. -/
theorem processChunk_ok {codecs : Codecs} {data output : Bytes} {depotKey : DepotKey}
    {expectedSize : Nat} {expectedChecksum : UInt32}
    (hok : processChunk codecs data depotKey expectedSize expectedChecksum = .ok output) :
    output.length = expectedSize ∧ SteamAdler32.compute output = expectedChecksum := by
  unfold processChunk at hok
  split at hok
  next => cases hok
  next decrypted _ =>
    split at hok
    next => cases hok
    next decompressed _ =>
      split at hok
      next => cases hok
      next hsize =>
        split at hok
        next => cases hok
        next hchecksum =>
          cases hok
          exact ⟨not_not.mp hsize, not_not.mp hchecksum⟩

end DepotDownloader.Steam
