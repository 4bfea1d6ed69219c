import DepotDownloader.Steam.Crypto
import Mathlib.Data.List.Sort

/-! # Depot manifests

The entries of a parsed manifest and the decryption of their file names. Every
field that a manifest section may leave out is optional.
-/

namespace DepotDownloader.Steam

open Foundation

/-- A Steam depot ID. -/
structure DepotId where
  id : UInt32
  deriving DecidableEq, Repr

/-- A depot manifest ID. -/
structure ManifestId where
  id : UInt64
  deriving DecidableEq, Repr

/-- A depot content chunk identifier (SHA-1 hash). -/
structure ChunkId where
  sha : Vector UInt8 20
  deriving DecidableEq

/-- A chunk reference within a manifest file. -/
structure ManifestChunk where
  id : Option ChunkId
  checksum : Option UInt32
  offset : Option Nat
  compressedSize : Option Nat
  uncompressedSize : Option Nat
  deriving DecidableEq

/-- A file entry in a depot manifest. -/
structure ManifestFile where
  filename : Option String
  size : Option Nat
  flags : Option UInt32
  shaContent : Option (Vector UInt8 20)
  chunks : List ManifestChunk
  linkTarget : Option String
  deriving DecidableEq

/-- A parsed depot manifest. -/
structure DepotManifest where
  depotId : Option DepotId
  manifestId : Option ManifestId
  creationTime : Option Nat
  filenamesEncrypted : Bool
  totalUncompressedSize : Option Nat
  totalCompressedSize : Option Nat
  files : List ManifestFile
  deriving DecidableEq

inductive ManifestError where
  | invalidMagic (magic : UInt32)
  | missingSection (name : String)
  | checksumMismatch (expected actual : String)
  /-- A loop of the model is cut off, which no parse is. -/
  | outOfFuel
  deriving DecidableEq, Repr

namespace DepotFileFlags

def executable : UInt32 := 0x04
def directory : UInt32 := 0x40

def contains (flags flag : UInt32) : Bool := flags &&& flag != 0

def isDirectory (flags : UInt32) : Bool := contains flags directory

def isExecutable (flags : UInt32) : Bool := contains flags executable

end DepotFileFlags

def ManifestFile.isDirectory (file : ManifestFile) : Bool :=
  file.flags.any DepotFileFlags.isDirectory

/-- UTF-8 decoding in which every maximal invalid piece becomes U+FFFD. -/
def fromUtf8Lossy : Bytes → List Char
  | [] => []
  | b0 :: rest =>
      let replacement := Char.ofNat 0xFFFD
      let tail (byte : UInt8) : Nat := byte.toNat % 64
      let continues (byte : UInt8) : Bool := 0x80 ≤ byte && byte ≤ 0xBF
      -- the second byte of a three or four byte sequence has a narrower range
      let second (byte : UInt8) : Bool :=
        if b0 == 0xE0 then 0xA0 ≤ byte && byte ≤ 0xBF
        else if b0 == 0xED then 0x80 ≤ byte && byte ≤ 0x9F
        else if b0 == 0xF0 then 0x90 ≤ byte && byte ≤ 0xBF
        else if b0 == 0xF4 then 0x80 ≤ byte && byte ≤ 0x8F
        else continues byte
      if b0 < 0x80 then Char.ofNat b0.toNat :: fromUtf8Lossy rest
      else if 0xC2 ≤ b0 && b0 ≤ 0xDF then
        match rest with
        | b1 :: rest1 =>
            if continues b1 then
              Char.ofNat (b0.toNat % 32 * 64 + tail b1) :: fromUtf8Lossy rest1
            else replacement :: fromUtf8Lossy (b1 :: rest1)
        | [] => [replacement]
      else if 0xE0 ≤ b0 && b0 ≤ 0xEF then
        match rest with
        | b1 :: rest1 =>
            if second b1 then
              match rest1 with
              | b2 :: rest2 =>
                  if continues b2 then
                    Char.ofNat (b0.toNat % 16 * 4096 + tail b1 * 64 + tail b2) ::
                      fromUtf8Lossy rest2
                  else replacement :: fromUtf8Lossy (b2 :: rest2)
              | [] => [replacement]
            else replacement :: fromUtf8Lossy (b1 :: rest1)
        | [] => [replacement]
      else if 0xF0 ≤ b0 && b0 ≤ 0xF4 then
        match rest with
        | b1 :: rest1 =>
            if second b1 then
              match rest1 with
              | b2 :: rest2 =>
                  if continues b2 then
                    match rest2 with
                    | b3 :: rest3 =>
                        if continues b3 then
                          Char.ofNat (b0.toNat % 8 * 262144 + tail b1 * 4096 + tail b2 * 64 +
                            tail b3) :: fromUtf8Lossy rest3
                        else replacement :: fromUtf8Lossy (b3 :: rest3)
                    | [] => [replacement]
                  else replacement :: fromUtf8Lossy (b2 :: rest2)
              | [] => [replacement]
            else replacement :: fromUtf8Lossy (b1 :: rest1)
        | [] => [replacement]
      else replacement :: fromUtf8Lossy rest

/-- `name.replace('\\', "/")`. -/
def replaceBackslash (name : String) : String :=
  String.ofList (name.toList.map fun char => if char = '\\' then '/' else char)

/-- The libraries that file name decryption calls. -/
structure NameCodecs where
  aes : Aes256
  base64Decode : String → Option Bytes

/-- `char::is_whitespace`: the Unicode White_Space property. -/
def isWhitespace (char : Char) : Bool :=
  let code := char.toNat
  (9 ≤ code && code ≤ 13) || code == 0x20 || code == 0x85 || code == 0xA0 || code == 0x1680 ||
    (0x2000 ≤ code && code ≤ 0x200A) || code == 0x2028 || code == 0x2029 || code == 0x202F ||
    code == 0x205F || code == 0x3000

/-- `str::trim`. -/
def trim (text : List Char) : List Char :=
  ((text.dropWhile isWhitespace).reverse.dropWhile isWhitespace).reverse

/-- Decrypt a single encrypted filename. -/
def decryptFilename (codecs : NameCodecs) (encryptedB64 : String) (key : DepotKey) :
    Except ManifestError String :=
  let cleaned := String.ofList (encryptedB64.toList.filter fun char => !isWhitespace char)
  match codecs.base64Decode cleaned with
  | none => .error (.missingSection "invalid base64 in filename")
  | some encrypted =>
      if encrypted.length < 32 then .error (.missingSection "encrypted filename too short")
      else
        let iv := codecs.aes key (encrypted.take 16)
        match decryptPaddedVec codecs.aes key iv (encrypted.drop 16) with
        | none => .error (.missingSection "filename decryption failed")
        | some plaintext =>
            let name := String.ofList (fromUtf8Lossy (plaintext.takeWhile (· ≠ 0)))
            .ok (replaceBackslash name)

/-- Decrypt the names in place and in order. The first failure stops the loop and
leaves the names before it decrypted. -/
def decryptNames (codecs : NameCodecs) (key : DepotKey) :
    List ManifestFile → List ManifestFile × Except ManifestError Unit
  | [] => ([], .ok ())
  | file :: rest =>
      match file.filename with
      | none =>
          let decrypted := decryptNames codecs key rest
          (file :: decrypted.1, decrypted.2)
      | some encrypted =>
          match decryptFilename codecs encrypted key with
          | .error error => (file :: rest, .error error)
          | .ok name =>
              let decrypted := decryptNames codecs key rest
              ({ file with filename := some name } :: decrypted.1, decrypted.2)

/-- The order of the entries after decryption; entries without a name come
first. -/
def nameLe (left right : ManifestFile) : Prop :=
  left.filename.getD "" ≤ right.filename.getD ""

instance (left right : ManifestFile) : Decidable (nameLe left right) := by
  unfold nameLe; infer_instance

/-- Decrypt encrypted filenames using the depot key. The manifest is changed in
place, so the result carries it also when the decryption fails. -/
def DepotManifest.decryptFilenames (codecs : NameCodecs) (manifest : DepotManifest)
    (key : DepotKey) : DepotManifest × Except ManifestError Unit :=
  if manifest.filenamesEncrypted then
    match decryptNames codecs key manifest.files with
    | (files, .error error) => ({ manifest with files := files }, .error error)
    | (files, .ok ()) =>
        ({ manifest with files := files.insertionSort nameLe, filenamesEncrypted := false }, .ok ())
  else (manifest, .ok ())

end DepotDownloader.Steam
