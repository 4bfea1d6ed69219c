import DepotDownloader.Foundation.ByteString

/-! # Symmetric decryption of depot data

The AES-256 block cipher is a parameter. Around it stand the chaining and the
padding that the chunk and file name decryption share: the first block is an
ECB-encrypted initialisation vector and the rest is CBC-encrypted with PKCS7
padding.
-/

namespace DepotDownloader.Steam

open Foundation

/-- A 256-bit AES depot key. -/
structure DepotKey where
  bytes : Vector UInt8 32
  deriving DecidableEq

/-- AES-256 decryption of one 16-byte block under a key. -/
abbrev Aes256 := DepotKey → Bytes → Bytes

inductive CryptoError where
  | invalidKeyLength (expected actual : Nat)
  | decryptionFailed
  | invalidPadding
  deriving DecidableEq, Repr

/-- The 16-byte block at an index. -/
def block (data : Bytes) (index : Nat) : Bytes := (data.drop (16 * index)).take 16

def xorBlock (left right : Bytes) : Bytes := List.zipWith (· ^^^ ·) left right

/-- CBC decryption of whole blocks, without unpadding. -/
def cbcDecrypt (aes : Aes256) (key : DepotKey) (iv data : Bytes) : Bytes :=
  (List.range (data.length / 16)).flatMap fun index =>
    xorBlock (aes key (block data index)) (if index = 0 then iv else block data (index - 1))

/-- Strict PKCS7: the last byte names the number of padding bytes, all equal to
it, between one and a whole block. -/
def pkcs7Unpad (data : Bytes) : Option Bytes :=
  match data.getLast? with
  | none => none
  | some last =>
      let padding := last.toNat
      if 1 ≤ padding ∧ padding ≤ 16 ∧ padding ≤ data.length ∧
          data.drop (data.length - padding) = List.replicate padding last then
        some (data.take (data.length - padding))
      else none

/-- CBC decryption with PKCS7 unpadding. Only whole blocks are accepted. -/
def decryptPaddedVec (aes : Aes256) (key : DepotKey) (iv data : Bytes) : Option Bytes :=
  if data.length % 16 = 0 then pkcs7Unpad (cbcDecrypt aes key iv data) else none

/-- The first 16 bytes are the ECB-encrypted IV of the CBC-encrypted rest. -/
def symmetricDecryptEcb (aes : Aes256) (key : DepotKey) (data : Bytes) :
    Except CryptoError Bytes :=
  if data.length < 32 then .error .decryptionFailed
  else
    match decryptPaddedVec aes key (aes key (data.take 16)) (data.drop 16) with
    | none => .error .invalidPadding
    | some plaintext => .ok plaintext

end DepotDownloader.Steam
