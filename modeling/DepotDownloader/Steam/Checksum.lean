import DepotDownloader.Foundation.ByteString

/-! # Steam's Adler-32

Steam checks depot chunks with an Adler-32 whose seed is zero. The sums are
kept in 32-bit words and reduced after every 5552 bytes.
-/

namespace DepotDownloader.Steam

open Foundation

namespace SteamAdler32

def base : UInt32 := 65521

/-- The bytes summed between two reductions. -/
def chunkLength : Nat := 5552

/-- One byte: `s1 += byte`, then `s2 += s1`. -/
def addByte (sums : UInt32 × UInt32) (byte : UInt8) : UInt32 × UInt32 :=
  (sums.1 + byte.toUInt32, sums.2 + (sums.1 + byte.toUInt32))

/-- One chunk of bytes followed by the reduction of both sums. -/
def addChunk (sums : UInt32 × UInt32) (bytes : Bytes) : UInt32 × UInt32 :=
  let summed := bytes.foldl addByte sums
  (summed.1 % base, summed.2 % base)

/-- The pieces of at most `chunkLength` bytes that the loop runs over. -/
def pieces (data : Bytes) : List Bytes :=
  (List.range ((data.length + (chunkLength - 1)) / chunkLength)).map fun index =>
    (data.drop (chunkLength * index)).take chunkLength

def compute (data : Bytes) : UInt32 :=
  let sums := (pieces data).foldl addChunk (0, 0)
  (sums.2 <<< 16) ||| sums.1

example : compute [] = 0 := by decide

end SteamAdler32

end DepotDownloader.Steam
