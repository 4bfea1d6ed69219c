import DepotDownloader.Steam.Depot.Chunk
import DepotDownloader.Steam.Depot.Manifest
import DepotDownloader.Steam.Enums

/-! # Messages of the connection manager

A packet starts with a message number whose highest bit marks a protobuf header.
The decoders that the protobuf library generates and the gzip reader are
parameters; which bytes they are handed is the code's own work.
-/

namespace DepotDownloader.Steam

open Foundation

/-- A Steam network message type. -/
structure EMsg where
  value : UInt32
  deriving DecidableEq, Repr

namespace EMsg

def multi : EMsg := ⟨1⟩
def serviceMethodResponse : EMsg := ⟨147⟩
def serviceMethodCallFromClient : EMsg := ⟨151⟩
def clientGetDepotDecryptionKey : EMsg := ⟨5438⟩
def clientGetDepotDecryptionKeyResponse : EMsg := ⟨5439⟩

end EMsg

/-- Bit 31 of a raw message number marks protobuf serialization. -/
def protoMask : UInt32 := 0x80000000

def emsgMask : UInt32 := ~~~protoMask

/-- The fields of the protobuf header that the client reads or writes. -/
structure CMsgProtoBufHeader where
  steamid : Option UInt64 := none
  clientSessionid : Option Int := none
  jobidSource : Option UInt64 := none
  jobidTarget : Option UInt64 := none
  targetJobName : Option String := none
  eresult : Option Int := none
  deriving DecidableEq, Repr

structure CMsgMulti where
  sizeUnzipped : Option UInt32
  messageBody : Option Bytes
  deriving DecidableEq, Repr

structure CMsgClientGetDepotDecryptionKey where
  depotId : Option DepotId
  appId : Option UInt32
  deriving DecidableEq, Repr

structure CMsgClientGetDepotDecryptionKeyResponse where
  eresult : Option Int
  depotId : Option DepotId
  depotEncryptionKey : Option Bytes
  deriving DecidableEq, Repr

/-- A message ready to be serialized and sent. -/
structure ClientMsg where
  emsg : EMsg
  header : CMsgProtoBufHeader
  body : Bytes
  deriving DecidableEq, Repr

/-- A received message. -/
structure IncomingMsg where
  emsg : EMsg
  isProtobuf : Bool
  header : CMsgProtoBufHeader
  body : Bytes
  deriving DecidableEq, Repr

/-- The libraries that the client calls on messages. -/
structure WireCodecs where
  aes : Aes256
  hmacSha1 : Bytes → Bytes → Bytes
  gunzip : Bytes → Option Bytes
  decodeHeader : Bytes → Option CMsgProtoBufHeader
  decodeMulti : Bytes → Option CMsgMulti
  decodeDepotKeyResponse : Bytes → Option CMsgClientGetDepotDecryptionKeyResponse
  encodeDepotKeyRequest : CMsgClientGetDepotDecryptionKey → Bytes

inductive ClientError where
  | packetTooShort (need got : Nat)
  | unexpectedEof
  | decode
  | io
  | crypto (error : CryptoError)
  | transport (reason : String)
  | serviceMethodFailed (error : EResultError)
  | depotAccessDenied (depotId : DepotId) (error : EResultError)
  deriving DecidableEq, Repr

end DepotDownloader.Steam
