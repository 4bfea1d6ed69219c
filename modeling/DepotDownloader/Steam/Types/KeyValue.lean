import DepotDownloader.Foundation.SortedMap
import DepotDownloader.Foundation.Winnow
import DepotDownloader.Steam.LittleEndian
import DepotDownloader.Steam.Utf8
import Mathlib.Data.String.Basic

/-! # KeyValue trees

Valve's trees of named values, as they are kept and as the binary format holds
them. The children of a section are a map: a list that is sorted by key and has
no key twice.
-/

namespace DepotDownloader.Steam.Types

open Foundation Winnow WireInt

/-- Type tag byte in the binary KV format. -/
inductive KvTag where
  | none
  | string
  | int32
  | float32
  | pointer
  | wideString
  | color
  | uint64
  | endTag
  | int64
  | altEnd
  deriving DecidableEq, Repr

namespace KvTag

def toU8 : KvTag → UInt8
  | none => 0x00
  | string => 0x01
  | int32 => 0x02
  | float32 => 0x03
  | pointer => 0x04
  | wideString => 0x05
  | color => 0x06
  | uint64 => 0x07
  | endTag => 0x08
  | int64 => 0x0A
  | altEnd => 0x0B

def fromU8 (byte : UInt8) : Option KvTag :=
  match byte.toNat with
  | 0x00 => some none
  | 0x01 => some string
  | 0x02 => some int32
  | 0x03 => some float32
  | 0x04 => some pointer
  | 0x05 => some wideString
  | 0x06 => some color
  | 0x07 => some uint64
  | 0x08 => some endTag
  | 0x0A => some int64
  | 0x0B => some altEnd
  | _ => Option.none

def isEnd : KvTag → Bool
  | endTag | altEnd => true
  | _ => false

@[simp] theorem fromU8_toU8 (tag : KvTag) : fromU8 tag.toU8 = some tag := by
  cases tag <;> rfl

end KvTag

mutual

/-- A value in a KeyValue tree. Floats are their bits. -/
inductive KvValue where
  | string (text : String)
  | int32 (value : Int32)
  | float32 (bits : UInt32)
  | uint64 (value : UInt64)
  | int64 (value : Int64)
  | color (value : Int32)
  | pointer (value : Int32)
  | children (nodes : List KeyValue)

/-- A single node in a KeyValue tree. -/
inductive KeyValue where
  | mk (key : String) (value : KvValue)

end

namespace KeyValue

def key : KeyValue → String
  | mk key _ => key

def value : KeyValue → KvValue
  | mk _ value => value

/-- Insert into the children of a section. A node with the same key is
replaced. -/
def insert (node : KeyValue) (children : List KeyValue) : List KeyValue :=
  SortedMap.insert key node children

end KeyValue

/-- Read one integer from the input. -/
def takeInt {α : Type} (int : WireInt α) (input : Bytes) : ModalResult (α × Bytes) :=
  (int.read input).elim (.error (.backtrack [])) .ok

@[simp] theorem takeInt_append {α : Type} (int : WireInt α) (value : α) (rest : Bytes) :
    takeInt int (int.write value ++ rest) = .ok (value, rest) := by
  simp [takeInt]

/-- Parse a null-terminated UTF-8 string. -/
def parseNullString (input : Bytes) : ModalResult (String × Bytes) :=
  match input.dropWhile (· ≠ 0) with
  | [] => .error (.backtrack [.label "null-terminated string"])
  | _ :: rest => .ok (String.ofList (fromUtf8Lossy (input.takeWhile (· ≠ 0))), rest)

mutual

/-- Parse a single KV node (type byte + key + value). The fuel bounds the
recursion. -/
def parseNode : Nat → Bytes → ModalResult (KeyValue × Bytes)
  | 0, _ => .error (.cut [])
  | fuel + 1, input => do
      let (typeByte, input) ← label "kv type tag" (takeInt u8 input)
      match KvTag.fromU8 typeByte with
      | none =>
          .error (.cut [.expected "valid KV type tag (0x00-0x08, 0x0A, 0x0B)",
            .label "kv type tag"])
      | some tag => do
          let (key, input) ← label "kv key name" (parseNullString input)
          match tag with
          | .none => do
              let (children, input) ← parseChildren fuel [] input
              return (⟨key, .children children⟩, input)
          | .string => do
              let (text, input) ← label "kv string value" (parseNullString input)
              return (⟨key, .string text⟩, input)
          | .int32 => do
              let (value, input) ← label "kv int32 value" (takeInt i32 input)
              return (⟨key, .int32 value⟩, input)
          | .float32 => do
              let (bits, input) ← label "kv float32 value" (takeInt u32 input)
              return (⟨key, .float32 bits⟩, input)
          | .pointer => do
              let (value, input) ← label "kv pointer value" (takeInt i32 input)
              return (⟨key, .pointer value⟩, input)
          | .color => do
              let (value, input) ← label "kv color value" (takeInt i32 input)
              return (⟨key, .color value⟩, input)
          | .uint64 => do
              let (value, input) ← label "kv uint64 value" (takeInt u64 input)
              return (⟨key, .uint64 value⟩, input)
          | .int64 => do
              let (value, input) ← label "kv int64 value" (takeInt i64 input)
              return (⟨key, .int64 value⟩, input)
          | .wideString => return (⟨key, .string ""⟩, input)
          | .endTag | .altEnd =>
              .error (.cut [.expected "value node, not section terminator",
                .label "kv node type"])

/-- Parse children until we hit an End or AltEnd tag. -/
def parseChildren : Nat → List KeyValue → Bytes → ModalResult (List KeyValue × Bytes)
  | 0, _, _ => .error (.cut [])
  | _ + 1, children, [] => return (children, [])
  | fuel + 1, children, byte :: rest =>
      if (KvTag.fromU8 byte).any KvTag.isEnd then return (children, rest)
      else do
        let (node, input) ← parseNode fuel (byte :: rest)
        parseChildren fuel (node.insert children) input

end

/-- Parse a binary KeyValue tree. No call consumes less than it recurses, so a
fuel of the input's length is never used up. -/
def parseBinaryKv (input : Bytes) : ModalResult (KeyValue × Bytes) :=
  parseNode (input.length + 1) input

end DepotDownloader.Steam.Types
