import DepotDownloader.Steam.Types.BinaryKeyValue

/-! # What the binary parser accepts

The nodes that a byte string spells are read without decoding them: names and values
are bytes, the children of a section stay in their order, and a section remembers the
marker that closes it. The parser decodes what is spelled. That is an encoding of its
result when every section is closed and no node is a wide string.
-/

namespace DepotDownloader.Steam.Types

open Foundation Winnow WireInt

/-- A node as it is spelled. A section that the input ends in has no closing marker. -/
inductive RawNode where
  | leaf (tag : KvTag) (name payload : Bytes)
  | branch (name : Bytes) (nodes : List RawNode) (closing : Option KvTag)

/-- The bytes of a value. A wide string takes none. -/
def readPayload (tag : KvTag) (input : Bytes) : Option (Bytes × Bytes) :=
  match tag with
  | .string => readNullTerminated input
  | .int32 | .float32 | .pointer | .color => readBytes 4 input
  | .uint64 | .int64 => readBytes 8 input
  | .wideString => some ([], input)
  | .none | .endTag | .altEnd => none

mutual

/-- Read one node. The fuel bounds the recursion. -/
def readNode : Nat → Bytes → Option (RawNode × Bytes)
  | 0, _ => none
  | _ + 1, [] => none
  | fuel + 1, byte :: input => do
      let tag ← KvTag.fromU8 byte
      let (name, input) ← readNullTerminated input
      if tag = .none then
        let (nodes, closing, rest) ← readNodes fuel input
        return (.branch name nodes closing, rest)
      else
        let (payload, rest) ← readPayload tag input
        return (.leaf tag name payload, rest)

/-- Read nodes up to an end marker or the end of the input. -/
def readNodes : Nat → Bytes → Option (List RawNode × Option KvTag × Bytes)
  | 0, _ => none
  | _ + 1, [] => some ([], none, [])
  | fuel + 1, byte :: input =>
      if (KvTag.fromU8 byte).any KvTag.isEnd then some ([], KvTag.fromU8 byte, input)
      else do
        let (node, input) ← readNode fuel (byte :: input)
        let (nodes, closing, rest) ← readNodes fuel input
        return (node :: nodes, closing, rest)

end

/-- The node at the front of the input, and what stands behind it. -/
def spelled (input : Bytes) : Option (RawNode × Bytes) := readNode (input.length + 1) input

/-- The text of a string as the parser decodes it. -/
def lossyText (bytes : Bytes) : String := String.ofList (fromUtf8Lossy bytes)

/-- The bytes are UTF-8. -/
def ValidUtf8 (bytes : Bytes) : Prop := encodeUtf8 (fromUtf8Lossy bytes) = bytes

instance decidableValidUtf8 (bytes : Bytes) : Decidable (ValidUtf8 bytes) :=
  inferInstanceAs (Decidable (_ = _))

/-- The value that the parser makes of a payload. -/
def leafValue (tag : KvTag) (payload : Bytes) : KvValue :=
  match tag with
  | .string => .string (lossyText payload)
  | .int32 => .int32 (i32.ofNat (leNat payload))
  | .float32 => .float32 (u32.ofNat (leNat payload))
  | .pointer => .pointer (i32.ofNat (leNat payload))
  | .color => .color (i32.ofNat (leNat payload))
  | .uint64 => .uint64 (u64.ofNat (leNat payload))
  | .int64 => .int64 (i64.ofNat (leNat payload))
  | .wideString | .none | .endTag | .altEnd => .string ""

namespace RawNode

def name : RawNode → Bytes
  | leaf _ name _ | branch name _ _ => name

/-- The strings of the node itself. -/
def strings : RawNode → List Bytes
  | leaf .string name payload => [name, payload]
  | leaf _ name _ | branch name _ _ => [name]

def children : RawNode → List RawNode
  | leaf _ _ _ => []
  | branch _ nodes _ => nodes

/-- The node is no wide string, and no section that the input ends in. -/
def finished : RawNode → Bool
  | leaf tag _ _ => tag ≠ .wideString
  | branch _ _ closing => closing.isSome

mutual

/-- The node and all below it. -/
def within : RawNode → List RawNode
  | leaf tag name payload => [leaf tag name payload]
  | branch name nodes closing => branch name nodes closing :: withinAll nodes

def withinAll : List RawNode → List RawNode
  | [] => []
  | node :: rest => node.within ++ withinAll rest

end

mutual

/-- What the parser makes of a node. -/
def decode : RawNode → KeyValue
  | leaf tag name payload => ⟨lossyText name, leafValue tag payload⟩
  | branch name nodes _ => ⟨lossyText name,
      .children ((decodeAll nodes).foldl (fun children node => node.insert children) [])⟩

def decodeAll : List RawNode → List KeyValue
  | [] => []
  | node :: rest => node.decode :: decodeAll rest

end

/-- All strings are UTF-8, and no section has a name twice. -/
structure Proper (node : RawNode) : Prop where
  utf8 : ∀ below ∈ node.within, ∀ bytes ∈ below.strings, ValidUtf8 bytes
  distinct : ∀ below ∈ node.within, (below.children.map name).Nodup

/-- All sections are closed, and there is no wide string. -/
def Finished (node : RawNode) : Prop := ∀ below ∈ node.within, below.finished = true

end RawNode

section Decoding

variable {fuel : Nat} {input rest : Bytes}

theorem parseNullString_eq_ok {text : String} :
    parseNullString input = .ok (text, rest) ↔
      ∃ bytes, readNullTerminated input = some (bytes, rest) ∧ text = lossyText bytes := by
  unfold parseNullString readNullTerminated lossyText
  cases input.dropWhile (· ≠ 0) with
  | nil => simp
  | cons byte behind =>
      simp only [Except.ok.injEq, Prod.mk.injEq, Option.some.injEq]
      constructor
      · rintro ⟨rfl, rfl⟩
        exact ⟨_, ⟨rfl, rfl⟩, rfl⟩
      · rintro ⟨_, ⟨rfl, rfl⟩, rfl⟩
        exact ⟨rfl, rfl⟩

/-- An integer is read from the bytes of its width. -/
theorem takeInt_eq_ok {α : Type} {int : WireInt α} {value : α} :
    takeInt int input = .ok (value, rest) ↔
      ∃ bytes, readBytes int.width input = some (bytes, rest) ∧
        value = int.ofNat (leNat bytes) := by
  unfold takeInt WireInt.read readUint readBytes
  split
  next => simp
  next =>
    simp only [Option.map_some, Option.elim_some, Except.ok.injEq, Prod.mk.injEq,
      Option.some.injEq]
    constructor
    · rintro ⟨rfl, rfl⟩
      exact ⟨_, ⟨rfl, rfl⟩, rfl⟩
    · rintro ⟨_, ⟨rfl, rfl⟩, rfl⟩
      exact ⟨rfl, rfl⟩

theorem label_eq_ok {α : Type} {text : String} {result : ModalResult α} {value : α} :
    label text result = .ok value ↔ result = .ok value := by
  cases result <;> simp [label, Except.mapError]

theorem takeByte_eq_ok {byte : UInt8} :
    takeInt u8 input = .ok (byte, rest) ↔ input = byte :: rest := by
  cases input with
  | nil => simp [takeInt, WireInt.read, readUint, u8]
  | cons first behind =>
      simp [takeInt, WireInt.read, readUint, u8, leNat]

/-- An integer node is decoded from its payload. -/
theorem int_of_parse {tag : KvTag} {key : String} {node : KeyValue} {α : Type} {int : WireInt α}
    {text : String} (make : α → KvValue)
    (hparse : (do
      let (value, input) ← label text (takeInt int input)
      return ((⟨key, make value⟩ : KeyValue), input)) = .ok (node, rest))
    (hwidth : readPayload tag input = readBytes int.width input)
    (hmake : ∀ payload, leafValue tag payload = make (int.ofNat (leNat payload))) :
    ∃ payload, readPayload tag input = some (payload, rest) ∧
      node = ⟨key, leafValue tag payload⟩ := by
  obtain ⟨⟨value, left⟩, hvalue, hreturn⟩ := bind_eq_ok.mp hparse
  cases hreturn
  obtain ⟨payload, hpayload, rfl⟩ := takeInt_eq_ok.mp (label_eq_ok.mp hvalue)
  exact ⟨payload, hwidth.trans hpayload, by rw [hmake]⟩

theorem readNode_leaf {fuel : Nat} {byte : UInt8} {tag : KvTag} {name payload behind : Bytes}
    (htag : KvTag.fromU8 byte = some tag) (hplain : tag ≠ .none)
    (hname : readNullTerminated input = some (name, behind))
    (hpayload : readPayload tag behind = some (payload, rest)) :
    readNode (fuel + 1) (byte :: input) = some (.leaf tag name payload, rest) := by
  simp [readNode, htag, hname, hplain, hpayload]

theorem readNode_branch {fuel : Nat} {byte : UInt8} {name behind : Bytes} {nodes : List RawNode}
    {closing : Option KvTag} (htag : KvTag.fromU8 byte = some .none)
    (hname : readNullTerminated input = some (name, behind))
    (hnodes : readNodes fuel behind = some (nodes, closing, rest)) :
    readNode (fuel + 1) (byte :: input) = some (.branch name nodes closing, rest) := by
  simp [readNode, htag, hname, hnodes]

/-- A node is parsed as it is spelled, when its children are. -/
theorem readNode_of_parse {fuel : Nat} {node : KeyValue}
    (hchildren : ∀ input children rest, parseChildren fuel [] input = .ok (children, rest) →
      ∃ nodes closing, readNodes fuel input = some (nodes, closing, rest) ∧
        children = (RawNode.decodeAll nodes).foldl
          (fun children node => node.insert children) [])
    (hparse : parseNode (fuel + 1) input = .ok (node, rest)) :
    ∃ raw, readNode (fuel + 1) input = some (raw, rest) ∧ node = raw.decode := by
  rw [parseNode] at hparse
  obtain ⟨⟨byte, behind⟩, htype, htagged⟩ := bind_eq_ok.mp hparse
  rw [label_eq_ok, takeByte_eq_ok] at htype
  subst htype
  cases htag : KvTag.fromU8 byte with
  | none => simp [htag] at htagged
  | some tag =>
      simp only [htag] at htagged
      obtain ⟨⟨key, named⟩, hkey, hvalue⟩ := bind_eq_ok.mp htagged
      rw [label_eq_ok, parseNullString_eq_ok] at hkey
      obtain ⟨name, hname, rfl⟩ := hkey
      -- every value without children takes its payload
      have hleaf (hplain : tag ≠ .none)
          (hpayload : ∃ payload, readPayload tag named = some (payload, rest) ∧
            node = ⟨lossyText name, leafValue tag payload⟩) :
          ∃ raw, readNode (fuel + 1) (byte :: behind) = some (raw, rest) ∧ node = raw.decode := by
        obtain ⟨payload, hread, rfl⟩ := hpayload
        exact ⟨_, readNode_leaf htag hplain hname hread, rfl⟩
      cases tag with
      | none =>
          obtain ⟨⟨children, left⟩, hinner, hreturn⟩ := bind_eq_ok.mp hvalue
          cases hreturn
          obtain ⟨nodes, closing, hnodes, rfl⟩ := hchildren _ _ _ hinner
          exact ⟨_, readNode_branch htag hname hnodes, rfl⟩
      | string =>
          obtain ⟨⟨text, left⟩, htext, hreturn⟩ := bind_eq_ok.mp hvalue
          cases hreturn
          rw [label_eq_ok, parseNullString_eq_ok] at htext
          obtain ⟨payload, hpayload, rfl⟩ := htext
          exact hleaf (by simp) ⟨payload, hpayload, rfl⟩
      | int32 => exact hleaf (by simp) (int_of_parse .int32 hvalue rfl fun _ => rfl)
      | float32 => exact hleaf (by simp) (int_of_parse .float32 hvalue rfl fun _ => rfl)
      | pointer => exact hleaf (by simp) (int_of_parse .pointer hvalue rfl fun _ => rfl)
      | color => exact hleaf (by simp) (int_of_parse .color hvalue rfl fun _ => rfl)
      | uint64 => exact hleaf (by simp) (int_of_parse .uint64 hvalue rfl fun _ => rfl)
      | int64 => exact hleaf (by simp) (int_of_parse .int64 hvalue rfl fun _ => rfl)
      | wideString =>
          cases hvalue
          exact hleaf (by simp) ⟨[], rfl, rfl⟩
      | endTag | altEnd => cases hvalue

/-- Children are parsed as they are spelled and inserted in that order. The induction
is on the fuel, which both share. -/
theorem readNodes_of_parse {fuel : Nat} {children children' : List KeyValue}
    (hparse : parseChildren fuel children input = .ok (children', rest)) :
    ∃ nodes closing, readNodes fuel input = some (nodes, closing, rest) ∧
      children' = (RawNode.decodeAll nodes).foldl
        (fun children node => node.insert children) children := by
  induction fuel using Nat.strong_induction_on generalizing children children' input rest with
  | _ fuel ih =>
      match fuel, input with
      | 0, _ => cases hparse
      | fuel + 1, [] =>
          cases hparse
          exact ⟨[], none, rfl, rfl⟩
      | fuel + 1, byte :: input =>
          rw [parseChildren] at hparse
          rw [readNodes]
          split at hparse
          next hend =>
            cases hparse
            exact ⟨[], _, if_pos hend, rfl⟩
          next hnode =>
            rw [if_neg hnode]
            obtain ⟨⟨node, behind⟩, hfirst, hrest⟩ := bind_eq_ok.mp hparse
            obtain ⟨nodes, closing, hnodes, rfl⟩ := ih fuel (by omega) hrest
            cases fuel with
            | zero => cases hfirst
            | succ fuel =>
                obtain ⟨raw, hraw, rfl⟩ := readNode_of_parse
                  (fun _ _ _ hinner => ih fuel (by omega) hinner) hfirst
                exact ⟨raw :: nodes, closing, by simp [hraw, hnodes], rfl⟩

/-- The parser decodes what is spelled. -/
theorem spelled_of_parse {tree : KeyValue} (hparse : parseBinaryKv input = .ok (tree, rest)) :
    ∃ raw, spelled input = some (raw, rest) ∧ tree = raw.decode :=
  readNode_of_parse (fun _ _ _ hinner => readNodes_of_parse hinner) hparse

end Decoding

section Encodings

variable {fuel : Nat} {input rest : Bytes} {nodes : List KeyValue} {bytes : Bytes}

/-- One more node in front. -/
theorem Written.cons {node : KeyValue} {front : Bytes} (hnode : Written [node] front)
    (hnodes : Written nodes bytes) : Written (node :: nodes) (front ++ bytes) := by
  cases hnode with
  | leaf hkey hvalue hleaf hrest =>
      cases hrest
      rw [List.append_nil, List.cons_append, List.append_assoc]
      rw [← List.append_assoc]
      exact .leaf hkey hvalue hleaf hnodes
  | branch hkey hchildren horder hinner hmarker hrest =>
      cases hrest
      have hbranch := Written.branch hkey hchildren horder hinner hmarker hnodes
      simpa only [List.cons_append, List.append_assoc, List.nil_append] using hbranch

theorem nullString_lossyText {name : Bytes} (hvalid : ValidUtf8 name) :
    nullString (lossyText name) = name ++ [0] := by
  rw [nullString, lossyText, String.toList_ofList, hvalid]

theorem nulFree_lossyText {name : Bytes} (hvalid : ValidUtf8 name) (hzero : 0 ∉ name) :
    NulFree (lossyText name) := by
  intro hnul
  apply hzero
  rw [← hvalid]
  rw [lossyText, String.toList_ofList] at hnul
  exact List.mem_flatMap.mpr ⟨_, hnul, by decide⟩

theorem write_leNat {α : Type} {int : WireInt α} {payload : Bytes}
    (hlength : payload.length = int.width) : int.write (int.ofNat (leNat payload)) = payload := by
  have hbound := leNat_lt payload
  rw [hlength] at hbound
  rw [WireInt.write, int.toNat_ofNat _ hbound, ← hlength, toLeBytes_leNat]

/-- A payload that was read is how its value is written, but that of a wide string. -/
theorem leaf_of_readPayload {tag : KvTag} {payload : Bytes}
    (hread : readPayload tag input = some (payload, rest)) (hwide : tag ≠ .wideString)
    (hvalid : tag = .string → ValidUtf8 payload) :
    ∃ front, input = front ++ rest ∧ (leafValue tag payload).leaf = some (tag, front) ∧
      (leafValue tag payload).NulFree := by
  cases tag with
  | string =>
      obtain ⟨hzero, rfl⟩ := readNullTerminated_eq_some.mp hread
      refine ⟨payload ++ [0], by simp, ?_, nulFree_lossyText (hvalid rfl) hzero⟩
      rw [leafValue, KvValue.leaf, nullString_lossyText (hvalid rfl)]
  | int32 | float32 | pointer | color | uint64 | int64 =>
      obtain ⟨hlength, rfl⟩ := readBytes_eq_some.mp hread
      refine ⟨payload, rfl, ?_, trivial⟩
      rw [leafValue, KvValue.leaf, write_leNat hlength]
  | wideString => exact absurd rfl hwide
  | none | endTag | altEnd => cases hread

theorem fromU8_eq_some {byte : UInt8} {tag : KvTag} (htag : KvTag.fromU8 byte = some tag) :
    byte = tag.toU8 := by
  unfold KvTag.fromU8 at htag
  split at htag <;> cases htag
  all_goals
    next hbyte => exact UInt8.toNat_inj.mp hbyte

namespace RawNode

/-- What an encoding demands of a node by itself. -/
structure Clean (node : RawNode) : Prop where
  utf8 : ∀ bytes ∈ node.strings, ValidUtf8 bytes
  distinct : (node.children.map name).Nodup
  finished : node.finished = true

theorem name_mem_strings (node : RawNode) : node.name ∈ node.strings := by
  cases node with
  | leaf tag name payload => cases tag <;> simp [strings, RawNode.name]
  | branch => simp [strings, RawNode.name]

theorem self_mem_within (node : RawNode) : node ∈ node.within := by
  cases node <;> simp [within]

theorem mem_withinAll {below : RawNode} {raws : List RawNode} :
    below ∈ withinAll raws ↔ ∃ node ∈ raws, below ∈ node.within := by
  induction raws with
  | nil => simp [withinAll]
  | cons node raws ih => simp [withinAll, ih]

theorem decodeAll_eq_map (raws : List RawNode) : decodeAll raws = raws.map decode := by
  induction raws with
  | nil => rfl
  | cons node raws ih => rw [decodeAll, ih, List.map_cons]

theorem decode_key (node : RawNode) : node.decode.key = lossyText node.name := by
  cases node <;> rfl

theorem lossyText_injective {name name' : Bytes} (hvalid : ValidUtf8 name)
    (hvalid' : ValidUtf8 name') (heq : lossyText name = lossyText name') : name = name' := by
  have hchars : fromUtf8Lossy name = fromUtf8Lossy name' := by
    simpa [lossyText] using congrArg String.toList heq
  rw [← hvalid, ← hvalid', hchars]

/-- Names that are UTF-8 and differ are decoded to different keys. -/
theorem decodeAll_keys {raws : List RawNode} (hvalid : ∀ node ∈ raws, ValidUtf8 node.name)
    (hdistinct : (raws.map name).Nodup) : ((decodeAll raws).map KeyValue.key).Nodup := by
  have hkeys : (decodeAll raws).map KeyValue.key = (raws.map name).map lossyText := by
    rw [decodeAll_eq_map, List.map_map, List.map_map]
    exact List.map_congr_left fun node _ => decode_key node
  rw [hkeys]
  apply hdistinct.map_on
  intro left hleft right hright heq
  obtain ⟨node, hnode, rfl⟩ := List.mem_map.mp hleft
  obtain ⟨node', hnode', rfl⟩ := List.mem_map.mp hright
  exact lossyText_injective (hvalid node hnode) (hvalid node' hnode') heq

end RawNode

/-- Nodes that are read are encoded, each as it was decoded. -/
def Encoded (input : Bytes) (raws : List RawNode) (closing : Option KvTag) (rest : Bytes) : Prop :=
  ∃ bytes, Written (RawNode.decodeAll raws) bytes ∧
    ∀ marker, closing = some marker → marker.isEnd = true ∧ input = bytes ++ marker.toU8 :: rest

theorem written_of_readNode {raw : RawNode}
    (hnodes : ∀ input raws closing rest, readNodes fuel input = some (raws, closing, rest) →
      (∀ below ∈ RawNode.withinAll raws, below.Clean) → Encoded input raws closing rest)
    (hread : readNode (fuel + 1) input = some (raw, rest))
    (hclean : ∀ below ∈ raw.within, below.Clean) :
    ∃ bytes, input = bytes ++ rest ∧ Written [raw.decode] bytes := by
  cases input with
  | nil => cases hread
  | cons byte behind =>
      simp only [readNode, Option.bind_eq_bind, Option.bind_eq_some_iff, Prod.exists] at hread
      obtain ⟨tag, htag, name, named, hname, hvalue⟩ := hread
      obtain ⟨hzero, rfl⟩ := readNullTerminated_eq_some.mp hname
      rw [fromU8_eq_some htag]
      split at hvalue
      next hsection =>
        obtain ⟨raws, closing, left, hinner, hreturn⟩ := by
          simpa only [Option.bind_eq_some_iff, Prod.exists] using hvalue
        cases hreturn
        have hself := hclean _ (RawNode.self_mem_within _)
        have hbelow : ∀ below ∈ RawNode.withinAll raws, below.Clean := fun below hmem =>
          hclean below (by rw [RawNode.within]; exact List.mem_cons_of_mem _ hmem)
        obtain ⟨inner, hwritten, hclosing⟩ := hnodes _ _ _ _ hinner hbelow
        obtain ⟨marker, hmarker⟩ := Option.isSome_iff_exists.mp hself.finished
        obtain ⟨hend, rfl⟩ := hclosing marker hmarker
        have hvalid : ValidUtf8 name := hself.utf8 name (RawNode.name_mem_strings _)
        have hkeys := RawNode.decodeAll_keys (fun node hmem =>
          (hbelow node (RawNode.mem_withinAll.mpr
            ⟨node, hmem, RawNode.self_mem_within node⟩)).utf8 _ (RawNode.name_mem_strings node))
          hself.distinct
        obtain ⟨hsorted, hperm⟩ := @SortedMap.foldl_insert _ _ _ KeyValue.key [] _
          List.Pairwise.nil hkeys
        refine ⟨_, ?_, Written.branch (nulFree_lossyText hvalid hzero) hsorted hperm.symm hwritten
          hend .nil⟩
        rw [nullString_lossyText hvalid, hsection]
        simp
      next hplain =>
        obtain ⟨payload, left, hpayload, hreturn⟩ := by
          simpa only [Option.bind_eq_some_iff, Prod.exists] using hvalue
        cases hreturn
        have hself := hclean _ (RawNode.self_mem_within _)
        have hvalid : ValidUtf8 name := hself.utf8 name (RawNode.name_mem_strings _)
        obtain ⟨front, rfl, hleaf, hnul⟩ := leaf_of_readPayload hpayload
          (by simpa [RawNode.finished] using hself.finished) (by
            rintro rfl
            exact hself.utf8 payload (by simp [RawNode.strings]))
        refine ⟨_, ?_, Written.leaf (nulFree_lossyText hvalid hzero) hnul hleaf .nil⟩
        rw [nullString_lossyText hvalid]
        simp

theorem encoded_of_readNodes {raws : List RawNode} {closing : Option KvTag}
    (hread : readNodes fuel input = some (raws, closing, rest))
    (hclean : ∀ below ∈ RawNode.withinAll raws, below.Clean) :
    Encoded input raws closing rest := by
  induction fuel using Nat.strong_induction_on generalizing input rest raws closing with
  | _ fuel ih =>
      match fuel, input with
      | 0, _ => cases hread
      | fuel + 1, [] =>
          cases hread
          exact ⟨[], .nil, fun marker hmarker => by cases hmarker⟩
      | fuel + 1, byte :: input =>
          rw [readNodes] at hread
          split at hread
          next hend =>
            obtain ⟨marker, htag, hmarker⟩ := (Option.any_eq_true _ _).mp hend
            rw [htag] at hread
            cases hread
            refine ⟨[], .nil, fun other hother => ?_⟩
            cases hother
            exact ⟨hmarker, by rw [fromU8_eq_some htag]; rfl⟩
          next =>
            simp only [Option.bind_eq_bind, Option.bind_eq_some_iff, Prod.exists] at hread
            obtain ⟨raw, behind, hfirst, raws, closing, left, hnodes, hreturn⟩ := hread
            cases hreturn
            have hboth : ∀ below, below ∈ raw.within ∨ below ∈ RawNode.withinAll raws →
                below.Clean := fun below hmem =>
              hclean below (by rw [RawNode.withinAll]; exact List.mem_append.mpr hmem)
            obtain ⟨bytes, hwritten, hclosing⟩ := ih fuel (by omega) hnodes
              fun below hmem => hboth below (.inr hmem)
            cases fuel with
            | zero => cases hfirst
            | succ fuel =>
                obtain ⟨front, hfront, hnode⟩ := written_of_readNode
                  (fun _ _ _ _ hinner hbelow => ih fuel (by omega) hinner hbelow) hfirst
                  fun below hmem => hboth below (.inl hmem)
                refine ⟨front ++ bytes, hnode.cons hwritten, fun marker hmarker => ?_⟩
                obtain ⟨hend, rfl⟩ := hclosing marker hmarker
                exact ⟨hend, by rw [hfront, List.append_assoc]⟩

/-- The nodes are read as nodes that are all finished. -/
def ReadFinished (fuel : Nat) (input : Bytes) (marker : KvTag) (rest : Bytes) : Prop :=
  ∃ raws, readNodes fuel input = some (raws, some marker, rest) ∧
    ∀ below ∈ RawNode.withinAll raws, below.finished = true

variable {key : String} {value : KvValue} {tag marker : KvTag} {payload inner : Bytes}

theorem readNullTerminated_nullString (hkey : NulFree key) (rest : Bytes) :
    readNullTerminated (nullString key ++ rest) = some (encodeUtf8 key.toList, rest) := by
  apply readNullTerminated_eq_some.mpr
  exact ⟨zero_notMem_encodeUtf8 hkey, by simp [nullString]⟩

theorem readPayload_leaf (hvalue : value.NulFree) (hleaf : value.leaf = some (tag, payload))
    (rest : Bytes) :
    tag ≠ .none ∧ tag ≠ .wideString ∧
      ∃ found, readPayload tag (payload ++ rest) = some (found, rest) := by
  cases value with
  | string text =>
      cases hleaf
      exact ⟨by simp, by simp, _, readNullTerminated_nullString hvalue rest⟩
  | int32 | float32 | uint64 | int64 | color | pointer =>
      cases hleaf
      exact ⟨by simp, by simp, _, readBytes_eq_some.mpr ⟨WireInt.length_write _ _, rfl⟩⟩
  | children => cases hleaf

theorem readNode_written_leaf (hkey : NulFree key) (hvalue : value.NulFree)
    (hleaf : value.leaf = some (tag, payload)) (fuel : Nat) (rest : Bytes) :
    ∃ raw, readNode (fuel + 1) (tag.toU8 :: (nullString key ++ payload ++ rest)) =
        some (raw, rest) ∧ ∀ below ∈ raw.within, below.finished = true := by
  obtain ⟨hplain, hwide, found, hfound⟩ := readPayload_leaf hvalue hleaf rest
  rw [List.append_assoc]
  refine ⟨_, readNode_leaf (KvTag.fromU8_toU8 tag) hplain (readNullTerminated_nullString hkey _)
    hfound, ?_⟩
  simp [RawNode.within, RawNode.finished, hwide]

theorem readNode_written_branch (hkey : NulFree key)
    (hinner : ReadFinished fuel inner marker rest) :
    ∃ raw, readNode (fuel + 1) (KvTag.none.toU8 :: (nullString key ++ inner)) = some (raw, rest) ∧
      ∀ below ∈ raw.within, below.finished = true := by
  obtain ⟨raws, hraws, hfinished⟩ := hinner
  refine ⟨_, readNode_branch (KvTag.fromU8_toU8 _) (readNullTerminated_nullString hkey _) hraws, ?_⟩
  intro below hmem
  rw [RawNode.within] at hmem
  rcases List.mem_cons.mp hmem with rfl | hmem
  · rfl
  · exact hfinished below hmem

theorem ReadFinished.node (hend : tag.isEnd = false)
    (hnode : ∃ raw, readNode fuel (tag.toU8 :: input) = some (raw, inner) ∧
      ∀ below ∈ raw.within, below.finished = true)
    (hnodes : ReadFinished fuel inner marker rest) :
    ReadFinished (fuel + 1) (tag.toU8 :: input) marker rest := by
  obtain ⟨raw, hraw, hself⟩ := hnode
  obtain ⟨raws, hraws, hfinished⟩ := hnodes
  refine ⟨raw :: raws, ?_, ?_⟩
  · rw [readNodes, KvTag.fromU8_toU8, if_neg (by simp [hend])]
    simp [hraw, hraws]
  · intro below hmem
    rw [RawNode.withinAll] at hmem
    rcases List.mem_append.mp hmem with hmem | hmem
    · exact hself below hmem
    · exact hfinished below hmem

/-- An encoding is read as nodes that are all finished. The induction follows the
encoding, as for the parser. -/
theorem Written.readFinished (hwritten : Written nodes bytes) (hmarker : marker.isEnd = true)
    (fuel : Nat) (rest : Bytes) (hfuel : bytes.length + rest.length + 1 < fuel) :
    ReadFinished fuel (bytes ++ marker.toU8 :: rest) marker rest := by
  induction hwritten generalizing marker fuel rest with
  | nil =>
      obtain ⟨fuel, rfl⟩ : ∃ less, fuel = less + 1 := ⟨fuel - 1, by omega⟩
      refine ⟨[], ?_, by simp [RawNode.withinAll]⟩
      rw [List.nil_append, readNodes, KvTag.fromU8_toU8, if_pos (by simpa using hmarker)]
  | @leaf key value tag payload bytes nodes hkey hvalue hleaf _ ih =>
      obtain ⟨fuel, rfl⟩ : ∃ less, fuel = less + 2 := ⟨fuel - 2, by omega⟩
      have hname := length_nullString_pos key
      simp only [List.length_cons, List.length_append] at hfuel
      have hnode := readNode_written_leaf hkey hvalue hleaf fuel (bytes ++ marker.toU8 :: rest)
      rw [List.cons_append, List.append_assoc]
      exact ReadFinished.node (leaf_not_end hleaf) hnode (ih hmarker _ _ (by omega))
  | @branch key children' order nodes inner bytes marker' hkey hchildren horder _ hmarker' _ ihin
      ihout =>
      obtain ⟨fuel, rfl⟩ : ∃ less, fuel = less + 2 := ⟨fuel - 2, by omega⟩
      have hname := length_nullString_pos key
      simp only [List.length_cons, List.length_append] at hfuel
      have hinner := ihin hmarker' fuel (bytes ++ marker.toU8 :: rest) (by
        simp only [List.length_cons, List.length_append]
        omega)
      have hnode := readNode_written_branch hkey hinner
      rw [List.cons_append, List.append_assoc, List.append_assoc, List.cons_append]
      exact ReadFinished.node rfl hnode (ihout hmarker _ _ (by omega))

/-- An encoding of one tree spells a finished node. -/
theorem Written.spelled {tree : KeyValue} (hwritten : Written [tree] bytes) (rest : Bytes) :
    ∃ raw, spelled (bytes ++ rest) = some (raw, rest) ∧ raw.Finished := by
  unfold Types.spelled
  cases hwritten with
  | leaf hkey hvalue hleaf hrest =>
      cases hrest
      rw [List.append_nil, List.cons_append]
      exact readNode_written_leaf hkey hvalue hleaf _ rest
  | @branch key children order _ inner _ marker hkey hchildren horder hinner hmarker hrest =>
      cases hrest
      have hread := hinner.readFinished hmarker
        ((KvTag.none.toU8 :: (nullString key ++ inner ++ [marker.toU8]) ++ rest).length) rest (by
          have hname := length_nullString_pos key
          simp only [List.length_cons, List.length_append, List.cons_append]
          omega)
      rw [List.cons_append, List.append_assoc, List.append_assoc] at hread ⊢
      exact readNode_written_branch hkey hread

/-- What the parser accepts, with strings in UTF-8 and no name twice in a section, is an
encoding of its result exactly when every section is closed and there is no wide string. -/
theorem parseBinaryKv_accepts_iff {tree : KeyValue}
    (hparse : parseBinaryKv input = .ok (tree, rest)) :
    ∃ raw, spelled input = some (raw, rest) ∧
      (raw.Proper →
        ((∃ consumed, input = consumed ++ rest ∧ Written [tree] consumed) ↔ raw.Finished)) := by
  obtain ⟨raw, hspelled, rfl⟩ := spelled_of_parse hparse
  refine ⟨raw, hspelled, fun hproper => ⟨?_, fun hfinished => ?_⟩⟩
  · rintro ⟨consumed, rfl, hwritten⟩
    obtain ⟨other, hother, hfinished⟩ := hwritten.spelled rest
    rw [hspelled] at hother
    cases hother
    exact hfinished
  · exact written_of_readNode (fun _ _ _ _ => encoded_of_readNodes) hspelled fun below hmem =>
      ⟨hproper.utf8 below hmem, hproper.distinct below hmem, hfinished below hmem⟩

/-- A section with a number, in front of one more byte. -/
theorem parseBinaryKv_accepts_iff_sample :
    ∃ consumed, ([0, 114, 0, 2, 110, 0, 1, 0, 0, 0, 11, 9] : Bytes) = consumed ++ [9] ∧
      Written [⟨"r", .children [⟨"n", .int32 1⟩]⟩] consumed := by
  have hparse : parseBinaryKv [0, 114, 0, 2, 110, 0, 1, 0, 0, 0, 11, 9] =
      .ok (⟨"r", .children [⟨"n", .int32 1⟩]⟩, [9]) := rfl
  have hraw : spelled [0, 114, 0, 2, 110, 0, 1, 0, 0, 0, 11, 9] =
      some (.branch [114] [.leaf .int32 [110] [1, 0, 0, 0]] (some .altEnd), [9]) := rfl
  obtain ⟨raw, hspelled, haccepts⟩ := parseBinaryKv_accepts_iff hparse
  rw [hraw] at hspelled
  cases hspelled
  apply (haccepts ?_).mpr
  · simp [RawNode.Finished, RawNode.within, RawNode.withinAll, RawNode.finished]
  · constructor
    · simp only [RawNode.within, RawNode.withinAll, List.append_nil, List.mem_cons,
        List.not_mem_nil, or_false, forall_eq_or_imp, forall_eq, RawNode.strings]
      decide
    · simp [RawNode.within, RawNode.withinAll, RawNode.children]

/-- A tree that is no encoding of what the parser consumed. -/
def NotEncoded (input : Bytes) (tree : KeyValue) : Prop :=
  ¬ ∃ consumed, input = consumed ++ [] ∧ Written [tree] consumed

theorem notEncoded_of_unfinished {raw below : RawNode} {tree : KeyValue}
    (hspelled : spelled input = some (raw, [])) (hmem : below ∈ raw.within)
    (hunfinished : below.finished = false) : NotEncoded input tree := by
  rintro ⟨consumed, rfl, hwritten⟩
  obtain ⟨other, hother, hfinished⟩ := hwritten.spelled []
  rw [hspelled] at hother
  cases hother
  rw [hfinished below hmem] at hunfinished
  cases hunfinished

/-- A section that the input ends in is returned as it is so far, and the payload of a
wide string is returned as a node next to it. -/
theorem unfinished_accepted :
    (∃ raw, spelled [0, 114, 0] = some (raw, []) ∧ raw.Proper) ∧
    parseBinaryKv [0, 114, 0] = .ok (⟨"r", .children []⟩, []) ∧
    NotEncoded [0, 114, 0] ⟨"r", .children []⟩ ∧
    (∃ raw, spelled [0, 114, 0, 5, 119, 0, 1, 97, 0, 98, 0, 8] = some (raw, []) ∧ raw.Proper) ∧
    parseBinaryKv [0, 114, 0, 5, 119, 0, 1, 97, 0, 98, 0, 8] =
      .ok (⟨"r", .children [⟨"a", .string "b"⟩, ⟨"w", .string ""⟩]⟩, []) ∧
    NotEncoded [0, 114, 0, 5, 119, 0, 1, 97, 0, 98, 0, 8]
      ⟨"r", .children [⟨"a", .string "b"⟩, ⟨"w", .string ""⟩]⟩ := by
  have hopen : spelled [0, 114, 0] = some (.branch [114] [] none, []) := rfl
  have hwide : spelled [0, 114, 0, 5, 119, 0, 1, 97, 0, 98, 0, 8] =
      some (.branch [114] [.leaf .wideString [119] [], .leaf .string [97] [98]] (some .endTag),
        []) := rfl
  refine ⟨⟨_, hopen, ?_, ?_⟩, rfl, notEncoded_of_unfinished hopen (RawNode.self_mem_within _) rfl,
    ⟨_, hwide, ?_, ?_⟩, rfl, ?_⟩
  · simp only [RawNode.within, RawNode.withinAll, List.mem_singleton, forall_eq, RawNode.strings]
    decide
  · simp [RawNode.within, RawNode.withinAll, RawNode.children]
  · simp only [RawNode.within, RawNode.withinAll, List.append_nil, List.cons_append,
      List.nil_append, List.mem_cons, List.not_mem_nil, or_false, forall_eq_or_imp, forall_eq,
      RawNode.strings]
    decide
  · simp [RawNode.within, RawNode.withinAll, RawNode.children, RawNode.name]
  · have hmem : RawNode.leaf .wideString [119] [] ∈ (RawNode.branch [114]
        [.leaf .wideString [119] [], .leaf .string [97] [98]] (some .endTag)).within := by
      simp [RawNode.within, RawNode.withinAll]
    exact notEncoded_of_unfinished hwide hmem rfl

end Encodings

end DepotDownloader.Steam.Types
