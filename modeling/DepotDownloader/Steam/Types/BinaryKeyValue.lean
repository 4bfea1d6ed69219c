import DepotDownloader.Steam.Types.KeyValue

/-! # The binary KeyValue format

An encoding of a tree writes the children of a section in any order and closes it
with either end marker. Parsing an encoding gives the tree and leaves what comes
behind.
-/

namespace DepotDownloader.Steam.Types

open Foundation Winnow WireInt

/-- A null-terminated string. -/
def nullString (text : String) : Bytes := encodeUtf8 text.toList ++ [0]

/-- The tag of a value that has no children, and the bytes of the value. -/
def KvValue.leaf : KvValue → Option (KvTag × Bytes)
  | .string text => some (.string, nullString text)
  | .int32 value => some (.int32, i32.write value)
  | .float32 bits => some (.float32, u32.write bits)
  | .uint64 value => some (.uint64, u64.write value)
  | .int64 value => some (.int64, i64.write value)
  | .color value => some (.color, i32.write value)
  | .pointer value => some (.pointer, i32.write value)
  | .children _ => none

/-- A string value can be null-terminated. -/
def KvValue.NulFree : KvValue → Prop
  | .string text => Steam.NulFree text
  | _ => True

/-- The bytes hold the nodes one behind the other. -/
inductive Written : List KeyValue → Bytes → Prop where
  | nil : Written [] []
  | leaf {key : String} {value : KvValue} {tag : KvTag} {payload bytes : Bytes}
      {nodes : List KeyValue} (hkey : NulFree key) (hvalue : value.NulFree)
      (hleaf : value.leaf = some (tag, payload)) (hrest : Written nodes bytes) :
      Written (⟨key, value⟩ :: nodes) (tag.toU8 :: (nullString key ++ payload ++ bytes))
  | branch {key : String} {children order nodes : List KeyValue} {inner bytes : Bytes}
      {marker : KvTag} (hkey : NulFree key) (hchildren : SortedMap.Sorted KeyValue.key children)
      (horder : order.Perm children) (hinner : Written order inner) (hmarker : marker.isEnd = true)
      (hrest : Written nodes bytes) :
      Written (⟨key, .children children⟩ :: nodes)
        (KvTag.none.toU8 :: (nullString key ++ inner ++ marker.toU8 :: bytes))

section Strings

variable {text : String}

theorem parseNullString_append (htext : NulFree text) (rest : Bytes) :
    parseNullString (nullString text ++ rest) = .ok (text, rest) := by
  have hzero : ∀ byte ∈ encodeUtf8 text.toList, (decide (byte ≠ 0)) = true := by
    intro byte hmem
    apply decide_eq_true
    rintro rfl
    exact zero_notMem_encodeUtf8 htext hmem
  have hdrop : (nullString text ++ rest).dropWhile (· ≠ 0) = 0 :: rest := by
    rw [nullString, List.append_assoc, List.dropWhile_append_of_pos hzero]
    rfl
  have htake : (nullString text ++ rest).takeWhile (· ≠ 0) = encodeUtf8 text.toList := by
    rw [nullString, List.append_assoc, List.takeWhile_append_of_pos hzero]
    simp
  unfold parseNullString
  rw [hdrop, htake, fromUtf8Lossy_encodeUtf8, String.ofList_toList]

end Strings

section Parse

variable {key : String} {value : KvValue} {tag : KvTag} {payload inner : Bytes}

theorem takeInt_tag (tag : KvTag) (rest : Bytes) :
    takeInt u8 (tag.toU8 :: rest) = .ok (tag.toU8, rest) := by
  have hwrite : tag.toU8 :: rest = u8.write tag.toU8 ++ rest := by
    cases tag <;> rfl
  rw [hwrite, takeInt_append]

/-- A node without children is parsed back. -/
theorem parseNode_leaf (hkey : NulFree key) (hvalue : value.NulFree)
    (hleaf : value.leaf = some (tag, payload)) (fuel : Nat) (rest : Bytes) :
    parseNode (fuel + 1) (tag.toU8 :: (nullString key ++ payload ++ rest)) =
      .ok (⟨key, value⟩, rest) := by
  have hname := parseNullString_append hkey (payload ++ rest)
  rw [List.append_assoc]
  cases value with
  | string text =>
      cases hleaf
      have htext := parseNullString_append (show NulFree text from hvalue) rest
      simp [parseNode, takeInt_tag, hname, htext, bind, Except.bind, pure, Except.pure]
  | int32 | float32 | uint64 | int64 | color | pointer =>
      cases hleaf
      simp [parseNode, takeInt_tag, hname, bind, Except.bind, pure, Except.pure]
  | children => cases hleaf

/-- A section is parsed back when its children are. -/
theorem parseNode_section (hkey : NulFree key) {children : List KeyValue} {fuel : Nat}
    {rest : Bytes} (hchildren : parseChildren fuel [] inner = .ok (children, rest)) :
    parseNode (fuel + 1) (KvTag.none.toU8 :: (nullString key ++ inner)) =
      .ok (⟨key, .children children⟩, rest) := by
  have hname := parseNullString_append hkey inner
  simp [parseNode, takeInt_tag, hname, hchildren, bind, Except.bind, pure, Except.pure]

theorem leaf_not_end (hleaf : value.leaf = some (tag, payload)) : tag.isEnd = false := by
  cases value <;> cases hleaf <;> rfl

theorem length_nullString_pos (text : String) : 0 < (nullString text).length := by
  simp [nullString]

/-- One more node is parsed and inserted. -/
theorem parseChildren_node {fuel : Nat} {children : List KeyValue} {node : KeyValue}
    {input rest : Bytes} (hend : tag.isEnd = false)
    (hnode : parseNode fuel (tag.toU8 :: input) = .ok (node, rest)) :
    parseChildren (fuel + 1) children (tag.toU8 :: input) =
      parseChildren fuel (node.insert children) rest := by
  rw [parseChildren, KvTag.fromU8_toU8, if_neg (by simp [hend]), hnode]
  rfl

theorem parseChildren_end {fuel : Nat} {children : List KeyValue} {marker : KvTag}
    (hmarker : marker.isEnd = true) (rest : Bytes) :
    parseChildren (fuel + 1) children (marker.toU8 :: rest) = .ok (children, rest) := by
  rw [parseChildren, KvTag.fromU8_toU8, if_pos (by simpa using hmarker)]
  rfl

/-- Nodes in front of an end marker are parsed and inserted one by one. The
induction follows the encoding: a section needs it for its own children, and every
node for the nodes behind it. -/
theorem Written.parse {nodes : List KeyValue} {bytes : Bytes} (hwritten : Written nodes bytes)
    {marker : KvTag} (hmarker : marker.isEnd = true) (fuel : Nat) (children : List KeyValue)
    (rest : Bytes) (hfuel : bytes.length + rest.length + 1 < fuel) :
    parseChildren fuel children (bytes ++ marker.toU8 :: rest) =
      .ok (nodes.foldl (fun children node => node.insert children) children, rest) := by
  induction hwritten generalizing marker fuel children rest with
  | nil =>
      obtain ⟨fuel, rfl⟩ := Nat.exists_eq_add_of_lt (Nat.zero_lt_of_lt hfuel)
      rw [Nat.zero_add]
      exact parseChildren_end hmarker rest
  | @leaf key value tag payload bytes nodes hkey hvalue hleaf _ ih =>
      obtain ⟨fuel, rfl⟩ : ∃ less, fuel = less + 2 := ⟨fuel - 2, by omega⟩
      have hname := length_nullString_pos key
      simp only [List.length_cons, List.length_append] at hfuel
      have hnode := parseNode_leaf hkey hvalue hleaf fuel (bytes ++ marker.toU8 :: rest)
      rw [List.cons_append, List.append_assoc,
        parseChildren_node (leaf_not_end hleaf) hnode, ih hmarker _ _ _ (by omega),
        List.foldl_cons]
  | @branch key children' order nodes inner bytes marker' hkey hchildren horder _ hmarker' _ ihin
      ihout =>
      obtain ⟨fuel, rfl⟩ : ∃ less, fuel = less + 2 := ⟨fuel - 2, by omega⟩
      have hname := length_nullString_pos key
      simp only [List.length_cons, List.length_append] at hfuel
      have hinner := ihin hmarker' fuel [] (bytes ++ marker.toU8 :: rest) (by
        simp only [List.length_cons, List.length_append]
        omega)
      rw [show order.foldl (fun children node => node.insert children) [] = children' from
        SortedMap.foldl_insert_perm hchildren horder] at hinner
      have hnode := parseNode_section hkey hinner
      rw [List.cons_append, List.append_assoc, List.append_assoc, List.cons_append,
        parseChildren_node rfl hnode, ihout hmarker _ _ _ (by omega), List.foldl_cons]

/-- Binary KeyValue round trip: parsing an encoding of a tree, in front of
anything, gives exactly that tree and leaves exactly what comes behind. -/
theorem parseBinaryKv_written {tree : KeyValue} {bytes : Bytes} (hwritten : Written [tree] bytes)
    (rest : Bytes) : parseBinaryKv (bytes ++ rest) = .ok (tree, rest) := by
  unfold parseBinaryKv
  cases hwritten with
  | leaf hkey hvalue hleaf hrest =>
      cases hrest
      rw [List.append_nil, List.cons_append]
      exact parseNode_leaf hkey hvalue hleaf _ rest
  | @branch key children order _ inner _ marker hkey hchildren horder hinner hmarker hrest =>
      cases hrest
      have hname := length_nullString_pos key
      have hparse := hinner.parse hmarker
        ((KvTag.none.toU8 :: (nullString key ++ inner ++ [marker.toU8]) ++ rest).length) [] rest
        (by
          simp only [List.length_cons, List.length_append, List.length_nil]
          omega)
      rw [show order.foldl (fun children node => node.insert children) [] = children from
        SortedMap.foldl_insert_perm hchildren horder] at hparse
      rw [List.cons_append, List.append_assoc, List.append_assoc] at hparse ⊢
      exact parseNode_section hkey hparse

/-- A section with two children, encoded in falling order of keys and closed with
the other end marker, in front of one more byte. -/
theorem parseBinaryKv_written_sample :
    parseBinaryKv ((KvTag.none.toU8 :: (nullString "r" ++
        (KvTag.int32.toU8 :: (nullString "n" ++ i32.write (-1) ++
          KvTag.string.toU8 :: (nullString "k" ++ nullString "v" ++ []))) ++
        [KvTag.altEnd.toU8])) ++ [7]) =
      .ok (⟨"r", .children [⟨"k", .string "v"⟩, ⟨"n", .int32 (-1)⟩]⟩, [7]) := by
  apply parseBinaryKv_written
  apply @Written.branch "r" _ [⟨"n", .int32 (-1)⟩, ⟨"k", .string "v"⟩]
  · simp [NulFree]
  · have hlt : "k" < "n" := String.lt_iff_toList_lt.mpr (by decide)
    exact List.pairwise_pair.mpr hlt
  · exact List.Perm.swap _ _ _
  · apply Written.leaf
    · simp [NulFree]
    · trivial
    · rfl
    · apply Written.leaf
      · simp [NulFree]
      · simp [KvValue.NulFree, NulFree]
      · rfl
      · exact Written.nil
  · rfl
  · exact Written.nil

end Parse

end DepotDownloader.Steam.Types
