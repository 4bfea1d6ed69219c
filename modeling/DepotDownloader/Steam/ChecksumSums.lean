import DepotDownloader.Foundation.RunningSums
import DepotDownloader.Steam.Checksum

/-! # The sums behind Steam's Adler-32

No addition overflows a word between two reductions, so the checksum is made of the two
sums as integers. Pieces of 5552 bytes are the longest for which this holds.
-/

namespace DepotDownloader.Steam

open Foundation

namespace SteamAdler32

/-- `+` on words in a build with overflow checks, which ends at an overflow. -/
def checkedAdd (left right : UInt32) : Option UInt32 :=
  if left.toNat + right.toNat ≤ 2 ^ 32 - 1 then some (left + right) else none

def addByteChecked (sums : UInt32 × UInt32) (byte : UInt8) : Option (UInt32 × UInt32) := do
  let s1 ← checkedAdd sums.1 byte.toUInt32
  let s2 ← checkedAdd sums.2 s1
  return (s1, s2)

def addChunkChecked (sums : UInt32 × UInt32) (bytes : Bytes) : Option (UInt32 × UInt32) := do
  let summed ← bytes.foldlM addByteChecked sums
  return (summed.1 % base, summed.2 % base)

/-- The whole of `compute` in a build with overflow checks. -/
def computeChecked (data : Bytes) : Option UInt32 := do
  let sums ← (pieces data).foldlM addChunkChecked (0, 0)
  return (sums.2 <<< 16) ||| sums.1

/-- `compute` with a reduction behind every byte. -/
def computeEagerly (data : Bytes) : UInt32 :=
  let sums := data.foldl (fun sums byte => addChunk sums [byte]) (0, 0)
  (sums.2 <<< 16) ||| sums.1

/-- The sum of the bytes. -/
def byteSum (data : Bytes) : Nat := ∑ index : Fin data.length, data[index].toNat

/-- The sum of the bytes, the first one as often as there are bytes and the last one once. -/
def weightedSum (data : Bytes) : Nat :=
  ∑ index : Fin data.length, (data.length - index) * data[index].toNat

/-! ## The words as integers -/

/-- The two sums as integers. -/
def integers (sums : UInt32 × UInt32) : Nat × Nat := (sums.1.toNat, sums.2.toNat)

/-- A byte added to the integers. -/
abbrev advance : Nat × Nat → UInt8 → Nat × Nat := RunningSums.advance UInt8.toNat

/-- Both sums are reduced. -/
structure Reduced (sums : UInt32 × UInt32) : Prop where
  first : sums.1.toNat ≤ 65520
  second : sums.2.toNat ≤ 65520

theorem checkedAdd_fits {left right : UInt32} (hfits : left.toNat + right.toNat < 2 ^ 32) :
    checkedAdd left right = some (left + right) :=
  if_pos (Nat.le_pred_of_lt hfits)

theorem checkedAdd_overflow {left right : UInt32} (hover : 2 ^ 32 ≤ left.toNat + right.toNat) :
    checkedAdd left right = none :=
  if_neg (by omega)

theorem toNat_add_fits {left right : UInt32} (hfits : left.toNat + right.toNat < 2 ^ 32) :
    (left + right).toNat = left.toNat + right.toNat := by
  rw [UInt32.toNat_add, Nat.mod_eq_of_lt hfits]

variable {sums : UInt32 × UInt32} {byte : UInt8} {bytes data : Bytes}

/-- The first sum does not overflow when the second one does not. -/
theorem first_fits (hfits : (advance (integers sums) byte).2 < 2 ^ 32) :
    sums.1.toNat + byte.toUInt32.toNat < 2 ^ 32 := by
  rw [UInt8.toNat_toUInt32]
  exact lt_of_le_of_lt (Nat.le_add_left _ _) hfits

/-- The second addition, when the first one has not overflowed. -/
theorem second_addend (hfirst : sums.1.toNat + byte.toUInt32.toNat < 2 ^ 32) :
    sums.2.toNat + (sums.1 + byte.toUInt32).toNat = (advance (integers sums) byte).2 := by
  rw [toNat_add_fits hfirst, UInt8.toNat_toUInt32]
  rfl

theorem integers_addByte (hfits : (advance (integers sums) byte).2 < 2 ^ 32) :
    integers (addByte sums byte) = advance (integers sums) byte := by
  have hsecond := second_addend (first_fits hfits)
  apply Prod.ext
  · exact (toNat_add_fits (first_fits hfits)).trans (by rw [UInt8.toNat_toUInt32]; rfl)
  · exact (toNat_add_fits (hsecond ▸ hfits)).trans hsecond

theorem addByteChecked_fits (hfits : (advance (integers sums) byte).2 < 2 ^ 32) :
    addByteChecked sums byte = some (addByte sums byte) := by
  have hfirst := first_fits hfits
  rw [← second_addend hfirst] at hfits
  simp [addByteChecked, checkedAdd_fits hfirst, checkedAdd_fits hfits, addByte]

theorem addByteChecked_overflow (hover : 2 ^ 32 ≤ (advance (integers sums) byte).2) :
    addByteChecked sums byte = none := by
  by_cases hfirst : sums.1.toNat + byte.toUInt32.toNat < 2 ^ 32
  · rw [← second_addend hfirst] at hover
    simp [addByteChecked, checkedAdd_fits hfirst, checkedAdd_overflow hover]
  · simp [addByteChecked, checkedAdd_overflow (Nat.le_of_not_lt hfirst)]

/-! ## One piece -/

/-- The second sum never falls, so what it comes to bounds it on the whole way. -/
theorem addBytes_fits (hfits : (bytes.foldl advance (integers sums)).2 < 2 ^ 32) :
    bytes.foldlM addByteChecked sums = some (bytes.foldl addByte sums) ∧
      integers (bytes.foldl addByte sums) = bytes.foldl advance (integers sums) := by
  induction bytes generalizing sums with
  | nil => exact ⟨rfl, rfl⟩
  | cons byte rest ih =>
      rw [List.foldl_cons] at hfits
      have hbyte := lt_of_le_of_lt (RunningSums.second_le_foldl _ rest) hfits
      have hadded := integers_addByte hbyte
      rw [← hadded] at hfits
      obtain ⟨hchecked, hintegers⟩ := ih hfits
      constructor
      · rw [List.foldlM_cons, addByteChecked_fits hbyte]
        exact hchecked
      · rw [List.foldl_cons, List.foldl_cons, hintegers, hadded]

theorem addBytesChecked_overflow (hover : 2 ^ 32 ≤ (bytes.foldl advance (integers sums)).2) :
    bytes.foldlM addByteChecked sums = none := by
  induction bytes generalizing sums with
  | nil => exact absurd sums.2.toNat_lt (Nat.not_lt_of_le hover)
  | cons byte rest ih =>
      rw [List.foldlM_cons]
      by_cases hbyte : (advance (integers sums) byte).2 < 2 ^ 32
      · rw [addByteChecked_fits hbyte]
        apply ih
        rw [integers_addByte hbyte]
        exact hover
      · rw [addByteChecked_overflow (Nat.le_of_not_lt hbyte)]
        rfl

theorem peak_chunkLength : RunningSums.peak 65520 255 chunkLength < 2 * 2 ^ 32 := by decide

theorem piece_fits (hreduced : Reduced sums) (hlength : bytes.length ≤ chunkLength) :
    (bytes.foldl advance (integers sums)).2 < 2 ^ 32 := by
  have hbound : ∀ byte ∈ bytes, byte.toNat ≤ 255 := fun byte _ =>
    Nat.le_of_lt_succ byte.toNat_lt
  have hfirst : (integers sums).1 ≤ 65520 := hreduced.first
  have hpeak := RunningSums.two_mul_second_le_peak hfirst hreduced.second hbound hlength
  exact Nat.lt_of_mul_lt_mul_left (lt_of_le_of_lt hpeak peak_chunkLength)

/-- Pieces of up to 5552 bytes are exactly those in which nothing can overflow. -/
theorem chunkLength_longest (length : Nat) :
    (∀ sums, Reduced sums → ∀ bytes : Bytes, bytes.length ≤ length →
      (bytes.foldlM addByteChecked sums).isSome) ↔ length ≤ chunkLength := by
  constructor
  · intro hnever
    by_contra hlonger
    let sums : UInt32 × UInt32 := (65520, 65520)
    let bytes : Bytes := List.replicate (chunkLength + 1) 255
    have hover : 2 ^ 32 ≤ (bytes.foldl advance (integers sums)).2 := by
      have htwice : 2 * (bytes.foldl advance (integers sums)).2 =
          RunningSums.peak 65520 255 (chunkLength + 1) :=
        RunningSums.two_mul_second_replicate 65520 (chunkLength + 1) (255 : UInt8)
      have hpeak : 2 * 2 ^ 32 ≤ RunningSums.peak 65520 255 (chunkLength + 1) := by decide
      omega
    have hsome := hnever sums ⟨le_rfl, le_rfl⟩ bytes
      (by rw [List.length_replicate]; exact Nat.lt_of_not_le hlonger)
    rw [addBytesChecked_overflow hover] at hsome
    cases hsome
  · intro hle sums hreduced bytes hlength
    rw [(addBytes_fits (piece_fits hreduced (hlength.trans hle))).1]
    rfl

theorem integers_addChunk (hreduced : Reduced sums) (hlength : bytes.length ≤ chunkLength) :
    integers (addChunk sums bytes) =
      RunningSums.addPiece UInt8.toNat 65521 (integers sums) bytes := by
  unfold RunningSums.addPiece
  rw [← (addBytes_fits (piece_fits hreduced hlength)).2]
  exact Prod.ext (UInt32.toNat_mod _ _) (UInt32.toNat_mod _ _)

theorem addChunkChecked_eq (hreduced : Reduced sums) (hlength : bytes.length ≤ chunkLength) :
    addChunkChecked sums bytes = some (addChunk sums bytes) := by
  unfold addChunkChecked
  rw [(addBytes_fits (piece_fits hreduced hlength)).1]
  rfl

theorem reduced_addChunk (sums : UInt32 × UInt32) (bytes : Bytes) :
    Reduced (addChunk sums bytes) where
  first := by
    rw [addChunk, UInt32.toNat_mod]
    exact Nat.le_of_lt_succ (Nat.mod_lt _ (by decide))
  second := by
    rw [addChunk, UInt32.toNat_mod]
    exact Nat.le_of_lt_succ (Nat.mod_lt _ (by decide))

theorem reduced_zero : Reduced (0, 0) := ⟨Nat.zero_le _, Nat.zero_le _⟩

/-! ## All the pieces -/

section Pieces

variable {chunks : List Bytes}

/-- From reduced sums on, pieces that are short enough lead to the reduced sums of all
their bytes, however these are cut. -/
theorem addChunks_exact (hreduced : Reduced sums)
    (hshort : ∀ chunk ∈ chunks, chunk.length ≤ chunkLength) :
    chunks.foldlM addChunkChecked sums = some (chunks.foldl addChunk sums) ∧
      integers (chunks.foldl addChunk sums) =
        chunks.foldl (RunningSums.addPiece UInt8.toNat 65521) (integers sums) ∧
      Reduced (chunks.foldl addChunk sums) := by
  induction chunks generalizing sums with
  | nil => exact ⟨rfl, rfl, hreduced⟩
  | cons chunk rest ih =>
      have hchunk := hshort chunk List.mem_cons_self
      obtain ⟨hchecked, hintegers, hafter⟩ := ih (reduced_addChunk sums chunk)
        fun other hmem => hshort other (List.mem_cons_of_mem _ hmem)
      refine ⟨?_, ?_, hafter⟩
      · rw [List.foldlM_cons, addChunkChecked_eq hreduced hchunk]
        exact hchecked
      · rw [List.foldl_cons, List.foldl_cons, hintegers, integers_addChunk hreduced hchunk]

theorem integers_foldl_addChunk (hshort : ∀ chunk ∈ chunks, chunk.length ≤ chunkLength) :
    integers (chunks.foldl addChunk (0, 0)) =
      (byteSum chunks.flatten % 65521, weightedSum chunks.flatten % 65521) := by
  have hzero : integers (0, 0) = RunningSums.reduce 65521 (0, 0) := rfl
  rw [(addChunks_exact reduced_zero hshort).2.1, hzero,
    RunningSums.foldl_addPiece, RunningSums.foldl_advance]
  simp only [RunningSums.reduce, Nat.zero_add, Nat.mul_zero]
  rw [RunningSums.weighted_eq_sum, ← Fin.sum_univ_fun_getElem]
  rfl

end Pieces

theorem length_pieces {piece : Bytes} (hmem : piece ∈ pieces data) :
    piece.length ≤ chunkLength := by
  obtain ⟨index, _, rfl⟩ := List.mem_map.mp hmem
  exact List.length_take_le _ _

/-- So many pieces are the front of the data. -/
theorem flatten_pieces_front (data : Bytes) (count : Nat) :
    ((List.range count).map fun index =>
      (data.drop (chunkLength * index)).take chunkLength).flatten =
        data.take (chunkLength * count) := by
  induction count with
  | zero => rfl
  | succ count ih =>
      rw [List.range_succ, List.map_append, List.flatten_append, ih, Nat.mul_succ, List.take_add]
      simp

@[simp] theorem flatten_pieces (data : Bytes) : (pieces data).flatten = data := by
  rw [pieces, flatten_pieces_front, List.take_of_length_le]
  unfold chunkLength
  omega

/-! ## The checksum -/

/-- Two reduced sums side by side in a word. -/
theorem toNat_joined (hreduced : Reduced sums) :
    ((sums.2 <<< 16) ||| sums.1).toNat = (integers sums).2 <<< 16 ||| (integers sums).1 := by
  have hhigh : sums.2.toNat <<< 16 < 2 ^ 32 := by
    have hsecond := hreduced.second
    rw [Nat.shiftLeft_eq]
    omega
  rw [UInt32.toNat_or, UInt32.toNat_shiftLeft]
  exact congrArg (· ||| sums.1.toNat) (Nat.mod_eq_of_lt hhigh)

/-- However the bytes were cut. -/
theorem toNat_cut {chunks : List Bytes} (hshort : ∀ chunk ∈ chunks, chunk.length ≤ chunkLength) :
    (((chunks.foldl addChunk (0, 0)).2 <<< 16) ||| (chunks.foldl addChunk (0, 0)).1).toNat =
      (weightedSum chunks.flatten % 65521) <<< 16 ||| byteSum chunks.flatten % 65521 := by
  have hexact := addChunks_exact reduced_zero hshort
  rw [toNat_joined hexact.2.2, integers_foldl_addChunk hshort]

theorem toNat_compute (data : Bytes) :
    (compute data).toNat = (weightedSum data % 65521) <<< 16 ||| byteSum data % 65521 := by
  have hvalue := toNat_cut fun piece (hmem : piece ∈ pieces data) => length_pieces hmem
  rw [flatten_pieces] at hvalue
  exact hvalue

/-- Single bytes are pieces too. -/
theorem toNat_computeEagerly (data : Bytes) :
    (computeEagerly data).toNat =
      (weightedSum data % 65521) <<< 16 ||| byteSum data % 65521 := by
  have hsingle : ∀ piece ∈ data.map fun byte => [byte], piece.length ≤ chunkLength := by
    intro piece hmem
    obtain ⟨byte, _, rfl⟩ := List.mem_map.mp hmem
    exact Nat.le_of_ble_eq_true rfl
  have hvalue := toNat_cut hsingle
  rw [← List.flatMap_def, List.flatMap_singleton', List.foldl_map] at hvalue
  exact hvalue

theorem computeChecked_eq (data : Bytes) : computeChecked data = some (compute data) := by
  unfold computeChecked
  rw [(addChunks_exact reduced_zero fun piece hmem => length_pieces hmem).1]
  rfl

/-- Nothing overflows, the checksum is made of the sums as integers, and it does not
matter that they are reduced only now and then. -/
theorem compute_exact (data : Bytes) :
    computeChecked data = some (compute data) ∧
      (compute data).toNat = (weightedSum data % 65521) <<< 16 ||| byteSum data % 65521 ∧
      compute data = computeEagerly data := by
  refine ⟨computeChecked_eq data, toNat_compute data, ?_⟩
  apply UInt32.toNat.inj
  rw [toNat_compute, toNat_computeEagerly]

example : compute [0x61, 0x62, 0x63] = 0x024A0126 := by decide

/-! ## What the checksum tells apart -/

theorem compute_eq_iff {other : Bytes} :
    compute data = compute other ↔
      byteSum data ≡ byteSum other [MOD 65521] ∧
        weightedSum data ≡ weightedSum other [MOD 65521] := by
  have hlow : ∀ bytes, byteSum bytes % 65521 < 2 ^ 16 := fun bytes =>
    (Nat.mod_lt _ (by decide)).trans (by decide)
  rw [← UInt32.toNat_inj, toNat_compute, toNat_compute,
    ← Nat.shiftLeft_add_eq_or_of_lt (hlow data), ← Nat.shiftLeft_add_eq_or_of_lt (hlow other),
    Nat.shiftLeft_eq, Nat.shiftLeft_eq]
  unfold Nat.ModEq
  have hdata := hlow data
  have hother := hlow other
  constructor
  · intro heq
    constructor <;> omega
  · intro heq
    rw [heq.1, heq.2]

theorem byteSum_eq (data : Bytes) : byteSum data = (data.map UInt8.toNat).sum :=
  Fin.sum_univ_fun_getElem data UInt8.toNat

/-- Another byte in one place is always noticed. -/
theorem compute_ne_of_changed {front rest : Bytes} {byte changed : UInt8} (hne : byte ≠ changed) :
    compute (front ++ byte :: rest) ≠ compute (front ++ changed :: rest) := by
  intro heq
  have hsums := (compute_eq_iff.mp heq).1
  simp only [byteSum_eq, List.map_append, List.map_cons, List.sum_append, List.sum_cons] at hsums
  have hbytes := Nat.ModEq.add_right_cancel' _ (Nat.ModEq.add_left_cancel' _ hsums)
  have hlt : ∀ value : UInt8, value.toNat < 65521 := fun value =>
    value.toNat_lt.trans (by decide)
  exact hne (UInt8.toNat.inj (hbytes.eq_of_lt_of_lt (hlt byte) (hlt changed)))

end SteamAdler32

end DepotDownloader.Steam
