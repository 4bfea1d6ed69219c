import DepotDownloader.Steam.Depot.Chunk
import Mathlib.Data.List.TakeWhile

/-! # Little-endian integers

Reading an integer undoes writing it, in front of any rest, and what was read can
be written back. Readers take what they read off the front of the input.
-/

namespace DepotDownloader.Steam

open Foundation

/-- Read an unsigned integer of some bytes from a reader. -/
def readUint (width : Nat) (data : Bytes) : Option (Nat × Bytes) :=
  if data.length < width then none else some (leNat (data.take width), data.drop width)

variable {width value : Nat} {data rest : Bytes}

@[simp] theorem length_toLeBytes (width value : Nat) : (toLeBytes width value).length = width := by
  induction width generalizing value with
  | zero => rfl
  | succ width ih => simp [toLeBytes, ih]

theorem leNat_toLeBytes (hvalue : value < 256 ^ width) : leNat (toLeBytes width value) = value := by
  induction width generalizing value with
  | zero =>
      rw [Nat.pow_zero, Nat.lt_one_iff] at hvalue
      rw [hvalue]
      rfl
  | succ width ih =>
      have hrest : value / 256 < 256 ^ width := by
        rw [Nat.pow_succ] at hvalue
        omega
      have hbyte : (UInt8.ofNat (value % 256)).toNat = value % 256 := by simp
      rw [toLeBytes, leNat, ih hrest, hbyte]
      omega

theorem toLeBytes_leNat (data : Bytes) : toLeBytes data.length (leNat data) = data := by
  induction data with
  | nil => rfl
  | cons byte rest ih =>
      have hbyte : byte.toNat < 256 := byte.toNat_lt
      have hlow : (byte.toNat + 256 * leNat rest) % 256 = byte.toNat := by omega
      have hhigh : (byte.toNat + 256 * leNat rest) / 256 = leNat rest := by omega
      rw [List.length_cons, leNat, toLeBytes, hlow, hhigh, ih]
      simp

theorem leNat_lt (data : Bytes) : leNat data < 256 ^ data.length := by
  induction data with
  | nil => decide
  | cons byte rest ih =>
      have hbyte : byte.toNat < 256 := byte.toNat_lt
      rw [leNat, List.length_cons, Nat.pow_succ]
      omega

theorem readUint_append (hvalue : value < 256 ^ width) (rest : Bytes) :
    readUint width (toLeBytes width value ++ rest) = some (value, rest) := by
  have hlength := length_toLeBytes width value
  unfold readUint
  rw [if_neg (by simp), List.take_left' hlength, List.drop_left' hlength, leNat_toLeBytes hvalue]

theorem readUint_eq_none : readUint width data = none ↔ data.length < width := by
  simp [readUint]

theorem readUint_eq_some :
    readUint width data = some (value, rest) ↔
      value < 256 ^ width ∧ data = toLeBytes width value ++ rest := by
  constructor
  · intro hread
    unfold readUint at hread
    split at hread
    next => cases hread
    next hlength =>
      cases hread
      have htake : (data.take width).length = width := by
        rw [List.length_take]
        omega
      constructor
      · simpa only [htake] using leNat_lt (data.take width)
      · have hback := toLeBytes_leNat (data.take width)
        rw [htake] at hback
        rw [hback, List.take_append_drop]
  · rintro ⟨hvalue, rfl⟩
    exact readUint_append hvalue rest

/-- Take exactly some bytes from a reader. -/
def readBytes (count : Nat) (data : Bytes) : Option (Bytes × Bytes) :=
  if data.length < count then none else some (data.take count, data.drop count)

theorem readBytes_append (bytes rest : Bytes) :
    readBytes bytes.length (bytes ++ rest) = some (bytes, rest) := by
  simp [readBytes]

theorem readBytes_eq_some {count : Nat} {bytes : Bytes} :
    readBytes count data = some (bytes, rest) ↔ bytes.length = count ∧ data = bytes ++ rest := by
  constructor
  · intro hread
    unfold readBytes at hread
    split at hread
    next => cases hread
    next hlength =>
      cases hread
      constructor
      · rw [List.length_take]
        omega
      · rw [List.take_append_drop]
  · rintro ⟨rfl, rfl⟩
    exact readBytes_append bytes rest

/-- The bytes before a NUL, and what comes behind it. -/
def readNullTerminated (data : Bytes) : Option (Bytes × Bytes) :=
  match data.dropWhile (· ≠ 0) with
  | [] => none
  | _ :: rest => some (data.takeWhile (· ≠ 0), rest)

theorem readNullTerminated_eq_some {name : Bytes} :
    readNullTerminated data = some (name, rest) ↔
      (0 : UInt8) ∉ name ∧ data = name ++ 0 :: rest := by
  constructor
  · intro hread
    unfold readNullTerminated at hread
    split at hread
    next => cases hread
    next byte behind hbehind =>
      cases hread
      have hzero : byte = 0 := by
        have hhead := List.head?_dropWhile_not (fun byte : UInt8 => decide (byte ≠ 0)) data
        rw [hbehind] at hhead
        simpa using hhead
      constructor
      · intro hmem
        have hbyte := List.mem_takeWhile_imp hmem
        simp at hbyte
      · have hsplit : data.takeWhile (· ≠ 0) ++ data.dropWhile (· ≠ 0) = data :=
          List.takeWhile_append_dropWhile
        rw [hbehind, hzero] at hsplit
        exact hsplit.symm
  · rintro ⟨hname, rfl⟩
    have hall : ∀ byte ∈ name, decide (byte ≠ 0) = true := by
      intro byte hmem
      apply decide_eq_true
      rintro rfl
      exact hname hmem
    unfold readNullTerminated
    rw [List.dropWhile_append_of_pos hall, List.takeWhile_append_of_pos hall]
    simp

/-- A computation succeeds when its first step does and the rest does with its result. -/
theorem bind_eq_ok {ε α β : Type} {result : β} {first : Except ε α} {next : α → Except ε β} :
    first >>= next = .ok result ↔ ∃ value, first = .ok value ∧ next value = .ok result := by
  cases first with
  | error error => simp [bind, Except.bind]
  | ok value => simp [bind, Except.bind]

/-- The rest of a computation matters only at what its first step gives. -/
theorem bind_congr_ok {ε α β : Type} {first : Except ε α} {rest rest' : α → Except ε β}
    (hrest : ∀ value, first = .ok value → rest value = rest' value) :
    first >>= rest = first >>= rest' := by
  cases first with
  | error error => rfl
  | ok value => exact hrest value rfl

/-- A type of integers of a fixed width. -/
structure WireInt (α : Type) where
  width : Nat
  toNat : α → Nat
  ofNat : Nat → α
  toNat_lt : ∀ value, toNat value < 256 ^ width
  ofNat_toNat : ∀ value, ofNat (toNat value) = value
  toNat_ofNat : ∀ number < 256 ^ width, toNat (ofNat number) = number

namespace WireInt

variable {α : Type} (int : WireInt α)

def read (data : Bytes) : Option (α × Bytes) :=
  (readUint int.width data).map fun found => (int.ofNat found.1, found.2)

def write (value : α) : Bytes := toLeBytes int.width (int.toNat value)

@[simp] theorem length_write (value : α) : (int.write value).length = int.width :=
  length_toLeBytes _ _

@[simp] theorem read_append (value : α) (rest : Bytes) :
    int.read (int.write value ++ rest) = some (value, rest) := by
  rw [read, write, readUint_append (int.toNat_lt value), Option.map_some, int.ofNat_toNat]

theorem read_eq_some {value : α} :
    int.read data = some (value, rest) ↔ data = int.write value ++ rest := by
  constructor
  · intro hread
    obtain ⟨⟨number, left⟩, hfound, heq⟩ := Option.map_eq_some_iff.mp hread
    cases heq
    obtain ⟨hbound, rfl⟩ := readUint_eq_some.mp hfound
    rw [write, int.toNat_ofNat number hbound]
  · rintro rfl
    exact int.read_append value rest

theorem read_eq_none : int.read data = none ↔ data.length < int.width := by
  rw [read, Option.map_eq_none_iff, readUint_eq_none]

def u8 : WireInt UInt8 where
  width := 1
  toNat := UInt8.toNat
  ofNat := UInt8.ofNat
  toNat_lt value := value.toNat_lt
  ofNat_toNat _ := UInt8.ofNat_toNat
  toNat_ofNat _ hnumber := UInt8.toNat_ofNat_of_lt' hnumber

def u16 : WireInt UInt16 where
  width := 2
  toNat := UInt16.toNat
  ofNat := UInt16.ofNat
  toNat_lt value := value.toNat_lt
  ofNat_toNat _ := UInt16.ofNat_toNat
  toNat_ofNat _ hnumber := UInt16.toNat_ofNat_of_lt' hnumber

def u32 : WireInt UInt32 where
  width := 4
  toNat := UInt32.toNat
  ofNat := UInt32.ofNat
  toNat_lt value := value.toNat_lt
  ofNat_toNat _ := UInt32.ofNat_toNat
  toNat_ofNat _ hnumber := UInt32.toNat_ofNat_of_lt' hnumber

def u64 : WireInt UInt64 where
  width := 8
  toNat := UInt64.toNat
  ofNat := UInt64.ofNat
  toNat_lt value := value.toNat_lt
  ofNat_toNat _ := UInt64.ofNat_toNat
  toNat_ofNat _ hnumber := UInt64.toNat_ofNat_of_lt' hnumber

/-- Signed integers in two's complement. -/
def i32 : WireInt Int32 where
  width := 4
  toNat value := value.toUInt32.toNat
  ofNat number := ⟨UInt32.ofNat number⟩
  toNat_lt value := value.toUInt32.toNat_lt
  ofNat_toNat _ := congrArg Int32.ofUInt32 UInt32.ofNat_toNat
  toNat_ofNat _ hnumber := UInt32.toNat_ofNat_of_lt' hnumber

def i64 : WireInt Int64 where
  width := 8
  toNat value := value.toUInt64.toNat
  ofNat number := ⟨UInt64.ofNat number⟩
  toNat_lt value := value.toUInt64.toNat_lt
  ofNat_toNat _ := congrArg Int64.ofUInt64 UInt64.ofNat_toNat
  toNat_ofNat _ hnumber := UInt64.toNat_ofNat_of_lt' hnumber

/-- A field is found at its place. -/
theorem leNat_field (front : Bytes) (value : UInt32) (rest : Bytes) :
    leNat (((front ++ (u32.write value ++ rest)).drop front.length).take 4) = value.toNat := by
  have htake : (u32.write value ++ rest).take 4 = u32.write value :=
    List.take_left' (u32.length_write value)
  rw [List.drop_left, htake]
  exact leNat_toLeBytes (u32.toNat_lt value)

end WireInt

end DepotDownloader.Steam
