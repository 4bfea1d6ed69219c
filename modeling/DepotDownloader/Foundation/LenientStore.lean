import DepotDownloader.Foundation.ByteString
import Mathlib.Logic.Function.Basic

/-! # Stores that are read leniently

A store of entries is the text of one file. A load that finds no readable text gives the
empty store, and a save truncates the file and writes it anew. Every change is a load,
a change of one entry and a save, which may be interrupted.
-/

namespace Foundation

universe u v w

/-- Entries under other keys are found as before. -/
theorem lookup_filter_of_ne {Key : Type u} {Value : Type v} [DecidableEq Key] {key other : Key}
    (hne : other ≠ key) (entries : List (Key × Value)) :
    (entries.filter fun entry => entry.1 ≠ key).lookup other = entries.lookup other := by
  induction entries with
  | nil => rfl
  | cons entry rest ih =>
      by_cases hentry : entry.1 = key
      · have hother : (other == entry.1) = false := by
          rw [hentry]
          exact beq_eq_false_iff_ne.mpr hne
        rw [List.filter_cons_of_neg (by simpa using hentry), ih, List.lookup_cons, hother]
      · rw [List.filter_cons_of_pos (by simpa using hentry), List.lookup_cons, List.lookup_cons,
          ih]

/-- How far a write gets before it fails or the process ends. -/
inductive WriteFault where
  | unopened
  | cut (written : Nat)
  deriving DecidableEq, Repr

/-- A store with its text. A text is read back with the same entries, and one that has
lost its end is not read at all. -/
structure StoreFormat (Key : Type u) (Value : Type v) (Store : Type w) where
  empty : Store
  get : Store → Key → Option Value
  set : Store → Key → Value → Store
  encode : Store → Bytes
  decode : Bytes → Option Store
  get_empty : ∀ key, get empty key = none
  get_set_self : ∀ store key value, get (set store key value) key = some value
  get_set_of_ne : ∀ store key value other, other ≠ key →
    get (set store key value) other = get store other
  decode_encode : ∀ store, ∃ store', decode (encode store) = some store' ∧
    ∀ key, get store' key = get store key
  decode_cut : ∀ store written, written < (encode store).length →
    decode ((encode store).take written) = none

/-- A load, the change of one entry and a save. -/
structure StoreCycle (Key : Type u) (Value : Type v) where
  key : Key
  value : Value
  fault : Option WriteFault

namespace StoreFormat

variable {Key : Type u} {Value : Type v} {Store : Type w} (format : StoreFormat Key Value Store)

/-- A missing or unreadable text counts as empty. -/
def load : Option Bytes → Store
  | none => format.empty
  | some text => (format.decode text).getD format.empty

def changed (file : Option Bytes) (cycle : StoreCycle Key Value) : Store :=
  format.set (format.load file) cycle.key cycle.value

def step (file : Option Bytes) (cycle : StoreCycle Key Value) : Option Bytes :=
  match cycle.fault with
  | none => some (format.encode (format.changed file cycle))
  | some .unopened => file
  | some (.cut written) => some ((format.encode (format.changed file cycle)).take written)

/-- Every entry that is promised is there. -/
def Keeps (promised : Key → Option Value) (file : Option Bytes) : Prop :=
  ∀ key value, promised key = some value → format.get (format.load file) key = some value

/-- A completed save promises its entry, an interrupted one takes the promise back. -/
def promise [DecidableEq Key] (promised : Key → Option Value) (cycle : StoreCycle Key Value) :
    Key → Option Value :=
  Function.update promised cycle.key (if cycle.fault = none then some cycle.value else none)

/-- A save that loses the end of its text has no other entry to lose. -/
def Spares (promised : Key → Option Value) (file : Option Bytes) (cycle : StoreCycle Key Value) :
    Prop :=
  ∀ written, cycle.fault = some (.cut written) →
    written < (format.encode (format.changed file cycle)).length →
      ∀ other, other ≠ cycle.key → promised other = none

variable {format} {promised : Key → Option Value} {file : Option Bytes}
  {cycle : StoreCycle Key Value}

theorem get_changed_of_ne (file : Option Bytes) {other : Key} (hne : other ≠ cycle.key) :
    format.get (format.changed file cycle) other = format.get (format.load file) other :=
  format.get_set_of_ne _ _ _ _ hne

/-- A text that has been written to its end is read back. -/
theorem get_load_written (store : Store) (key : Key) {written : Nat}
    (hwhole : (format.encode store).length ≤ written) :
    format.get (format.load (some ((format.encode store).take written))) key =
      format.get store key := by
  obtain ⟨store', hdecode, hsame⟩ := format.decode_encode store
  rw [List.take_of_length_le hwhole, load, hdecode, Option.getD_some, hsame]

theorem get_load_cut (store : Store) (key : Key) {written : Nat}
    (hcut : written < (format.encode store).length) :
    format.get (format.load (some ((format.encode store).take written))) key = none := by
  rw [load, format.decode_cut store written hcut, Option.getD_none, format.get_empty]

theorem get_load_step_none (hfault : cycle.fault = none) (key : Key) :
    format.get (format.load (format.step file cycle)) key =
      format.get (format.changed file cycle) key := by
  obtain ⟨store', hdecode, hsame⟩ := format.decode_encode (format.changed file cycle)
  rw [step, hfault]
  simp only [load, hdecode, Option.getD_some, hsame]

section Promises

variable [DecidableEq Key]

theorem promise_of_ne {other : Key} (hne : other ≠ cycle.key) :
    promise promised cycle other = promised other := Function.update_of_ne hne _ _

/-- What an interrupted save still owes is owed under another key. -/
theorem ne_of_promise {fault : WriteFault} (hfault : cycle.fault = some fault) {key : Key}
    {value : Value} (hpromised : promise promised cycle key = some value) : key ≠ cycle.key := by
  rintro rfl
  rw [promise, Function.update_self, if_neg (by simp [hfault])] at hpromised
  cases hpromised

theorem keeps_step_written (hkeeps : format.Keeps promised file) (hfault : cycle.fault = none) :
    format.Keeps (promise promised cycle) (format.step file cycle) := by
  intro key value hpromised
  rw [get_load_step_none hfault]
  by_cases heq : key = cycle.key
  · subst heq
    rw [promise, Function.update_self, if_pos hfault] at hpromised
    rw [changed, format.get_set_self, hpromised]
  · rw [promise_of_ne heq] at hpromised
    rw [get_changed_of_ne file heq]
    exact hkeeps key value hpromised

theorem keeps_step_unopened (hkeeps : format.Keeps promised file)
    (hfault : cycle.fault = some .unopened) :
    format.Keeps (promise promised cycle) (format.step file cycle) := by
  intro key value hpromised
  rw [promise_of_ne (ne_of_promise hfault hpromised)] at hpromised
  rw [step, hfault]
  exact hkeeps key value hpromised

/-- A save that loses its end leaves no entry at all. -/
theorem keeps_step_cut {written : Nat} (hfault : cycle.fault = some (.cut written))
    (hlt : written < (format.encode (format.changed file cycle)).length) :
    format.Keeps (promise promised cycle) (format.step file cycle) ↔
      ∀ other, other ≠ cycle.key → promised other = none := by
  rw [step, hfault]
  constructor
  · intro hafter other hne
    by_contra hsome
    obtain ⟨value, hvalue⟩ := Option.ne_none_iff_exists'.mp hsome
    have hget := hafter other value ((promise_of_ne hne).trans hvalue)
    rw [get_load_cut _ _ hlt] at hget
    cases hget
  · intro hothers key value hpromised
    have hne := ne_of_promise hfault hpromised
    rw [promise_of_ne hne, hothers key hne] at hpromised
    cases hpromised

theorem keeps_step_whole (hkeeps : format.Keeps promised file) {written : Nat}
    (hfault : cycle.fault = some (.cut written))
    (hwhole : (format.encode (format.changed file cycle)).length ≤ written) :
    format.Keeps (promise promised cycle) (format.step file cycle) := by
  intro key value hpromised
  have hne := ne_of_promise hfault hpromised
  rw [promise_of_ne hne] at hpromised
  rw [step, hfault]
  simp only [get_load_written _ _ hwhole, get_changed_of_ne file hne]
  exact hkeeps key value hpromised

/-- One cycle keeps what is promised exactly when it spares the other entries. -/
theorem keeps_step_iff (cycle : StoreCycle Key Value) (hkeeps : format.Keeps promised file) :
    format.Keeps (promise promised cycle) (format.step file cycle) ↔
      format.Spares promised file cycle := by
  unfold Spares
  rcases hfault : cycle.fault with _ | _ | written
  · exact iff_of_true (keeps_step_written hkeeps hfault) (fun _ hcut => by cases hcut)
  · exact iff_of_true (keeps_step_unopened hkeeps hfault) (fun _ hcut => by cases hcut)
  · by_cases hlt : written < (format.encode (format.changed file cycle)).length
    · rw [keeps_step_cut hfault hlt]
      refine ⟨fun hothers _ _ _ => hothers, fun hspares => hspares written rfl hlt⟩
    · refine iff_of_true (keeps_step_whole hkeeps hfault (Nat.le_of_not_lt hlt)) ?_
      intro written' hcut hlt'
      cases hcut
      exact absurd hlt' hlt

end Promises

end StoreFormat

end Foundation
