import DepotDownloader.Foundation.ByteString

/-! # Writes that end in the background

A handle takes a buffer over and returns before the bytes are in the file. Whether they
got there is reported by the next operation that waits for it, once. A failure that no
operation waits for is reported to nobody.
-/

namespace Foundation

namespace Bytes

/-- Cut into buffers of a size, the last of which may be shorter. The fuel bounds their
number. -/
def buffersFrom (size : Nat) : Nat → Bytes → List Bytes
  | 0, _ => []
  | _ + 1, [] => []
  | fuel + 1, byte :: rest =>
      (byte :: rest.take (size - 1)) :: buffersFrom size fuel (rest.drop (size - 1))

def buffers (size : Nat) (data : Bytes) : List Bytes := buffersFrom size data.length data

theorem flatten_buffersFrom (size : Nat) {fuel : Nat} {data : Bytes} (hfuel : data.length ≤ fuel) :
    (buffersFrom size fuel data).flatten = data := by
  induction fuel generalizing data with
  | zero => rw [List.length_eq_zero_iff.mp (Nat.le_zero.mp hfuel), buffersFrom, List.flatten_nil]
  | succ fuel ih =>
      cases data with
      | nil => rfl
      | cons byte rest =>
          have hrest : (rest.drop (size - 1)).length ≤ fuel := by
            rw [List.length_drop]
            rw [List.length_cons] at hfuel
            omega
          rw [buffersFrom, List.flatten_cons, ih hrest, List.cons_append, List.take_append_drop]

@[simp] theorem flatten_buffers (size : Nat) (data : Bytes) : (buffers size data).flatten = data :=
  flatten_buffersFrom size le_rfl

/-- Two writes one behind the other are one write. -/
theorem writeAt_append (data : Bytes) (offset : Nat) (first second : Bytes) :
    writeAt (writeAt data offset first) (offset + first.length) second =
      writeAt data offset (first ++ second) := by
  by_cases hfirst : first = []
  · simp [hfirst, writeAt_nil]
  by_cases hsecond : second = []
  · simp [hsecond, writeAt_nil]
  let front := data.take offset ++ List.replicate (offset - data.length) 0 ++ first
  have hfront : front.length = offset + first.length := by
    simp only [front, List.length_append, List.length_take, List.length_replicate]
    omega
  have hwritten : writeAt data offset first = front ++ data.drop (offset + first.length) :=
    if_neg hfirst
  have htake : (front ++ data.drop (offset + first.length)).take (offset + first.length) = front :=
    List.take_left' hfront
  have hfill : offset + first.length - (front ++ data.drop (offset + first.length)).length = 0 := by
    rw [List.length_append]
    omega
  have hdrop : (front ++ data.drop (offset + first.length)).drop
      (offset + first.length + second.length) = data.drop (offset + (first ++ second).length) := by
    rw [List.drop_append, hfront, List.drop_eq_nil_of_le (by omega), List.nil_append,
      List.drop_drop, List.length_append]
    congr 1
    omega
  rw [hwritten]
  unfold writeAt
  rw [if_neg hsecond, if_neg (by simp [hfirst]), htake, hfill, hdrop]
  simp only [front, List.replicate_zero, List.append_nil, List.append_assoc]

end Bytes

/-- An open file, its cursor, whether a failure waits to be reported, and how the
writes in the background ended (`true` for a failure), the last one first. -/
structure BackgroundFile where
  data : Bytes
  cursor : Nat
  unreported : Bool
  results : List Bool

namespace BackgroundFile

/-- Hand over one buffer. A fault lets only so many of its bytes reach the file. -/
def pollWrite (file : BackgroundFile) (buffer : Bytes) (fault : Option Nat) :
    BackgroundFile × Bool :=
  if file.unreported then ({ file with unreported := false }, false)
  else
    match fault with
    | none =>
        ({ file with
            data := Bytes.writeAt file.data file.cursor buffer
            cursor := file.cursor + buffer.length
            results := false :: file.results }, true)
    | some count =>
        ({ file with
            data := Bytes.writeAt file.data file.cursor (buffer.take count)
            cursor := file.cursor + (buffer.take count).length
            unreported := true
            results := true :: file.results }, true)

/-- Hand over the buffers of one write, each with its fault. It stops at a report. -/
def writeAll (file : BackgroundFile) : List (Bytes × Option Nat) → BackgroundFile × Bool
  | [] => (file, true)
  | (buffer, fault) :: rest =>
      match file.pollWrite buffer fault with
      | (file, false) => (file, false)
      | (file, true) => writeAll file rest

/-- Only the last failure can be waiting. -/
def Consistent (file : BackgroundFile) : Prop :=
  file.unreported = true → file.results.head? = some true

/-- Some write has failed in the background. -/
def Failed (file : BackgroundFile) : Prop := true ∈ file.results

variable {file after : BackgroundFile} {buffer : Bytes} {fault : Option Nat} {ok : Bool}
  {buffers : List (Bytes × Option Nat)}

theorem pollWrite_consistent (hpoll : file.pollWrite buffer fault = (after, ok)) :
    after.Consistent := by
  unfold pollWrite at hpoll
  split at hpoll
  · cases hpoll
    intro hunreported
    cases hunreported
  next hreported =>
    split at hpoll <;> cases hpoll
    · intro hunreported
      exact absurd hunreported hreported
    · intro _
      rfl

theorem Consistent.writeAll (hconsistent : file.Consistent)
    (hwrite : file.writeAll buffers = (after, ok)) : after.Consistent := by
  induction buffers generalizing file with
  | nil =>
      cases hwrite
      exact hconsistent
  | cons first rest ih =>
      rw [writeAll] at hwrite
      split at hwrite
      next next hpoll =>
        cases hwrite
        exact pollWrite_consistent hpoll
      next next hpoll => exact ih (pollWrite_consistent hpoll) hwrite

/-- A write that returns Ok has found no failure waiting, so those before it have been
reported, and one of its own waits. -/
theorem writeAll_failed (hwrite : file.writeAll buffers = (after, true))
    (hfailed : after.Failed) :
    after.unreported = true ∨ (file.Failed ∧ file.unreported = false) := by
  induction buffers generalizing file with
  | nil =>
      cases hwrite
      cases hreport : after.unreported with
      | true => exact .inl rfl
      | false => exact .inr ⟨hfailed, rfl⟩
  | cons first rest ih =>
      rw [writeAll] at hwrite
      split at hwrite
      next => cases hwrite
      next next hpoll =>
        rcases ih hwrite with hwaits | ⟨hbefore, hnone⟩
        · exact .inl hwaits
        · unfold pollWrite at hpoll
          split at hpoll
          next => cases hpoll
          next hreported =>
            split at hpoll <;> cases hpoll
            · exact .inr ⟨by simpa [Failed] using hbefore, by simpa using hreported⟩
            · cases hnone

/-- Without a fault, and with no failure waiting, the bytes are written. -/
theorem writeAll_faultless (hwaiting : file.unreported = false)
    (hfaultless : ∀ part ∈ buffers, part.2 = none) :
    (file.writeAll buffers).2 = true ∧ (file.writeAll buffers).1.unreported = false ∧
      (file.writeAll buffers).1.data =
        Bytes.writeAt file.data file.cursor (buffers.map Prod.fst).flatten := by
  induction buffers generalizing file with
  | nil => exact ⟨rfl, hwaiting, (Bytes.writeAt_nil _ _).symm⟩
  | cons first rest ih =>
      obtain ⟨buffer, fault⟩ := first
      obtain ⟨hnone, hrest⟩ := List.forall_mem_cons.mp hfaultless
      obtain rfl : fault = none := hnone
      rw [writeAll, pollWrite, if_neg (by simp [hwaiting])]
      have hnext : ({ file with
          data := Bytes.writeAt file.data file.cursor buffer
          cursor := file.cursor + buffer.length
          results := false :: file.results } : BackgroundFile).unreported = false := hwaiting
      obtain ⟨hok, hreported, hdata⟩ := ih hnext hrest
      refine ⟨hok, hreported, hdata.trans ?_⟩
      rw [List.map_cons, List.flatten_cons, ← Bytes.writeAt_append]

end BackgroundFile

end Foundation
