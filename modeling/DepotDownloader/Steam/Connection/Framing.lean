import DepotDownloader.Foundation.Winnow
import DepotDownloader.Steam.LittleEndian

/-! # VT01 frames

A frame on the wire is the length of its payload, a magic number and the payload.
The transport reads frames from a socket, waiting for exactly the bytes it needs;
`parse_frame` takes them from a buffer and asks for more when the buffer ends
inside a frame.
-/

namespace DepotDownloader.Steam

open Foundation Winnow

namespace Framing

/-- TCP packet magic: "VT01" as little-endian u32. -/
def magic : Nat := leNat [86, 84, 48, 49]

/-- The outcome of a parser on an input that may go on. -/
inductive FrameResult where
  | incomplete
  | backtrack (context : List StrContext)
  | done (payload rest : Bytes)
  deriving DecidableEq

/-- Parse a single VT01 frame from a streaming byte buffer. -/
def parseFrame (input : Bytes) : FrameResult :=
  match readUint 4 input with
  | none => .incomplete
  | some (len, afterLength) =>
      match readUint 4 afterLength with
      | none => .incomplete
      | some (word, afterMagic) =>
          if word ≠ magic then
            .backtrack [.expected "VT01 magic (0x31305456)", .label "frame magic"]
          else
            match readBytes len afterMagic with
            | none => .incomplete
            | some (payload, rest) => .done payload rest

/-- Write a VT01 frame to the given writer. The length is cut to 32 bits. -/
def writeFrame (written payload : Bytes) : Bytes :=
  written ++ toLeBytes 4 payload.length ++ toLeBytes 4 magic ++ payload

/-- Serialize a VT01 frame. -/
def frameBytes (payload : Bytes) : Bytes := writeFrame [] payload

theorem magic_lt : magic < 256 ^ 4 := by decide

theorem frameBytes_eq (payload : Bytes) :
    frameBytes payload = toLeBytes 4 payload.length ++ (toLeBytes 4 magic ++ payload) := by
  simp [frameBytes, writeFrame]

theorem length_frameBytes (payload : Bytes) : (frameBytes payload).length = payload.length + 8 := by
  simp only [frameBytes_eq, List.length_append, length_toLeBytes]
  omega

variable {input payload rest : Bytes}

/-- A header in front of some bytes. -/
def header (len word : Nat) : Bytes := toLeBytes 4 len ++ toLeBytes 4 word

theorem length_header (len word : Nat) : (header len word).length = 8 := by
  simp [header]

/-- An input is shorter than a header or starts with one. -/
theorem header_cases (input : Bytes) : input.length < 8 ∨
    ∃ len word rest, len < 256 ^ 4 ∧ word < 256 ^ 4 ∧ input = header len word ++ rest := by
  by_cases hlength : input.length < 8
  · exact .inl hlength
  · right
    cases hlen : readUint 4 input with
    | none =>
        have hshort := readUint_eq_none.mp hlen
        omega
    | some found =>
        obtain ⟨hbound, hinput⟩ := readUint_eq_some.mp hlen
        have hsplit := congrArg List.length hinput
        rw [List.length_append, length_toLeBytes] at hsplit
        cases hword : readUint 4 found.2 with
        | none =>
            have hshort := readUint_eq_none.mp hword
            omega
        | some found' =>
            obtain ⟨hbound', hrest⟩ := readUint_eq_some.mp hword
            refine ⟨found.1, found'.1, found'.2, hbound, hbound', ?_⟩
            rw [hinput, hrest, header, List.append_assoc]

theorem parseFrame_short (hlength : input.length < 8) : parseFrame input = .incomplete := by
  unfold parseFrame
  cases hlen : readUint 4 input with
  | none => rfl
  | some found =>
      obtain ⟨_, hinput⟩ := readUint_eq_some.mp hlen
      have hsplit := congrArg List.length hinput
      rw [List.length_append, length_toLeBytes] at hsplit
      have hword : readUint 4 found.2 = none := readUint_eq_none.mpr (by omega)
      simp [hword]

theorem parseFrame_header {len word : Nat} (hlen : len < 256 ^ 4) (hword : word < 256 ^ 4)
    (rest : Bytes) :
    parseFrame (header len word ++ rest) =
      if word ≠ magic then
        .backtrack [.expected "VT01 magic (0x31305456)", .label "frame magic"]
      else
        match readBytes len rest with
        | none => .incomplete
        | some (payload, rest) => .done payload rest := by
  rw [header, List.append_assoc]
  simp [parseFrame, readUint_append hlen, readUint_append hword]

theorem frameBytes_header (payload : Bytes) :
    frameBytes payload = header payload.length magic ++ payload := by
  rw [frameBytes_eq, header, List.append_assoc]

/-- A frame in front of anything is parsed, and exactly it is consumed. -/
theorem parseFrame_append (hpayload : payload.length < 2 ^ 32) (rest : Bytes) :
    parseFrame (frameBytes payload ++ rest) = .done payload rest := by
  rw [frameBytes_header, List.append_assoc, parseFrame_header hpayload magic_lt, if_neg (by simp),
    readBytes_append]

/-- What was parsed is a frame. -/
theorem parseFrame_done :
    parseFrame input = .done payload rest ↔
      payload.length < 2 ^ 32 ∧ input = frameBytes payload ++ rest := by
  constructor
  · intro hparse
    rcases header_cases input with hshort | ⟨len, word, after, hlen, hword, rfl⟩
    · rw [parseFrame_short hshort] at hparse
      cases hparse
    · rw [parseFrame_header hlen hword] at hparse
      split at hparse
      next => cases hparse
      next hmagic =>
        split at hparse
        next => cases hparse
        next found left hread =>
          cases hparse
          obtain ⟨rfl, rfl⟩ := readBytes_eq_some.mp hread
          refine ⟨hlen, ?_⟩
          rw [frameBytes_header, not_not.mp hmagic, List.append_assoc]
  · rintro ⟨hpayload, rfl⟩
    exact parseFrame_append hpayload rest

/-- The buffer has a magic word and it is wrong. -/
def BadMagic (input : Bytes) : Prop :=
  8 ≤ input.length ∧ leNat ((input.drop 4).take 4) ≠ magic

instance (input : Bytes) : Decidable (BadMagic input) := by unfold BadMagic; infer_instance

theorem badMagic_header {len word : Nat} (hword : word < 256 ^ 4) (rest : Bytes) :
    BadMagic (header len word ++ rest) ↔ word ≠ magic := by
  have hdrop : (header len word ++ rest).drop 4 = toLeBytes 4 word ++ rest := by
    rw [header, List.append_assoc, List.drop_left' (length_toLeBytes 4 len)]
  unfold BadMagic
  rw [hdrop, List.take_left' (length_toLeBytes 4 word), leNat_toLeBytes hword, List.length_append,
    length_header]
  constructor
  · intro hbad
    exact hbad.2
  · intro hmagic
    exact ⟨by omega, hmagic⟩

/-- Only a wrong magic word is an error. -/
theorem parseFrame_backtrack :
    (∃ context, parseFrame input = .backtrack context) ↔ BadMagic input := by
  rcases header_cases input with hshort | ⟨len, word, rest, hlen, hword, rfl⟩
  · rw [parseFrame_short hshort]
    simp only [reduceCtorEq, exists_false, BadMagic, false_iff, not_and]
    omega
  · rw [parseFrame_header hlen hword, badMagic_header hword]
    by_cases hmagic : word = magic
    · cases hread : readBytes len rest <;> simp [hmagic]
    · simp [hmagic]

/-- More input changes only the answer of a buffer that ended inside a frame. -/
theorem parseFrame_more (hwhole : parseFrame input ≠ .incomplete) (more : Bytes) :
    parseFrame (input ++ more) =
      match parseFrame input with
      | .incomplete => .incomplete
      | .backtrack context => .backtrack context
      | .done payload rest => .done payload (rest ++ more) := by
  cases hparse : parseFrame input with
  | incomplete => exact absurd hparse hwhole
  | done payload rest =>
      obtain ⟨hpayload, rfl⟩ := parseFrame_done.mp hparse
      rw [List.append_assoc]
      exact parseFrame_append hpayload _
  | backtrack context =>
      rcases header_cases input with hshort | ⟨len, word, rest, hlen, hword, rfl⟩
      · rw [parseFrame_short hshort] at hparse
        cases hparse
      · have hmagic := (badMagic_header hword rest).mp (parseFrame_backtrack.mp ⟨context, hparse⟩)
        rw [parseFrame_header hlen hword, if_pos hmagic] at hparse
        rw [List.append_assoc, parseFrame_header hlen hword, if_pos hmagic]
        exact hparse

/-- A frame that is cut short is never parsed and never an error. -/
theorem parseFrame_cut (hpayload : payload.length < 2 ^ 32)
    (hlead : input <+: frameBytes payload) (hcut : input ≠ frameBytes payload) :
    parseFrame input = .incomplete := by
  obtain ⟨more, hmore⟩ := hlead
  have hwhole := parseFrame_append hpayload []
  rw [List.append_nil, ← hmore] at hwhole
  by_contra hincomplete
  rw [parseFrame_more hincomplete] at hwhole
  cases hparse : parseFrame input with
  | incomplete => exact hincomplete hparse
  | backtrack context =>
      rw [hparse] at hwhole
      cases hwhole
  | done found rest =>
      rw [hparse] at hwhole
      have hend : rest ++ more = [] := by
        injection hwhole
      apply hcut
      rw [← hmore, (List.append_eq_nil_iff.mp hend).2, List.append_nil]

end Framing

end DepotDownloader.Steam
