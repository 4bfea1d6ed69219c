import DepotDownloader.Steam.Connection.Framing

/-! # Two readers of one stream

The transport reads a frame with two exact reads. A sans-IO caller collects what
arrives in a buffer, runs `parse_frame` on it, and starts again at the start of
the frame when the buffer ends too early. Both take the same frames from a stream
and stop at the same place, however the stream arrives.
-/

namespace DepotDownloader.Steam

open Foundation Framing

namespace TcpTransport

inductive RecvResult where
  | unexpectedEof
  | badMagic (expected actual : Nat)
  | received (payload rest : Bytes)
  deriving DecidableEq

/-- Receive one payload from the bytes that the peer sends. An exact read waits
for all its bytes and fails when the stream ends before. -/
def recv (stream : Bytes) : RecvResult :=
  if stream.length < 8 then .unexpectedEof
  else
    let header := stream.take 8
    let len := leNat (header.take 4)
    let word := leNat (header.drop 4)
    if word ≠ magic then .badMagic magic word
    else
      let rest := stream.drop 8
      if rest.length < len then .unexpectedEof
      else .received (rest.take len) (rest.drop len)

/-- The payloads taken from a stream, what is left where the reading stops, and
whether it stops with an error. -/
structure Intake where
  payloads : List Bytes
  rest : Bytes
  failed : Bool
  deriving DecidableEq

def Intake.cons (payload : Bytes) (intake : Intake) : Intake :=
  { intake with payloads := payload :: intake.payloads }

variable {input payload rest stream : Bytes}

theorem recv_header {len word : Nat} (hlen : len < 256 ^ 4) (hword : word < 256 ^ 4)
    (rest : Bytes) :
    recv (header len word ++ rest) =
      if word ≠ magic then .badMagic magic word
      else if rest.length < len then .unexpectedEof
      else .received (rest.take len) (rest.drop len) := by
  have htake : (header len word ++ rest).take 8 = header len word :=
    List.take_left' (length_header len word)
  have hdrop : (header len word ++ rest).drop 8 = rest :=
    List.drop_left' (length_header len word)
  have hlow : leNat ((header len word).take 4) = len := by
    rw [header, List.take_left' (length_toLeBytes 4 len), leNat_toLeBytes hlen]
  have hhigh : leNat ((header len word).drop 4) = word := by
    rw [header, List.drop_left' (length_toLeBytes 4 len), leNat_toLeBytes hword]
  unfold recv
  rw [if_neg (by rw [List.length_append, length_header]; omega)]
  simp only [htake, hdrop, hlow, hhigh]

/-- The transport and the parser judge a stream alike. -/
theorem recv_eq_parseFrame (stream : Bytes) :
    match recv stream with
    | .unexpectedEof => parseFrame stream = .incomplete
    | .badMagic _ _ => ∃ context, parseFrame stream = .backtrack context
    | .received payload rest => parseFrame stream = .done payload rest := by
  rcases header_cases stream with hshort | ⟨len, word, rest, hlen, hword, rfl⟩
  · have hrecv : recv stream = .unexpectedEof := by
      unfold recv
      exact if_pos hshort
    rw [hrecv]
    exact parseFrame_short hshort
  · rw [recv_header hlen hword, parseFrame_header hlen hword]
    by_cases hmagic : word = magic
    · simp only [hmagic, ne_eq, not_true_eq_false, ↓reduceIte]
      by_cases hlength : rest.length < len
      · simp [hlength, readBytes]
      · simp [hlength, readBytes]
    · simp [hmagic]

theorem length_lt_of_done (hparse : parseFrame input = .done payload rest) :
    rest.length < input.length := by
  obtain ⟨_, rfl⟩ := parseFrame_done.mp hparse
  rw [List.length_append, length_frameBytes]
  omega

/-- Receive until the stream ends or an error comes. -/
def recvAll (stream : Bytes) : Intake :=
  match _hrecv : recv stream with
  | .unexpectedEof => ⟨[], stream, false⟩
  | .badMagic _ _ => ⟨[], stream, true⟩
  | .received payload rest => (recvAll rest).cons payload
termination_by stream.length
decreasing_by
  have hparse := recv_eq_parseFrame stream
  rw [_hrecv] at hparse
  exact length_lt_of_done hparse

/-- Parse frames from a buffer, and put the next bytes that arrive behind it when
it ends inside a frame. -/
def feed (buffer : Bytes) (arrivals : List Bytes) : Intake :=
  match _hparse : parseFrame buffer with
  | .done payload rest => (feed rest arrivals).cons payload
  | .backtrack _ => ⟨[], buffer ++ arrivals.flatten, true⟩
  | .incomplete =>
      match arrivals with
      | [] => ⟨[], buffer, false⟩
      | bytes :: later => feed (buffer ++ bytes) later
termination_by (arrivals.length, buffer.length)
decreasing_by
  · apply Prod.Lex.right
    exact length_lt_of_done _hparse
  · apply Prod.Lex.left
    exact Nat.lt_succ_self _

section Feed

variable {buffer : Bytes} {arrivals : List Bytes}

theorem feed_done (hparse : parseFrame buffer = .done payload rest) :
    feed buffer arrivals = (feed rest arrivals).cons payload := by
  rw [feed.eq_def]
  split
  next found left hfound =>
    rw [hparse] at hfound
    cases hfound
    rfl
  next hfound =>
    rw [hparse] at hfound
    cases hfound
  next hfound =>
    rw [hparse] at hfound
    cases hfound

theorem feed_backtrack {context : List Winnow.StrContext}
    (hparse : parseFrame buffer = .backtrack context) :
    feed buffer arrivals = ⟨[], buffer ++ arrivals.flatten, true⟩ := by
  rw [feed.eq_def]
  split
  next hfound =>
    rw [hparse] at hfound
    cases hfound
  next => rfl
  next hfound =>
    rw [hparse] at hfound
    cases hfound

theorem feed_incomplete_nil (hparse : parseFrame buffer = .incomplete) :
    feed buffer [] = ⟨[], buffer, false⟩ := by
  rw [feed.eq_def]
  split
  next hfound =>
    rw [hparse] at hfound
    cases hfound
  next hfound =>
    rw [hparse] at hfound
    cases hfound
  next => rfl

theorem feed_incomplete_cons {bytes : Bytes} (hparse : parseFrame buffer = .incomplete) :
    feed buffer (bytes :: arrivals) = feed (buffer ++ bytes) arrivals := by
  rw [feed.eq_def]
  split
  next hfound =>
    rw [hparse] at hfound
    cases hfound
  next hfound =>
    rw [hparse] at hfound
    cases hfound
  next => rfl

/-- How a stream is cut on arrival makes no difference. -/
theorem feed_flatten (buffer : Bytes) (arrivals : List Bytes) :
    feed buffer arrivals = feed (buffer ++ arrivals.flatten) [] := by
  induction buffer, arrivals using feed.induct with
  | case1 buffer arrivals payload rest hparse ih =>
      have hmore := parseFrame_more (by rw [hparse]; simp) arrivals.flatten
      rw [hparse] at hmore
      rw [feed_done hparse, feed_done hmore, ih]
  | case2 buffer arrivals context hparse =>
      have hmore := parseFrame_more (by rw [hparse]; simp) arrivals.flatten
      rw [hparse] at hmore
      rw [feed_backtrack hparse, feed_backtrack hmore, List.flatten_nil, List.append_nil]
  | case3 buffer hparse => rw [List.flatten_nil, List.append_nil]
  | case4 buffer hparse bytes later ih =>
      rw [feed_incomplete_cons hparse, ih, List.flatten_cons, List.append_assoc]

/-- The transport takes from a stream what the parser takes. -/
theorem recvAll_eq_feed (stream : Bytes) : recvAll stream = feed stream [] := by
  induction stream using recvAll.induct with
  | case1 stream hrecv =>
      have hparse := recv_eq_parseFrame stream
      rw [hrecv] at hparse
      rw [feed_incomplete_nil hparse, recvAll]
      split <;> simp_all
  | case2 stream expected actual hrecv =>
      have hparse := recv_eq_parseFrame stream
      rw [hrecv] at hparse
      obtain ⟨context, hparse⟩ := hparse
      rw [feed_backtrack hparse, List.flatten_nil, List.append_nil, recvAll]
      split <;> simp_all
  | case3 stream payload rest hrecv ih =>
      have hparse := recv_eq_parseFrame stream
      rw [hrecv] at hparse
      rw [feed_done hparse, ← ih, recvAll]
      split <;> simp_all

/-- Nothing of a stream is lost: the frames of the payloads and the rest are the
stream, and reading stops with an error only in front of a wrong magic word. -/
theorem feed_spec (buffer : Bytes) :
    (feed buffer []).payloads.flatMap frameBytes ++ (feed buffer []).rest = buffer ∧
      ((feed buffer []).failed = true ↔ BadMagic (feed buffer []).rest) := by
  generalize harrivals : ([] : List Bytes) = arrivals
  induction buffer, arrivals using feed.induct with
  | case1 buffer arrivals payload rest hparse ih =>
      obtain ⟨hall, hfailed⟩ := ih harrivals
      obtain ⟨_, hbuffer⟩ := parseFrame_done.mp hparse
      rw [feed_done hparse]
      refine ⟨?_, hfailed⟩
      rw [hbuffer]
      simp only [Intake.cons, List.flatMap_cons, List.append_assoc, hall]
  | case2 buffer arrivals context hparse =>
      subst harrivals
      rw [feed_backtrack hparse]
      simp only [List.flatMap_nil, List.flatten_nil, List.append_nil, List.nil_append, true_and,
        true_iff]
      exact parseFrame_backtrack.mp ⟨context, hparse⟩
  | case3 buffer hparse =>
      rw [feed_incomplete_nil hparse]
      refine ⟨rfl, ?_⟩
      simp only [Bool.false_eq_true, false_iff]
      intro hbad
      obtain ⟨context, hcontext⟩ := parseFrame_backtrack.mpr hbad
      rw [hparse] at hcontext
      cases hcontext
  | case4 => cases harrivals

theorem feed_frames {payloads : List Bytes}
    (hpayloads : ∀ payload ∈ payloads, payload.length < 2 ^ 32) :
    feed (payloads.flatMap frameBytes) [] = ⟨payloads, [], false⟩ := by
  induction payloads with
  | nil => exact feed_incomplete_nil (parseFrame_short (by decide))
  | cons payload payloads ih =>
      have hfirst := hpayloads payload List.mem_cons_self
      have hparse := parseFrame_append hfirst (payloads.flatMap frameBytes)
      rw [List.flatMap_cons, feed_done hparse,
        ih fun other hmem => hpayloads other (List.mem_cons_of_mem _ hmem)]
      rfl

end Feed

/-- VT01 framing is exact on streams. The frames of any payloads give back these
payloads and leave nothing; a frame that is cut short is incomplete; and from any
stream, however it arrives, the parser and the transport take the same payloads
and stop at the same place, with an error exactly when a frame with a wrong magic
word starts there. -/
theorem framing_exact :
    (∀ payloads : List Bytes, (∀ payload ∈ payloads, payload.length < 2 ^ 32) →
      feed (payloads.flatMap frameBytes) [] = ⟨payloads, [], false⟩) ∧
    (∀ payload input : Bytes, payload.length < 2 ^ 32 → input <+: frameBytes payload →
      input ≠ frameBytes payload → parseFrame input = .incomplete) ∧
    ∀ arrivals : List Bytes,
      feed [] arrivals = recvAll arrivals.flatten ∧
        (feed [] arrivals).payloads.flatMap frameBytes ++ (feed [] arrivals).rest =
          arrivals.flatten ∧
        ((feed [] arrivals).failed = true ↔ BadMagic (feed [] arrivals).rest) := by
  refine ⟨fun payloads => feed_frames, fun payload input => parseFrame_cut, fun arrivals => ?_⟩
  rw [feed_flatten, List.nil_append]
  exact ⟨(recvAll_eq_feed _).symm, feed_spec _⟩

theorem framing_exact_sample :
    feed ([[1, 2], []].flatMap frameBytes) [] = ⟨[[1, 2], []], [], false⟩ ∧
      parseFrame ((frameBytes [1, 2]).take 9) = .incomplete :=
  ⟨framing_exact.1 [[1, 2], []] (by decide),
    framing_exact.2.1 [1, 2] _ (by decide) (List.take_prefix _ _) (by decide)⟩

end TcpTransport

end DepotDownloader.Steam
