import DepotDownloader.Steam.Client.Delivery

/-! # What unpacking leaves out

The loop over the payload of a bundle stops in silence at a prefix that is not whole
and at a message that is not whole. What it returns is the whole payload exactly when
the prefixes lead from one to the next up to the end.
-/

namespace DepotDownloader.Steam

open Foundation

/-- The payload of the bundle in a message body. -/
def multiPayload (codecs : WireCodecs) (body : Bytes) : Option Bytes :=
  (codecs.decodeMulti body).bind fun multi =>
    multi.messageBody.bind fun data =>
      if 0 < (multi.sizeUnzipped.getD 0).toNat then codecs.gunzip data else some data

/-- Where the message ends whose length stands at the offset. -/
def messageEnd (payload : Bytes) (offset : Nat) : Nat :=
  offset + 4 + leNat ((payload.drop offset).take 4)

/-- The payload holds the messages and nothing else. -/
structure HoldsExactly (payload : Bytes) (messages : List Bytes) : Prop where
  lengths : ∀ sub ∈ messages, sub.length < 2 ^ 32
  payload_eq : payload = joinMessages messages

variable {codecs : WireCodecs} {payload body : Bytes}

theorem unpackMulti_payload (hpayload : multiPayload codecs body = some payload) :
    unpackMulti codecs body = .ok (splitMessages payload) := by
  obtain ⟨multi, hdecode, hbody⟩ := Option.bind_eq_some_iff.mp hpayload
  obtain ⟨data, hdata, hunzip⟩ := Option.bind_eq_some_iff.mp hbody
  unfold unpackMulti
  rw [hdecode]
  simp only [hdata]
  split at hunzip
  next hsize => rw [if_pos hsize, hunzip]
  next hsize =>
    cases hunzip
    rw [if_neg hsize]

theorem messageEnd_append (front rest : Bytes) (offset : Nat) :
    messageEnd (front ++ rest) (front.length + offset) = front.length + messageEnd rest offset := by
  simp only [messageEnd, List.drop_append]
  rw [List.drop_eq_nil_of_le (by omega), List.nil_append, Nat.add_sub_cancel_left]
  omega

/-- Behind some bytes the offsets go on as in the rest alone. -/
theorem iterate_messageEnd_append (front rest : Bytes) (count offset : Nat) :
    (messageEnd (front ++ rest))^[count] (front.length + offset) =
      front.length + (messageEnd rest)^[count] offset := by
  induction count generalizing offset with
  | zero => rfl
  | succ count ih => rw [Function.iterate_succ_apply, messageEnd_append, ih,
      Function.iterate_succ_apply]

theorem le_iterate_messageEnd (payload : Bytes) (count offset : Nat) :
    offset ≤ (messageEnd payload)^[count] offset := by
  induction count generalizing offset with
  | zero => exact Nat.le_refl _
  | succ count ih =>
      rw [Function.iterate_succ_apply]
      refine Nat.le_trans ?_ (ih _)
      unfold messageEnd
      omega

/-- The first message of a payload ends behind the payload, or it is whole. -/
theorem messageEnd_cases (payload : Bytes) :
    payload.length < messageEnd payload 0 ∨
      ∃ sub rest, sub.length < 2 ^ 32 ∧ payload = toLeBytes 4 sub.length ++ (sub ++ rest) := by
  by_cases hover : payload.length < messageEnd payload 0
  · exact .inl hover
  · right
    rw [messageEnd, List.drop_zero] at hover
    have hlead : (payload.take 4).length = 4 := by
      rw [List.length_take]
      omega
    have hlen : ((payload.drop 4).take (leNat (payload.take 4))).length =
        leNat (payload.take 4) := by
      rw [List.length_take, List.length_drop]
      omega
    have hbound : leNat (payload.take 4) < 256 ^ 4 := by
      simpa only [hlead] using leNat_lt (payload.take 4)
    have hback := toLeBytes_leNat (payload.take 4)
    rw [hlead] at hback
    refine ⟨(payload.drop 4).take (leNat (payload.take 4)),
      (payload.drop 4).drop (leNat (payload.take 4)), by omega, ?_⟩
    rw [hlen, hback, List.take_append_drop, List.take_append_drop]

/-- From a whole message the offsets go on to the rest. -/
theorem iterate_messageEnd_frame {sub : Bytes} (hsub : sub.length < 2 ^ 32) (rest : Bytes)
    (count : Nat) :
    (messageEnd (toLeBytes 4 sub.length ++ (sub ++ rest)))^[count + 1] 0 =
      4 + sub.length + (messageEnd rest)^[count] 0 := by
  have hlead : (toLeBytes 4 sub.length).length = 4 := length_toLeBytes 4 sub.length
  have hframe : (toLeBytes 4 sub.length ++ sub).length = 4 + sub.length := by
    rw [List.length_append, hlead]
  have hfirst : messageEnd (toLeBytes 4 sub.length ++ (sub ++ rest)) 0 = 4 + sub.length := by
    unfold messageEnd
    rw [List.drop_zero, List.take_left' hlead, leNat_toLeBytes hsub]
  have hrest := iterate_messageEnd_append (toLeBytes 4 sub.length ++ sub) rest count 0
  rw [hframe, List.append_assoc] at hrest
  rw [Function.iterate_succ_apply, hfirst]
  exact hrest

theorem joinMessages_cons (sub : Bytes) (messages : List Bytes) :
    joinMessages (sub :: messages) =
      toLeBytes 4 sub.length ++ (sub ++ joinMessages messages) := by
  rw [joinMessages, List.flatMap_cons, List.append_assoc]
  rfl

/-- Joined messages are walked through from their start to their end. -/
theorem iterate_messageEnd_join {messages : List Bytes}
    (hlengths : ∀ sub ∈ messages, sub.length < 2 ^ 32) :
    (messageEnd (joinMessages messages))^[messages.length] 0 = (joinMessages messages).length := by
  induction messages with
  | nil => rfl
  | cons sub messages ih =>
      have hrest := ih fun other hmem => hlengths other (List.mem_cons_of_mem _ hmem)
      rw [List.length_cons, joinMessages_cons,
        iterate_messageEnd_frame (hlengths sub List.mem_cons_self), hrest, List.length_append,
        List.length_append, length_toLeBytes]
      omega

/-- When the prefixes lead to the end, the messages are all of the payload. The
induction is on the number of messages that are walked through. -/
theorem holdsExactly_of_iterate {count : Nat}
    (hend : (messageEnd payload)^[count] 0 = payload.length) :
    HoldsExactly payload (splitMessages payload) := by
  induction count generalizing payload with
  | zero =>
      have hnil : payload = [] := List.length_eq_zero_iff.mp hend.symm
      rw [hnil, splitMessages]
      exact ⟨fun sub hmem => absurd hmem List.not_mem_nil, rfl⟩
  | succ count ih =>
      rcases messageEnd_cases payload with hover | ⟨sub, rest, hsub, rfl⟩
      -- a first message that is not whole leads behind the end for good
      · have hle := le_iterate_messageEnd payload count (messageEnd payload 0)
        rw [Function.iterate_succ_apply] at hend
        omega
      · have hrest : (messageEnd rest)^[count] 0 = rest.length := by
          rw [iterate_messageEnd_frame hsub, List.length_append, List.length_append,
            length_toLeBytes] at hend
          omega
        obtain ⟨hlengths, hpayload⟩ := ih hrest
        rw [splitMessages_cons hsub]
        constructor
        · intro other hmem
          rcases List.mem_cons.mp hmem with rfl | hmem
          · exact hsub
          · exact hlengths other hmem
        · rw [joinMessages_cons, ← hpayload]

/-- Unpacking loses nothing in silence exactly when the prefixes of the payload lead
from its start to its end. Otherwise it returns Ok without what stands at the tail. -/
theorem unpackMulti_exact_iff (codecs : WireCodecs) (body : Bytes) :
    ((∀ messages payload, unpackMulti codecs body = .ok messages →
        multiPayload codecs body = some payload → HoldsExactly payload messages) ∧
      (∀ payload, multiPayload codecs body = some payload →
        (∀ messages, ¬ HoldsExactly payload messages) →
          ∃ error, unpackMulti codecs body = .error error)) ↔
    ∀ payload, multiPayload codecs body = some payload →
      ∃ count, (messageEnd payload)^[count] 0 = payload.length := by
  constructor
  · rintro ⟨hexact, _⟩ payload hpayload
    obtain ⟨hlengths, heq⟩ := hexact _ payload (unpackMulti_payload hpayload) hpayload
    have hend := iterate_messageEnd_join hlengths
    rw [← heq] at hend
    exact ⟨(splitMessages payload).length, hend⟩
  · intro hends
    constructor
    · intro messages payload hunpack hpayload
      rw [unpackMulti_payload hpayload] at hunpack
      cases hunpack
      obtain ⟨count, hend⟩ := hends payload hpayload
      exact holdsExactly_of_iterate hend
    · intro payload hpayload hnone
      obtain ⟨count, hend⟩ := hends payload hpayload
      exact absurd (holdsExactly_of_iterate hend) (hnone _)

/-- The protobuf library on two bundles: a whole message and one that is cut, and a
whole message with a stray byte behind it. -/
def cutCodecs : WireCodecs where
  aes := fun _ block => block
  hmacSha1 := fun _ _ => []
  gunzip := fun _ => none
  decodeHeader := fun _ => none
  decodeMulti := fun body =>
    if body = [18, 11, 1, 0, 0, 0, 7, 5, 0, 0, 0, 8, 9] then
      some ⟨none, some [1, 0, 0, 0, 7, 5, 0, 0, 0, 8, 9]⟩
    else if body = [18, 6, 1, 0, 0, 0, 7, 0] then some ⟨none, some [1, 0, 0, 0, 7, 0]⟩
    else none
  decodeDepotKeyResponse := fun _ => none
  encodeDepotKeyRequest := fun _ => []

/-- The cut message and the stray byte are dropped, and the result is Ok. -/
theorem cut_message_dropped :
    unpackMulti cutCodecs [18, 11, 1, 0, 0, 0, 7, 5, 0, 0, 0, 8, 9] = .ok [[7]] ∧
      multiPayload cutCodecs [18, 11, 1, 0, 0, 0, 7, 5, 0, 0, 0, 8, 9] =
        some [1, 0, 0, 0, 7, 5, 0, 0, 0, 8, 9] ∧
      ¬ HoldsExactly [1, 0, 0, 0, 7, 5, 0, 0, 0, 8, 9] [[7]] ∧
      unpackMulti cutCodecs [18, 6, 1, 0, 0, 0, 7, 0] = .ok [[7]] ∧
      multiPayload cutCodecs [18, 6, 1, 0, 0, 0, 7, 0] = some [1, 0, 0, 0, 7, 0] ∧
      ¬ HoldsExactly [1, 0, 0, 0, 7, 0] [[7]] := by
  refine ⟨by decide +kernel, rfl, ?_, by decide +kernel, rfl, ?_⟩
  · intro hholds
    exact absurd hholds.payload_eq (by decide)
  · intro hholds
    exact absurd hholds.payload_eq (by decide)

end DepotDownloader.Steam
