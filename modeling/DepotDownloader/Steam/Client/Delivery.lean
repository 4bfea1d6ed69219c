import DepotDownloader.Steam.Client.Responses
import DepotDownloader.Steam.LittleEndian

/-! # Exactly-once delivery to serial calls

When the calls on a client are made one after the other, each of them takes a
segment of the message stream: the messages it forwards to the event channel
and, last, the one that ends it. What no call has taken yet is still unread.
-/

namespace DepotDownloader.Steam

open Foundation

variable {codecs : WireCodecs}

/-- The payload of a bundle: every message behind its length. -/
def joinMessages (subMessages : List Bytes) : Bytes :=
  subMessages.flatMap fun sub => toLeBytes 4 sub.length ++ sub

theorem splitMessages_cons {sub : Bytes} (hsub : sub.length < 2 ^ 32) (rest : Bytes) :
    splitMessages (toLeBytes 4 sub.length ++ (sub ++ rest)) = sub :: splitMessages rest := by
  have hlead : (toLeBytes 4 sub.length).length = 4 := length_toLeBytes 4 sub.length
  have hlength : leNat (toLeBytes 4 sub.length) = sub.length := leNat_toLeBytes hsub
  rw [splitMessages, if_neg (by rw [List.length_append]; omega)]
  simp only [List.take_left' hlead, List.drop_left' hlead, hlength]
  rw [if_neg (by rw [List.length_append]; omega), List.take_left' rfl, List.drop_left' rfl]

theorem splitMessages_join {subMessages : List Bytes}
    (hlengths : ∀ sub ∈ subMessages, sub.length < 2 ^ 32) :
    splitMessages (joinMessages subMessages) = subMessages := by
  induction subMessages with
  | nil =>
      rw [joinMessages, List.flatMap_nil, splitMessages]
      rfl
  | cons sub rest ih =>
      rw [joinMessages, List.flatMap_cons, List.append_assoc,
        splitMessages_cons (hlengths sub List.mem_cons_self)]
      exact congrArg (sub :: ·) (ih fun other hmem => hlengths other (List.mem_cons_of_mem _ hmem))

/-- What the server puts into one packet. -/
inductive Content where
  | single (msg : IncomingMsg)
  | multi (subMessages : List Bytes)

/-- The messages of a packet in order, without those that do not parse. -/
def Content.flattened (codecs : WireCodecs) : Content → List IncomingMsg
  | .single msg => [msg]
  | .multi subMessages =>
      subMessages.filterMap fun sub => (parseIncoming codecs sub).toOption

/-- The protobuf of a bundle is plain or compressed. An absent size means plain,
an absent body a bundle of nothing. -/
inductive CMsgMulti.Holds (codecs : WireCodecs) : CMsgMulti → List Bytes → Prop where
  | absent (size : Option UInt32) : Holds codecs ⟨size, none⟩ []
  | plain {size : Option UInt32} (subMessages : List Bytes) (hsize : size.getD 0 = 0) :
      Holds codecs ⟨size, some (joinMessages subMessages)⟩ subMessages
  | gzip {size : UInt32} {data : Bytes} {subMessages : List Bytes} (hsize : 0 < size)
      (hdata : codecs.gunzip data = some (joinMessages subMessages)) :
      Holds codecs ⟨some size, some data⟩ subMessages

/-- A packet that decrypts and parses, and what it holds. No bundle holds another. -/
inductive Carries (codecs : WireCodecs) (inner : ClientInner) (raw : Bytes) : Content → Prop where
  | single {payload : Bytes} {msg : IncomingMsg}
      (hdecrypt : inner.decryptPacket codecs raw = .ok payload)
      (hparse : parseIncoming codecs payload = .ok msg) (hemsg : msg.emsg ≠ .multi) :
      Carries codecs inner raw (.single msg)
  | multi {payload : Bytes} {msg : IncomingMsg} {body : CMsgMulti} {subMessages : List Bytes}
      (hdecrypt : inner.decryptPacket codecs raw = .ok payload)
      (hparse : parseIncoming codecs payload = .ok msg) (hemsg : msg.emsg = .multi)
      (hdecode : codecs.decodeMulti msg.body = some body) (hbody : body.Holds codecs subMessages)
      (hlengths : ∀ sub ∈ subMessages, sub.length < 2 ^ 32)
      (hnested : ∀ sub ∈ subMessages, ∀ msg, parseIncoming codecs sub = .ok msg →
        msg.emsg ≠ .multi) :
      Carries codecs inner raw (.multi subMessages)

/-- A bundle is unpacked into what was put into it. -/
theorem unpackMulti_holds {data : Bytes} {body : CMsgMulti} {subMessages : List Bytes}
    (hdecode : codecs.decodeMulti data = some body) (hbody : body.Holds codecs subMessages)
    (hlengths : ∀ sub ∈ subMessages, sub.length < 2 ^ 32) :
    unpackMulti codecs data = .ok subMessages := by
  unfold unpackMulti
  rw [hdecode]
  cases hbody with
  | absent => rfl
  | plain _ hsize => simp [hsize, splitMessages_join hlengths]
  | gzip hsize hdata =>
      have hpositive : 0 < ((some _ : Option UInt32).getD 0).toNat :=
        UInt32.lt_iff_toNat_lt.mp hsize
      simp only [if_pos hpositive, hdata, splitMessages_join hlengths]

theorem Carries.openPacket {inner : ClientInner} {raw : Bytes} {content : Content}
    (hcarries : Carries codecs inner raw content) :
    ∃ packet, inner.openPacket codecs raw = .ok packet ∧
      inner.messages codecs raw = content.flattened codecs := by
  cases hcarries with
  | @single payload msg hdecrypt hparse hemsg =>
      have hopen : inner.openPacket codecs raw = .ok (.single msg) := by
        simp only [ClientInner.openPacket, hdecrypt, hparse, if_neg hemsg]
      exact ⟨_, hopen, by simp only [ClientInner.messages, hopen, Content.flattened]⟩
  | @multi payload msg body subMessages hdecrypt hparse hemsg hdecode hbody hlengths =>
      have hopen : inner.openPacket codecs raw = .ok (.bundle subMessages) := by
        simp only [ClientInner.openPacket, hdecrypt, hparse, if_pos hemsg,
          unpackMulti_holds hdecode hbody hlengths]
        rfl
      exact ⟨_, hopen, by
        simp only [ClientInner.messages, hopen, ClientInner.parsedMessages, Content.flattened]⟩

/-- A sequence of packets that all open brings the flattened sequence. -/
theorem carries_all {inner : ClientInner} {packets : List Bytes} {contents : List Content}
    (hcontents : List.Forall₂ (Carries codecs inner) packets contents) :
    (∀ raw ∈ packets, ∃ packet, inner.openPacket codecs raw = .ok packet) ∧
      packets.flatMap (inner.messages codecs) = contents.flatMap (Content.flattened codecs) := by
  induction hcontents with
  | nil => exact ⟨by simp, rfl⟩
  | @cons raw content _ _ hcarries _ ih =>
      obtain ⟨packet, hopen, hmessages⟩ := hcarries.openPacket
      refine ⟨?_, ?_⟩
      · intro other hmem
        rcases List.mem_cons.mp hmem with rfl | hlater
        · exact ⟨packet, hopen⟩
        · exact ih.1 other hlater
      · rw [List.flatMap_cons, List.flatMap_cons, hmessages, ih.2]

/-- What a call took from the stream: the messages it forwarded to the event
channel and then the message it returned. -/
structure Consumption where
  forwarded : List IncomingMsg
  handed : Option IncomingMsg

def Consumption.messages (consumption : Consumption) : List IncomingMsg :=
  consumption.forwarded ++ consumption.handed.toList

/-- The calls that forward what they do not return. -/
def Request.Forwards (request : Request) : Prop :=
  match request with
  | .callServiceMethod _ _ => True
  | .getDepotDecryptionKey _ _ => False
  | .recvMsg => True

instance (request : Request) : Decidable request.Forwards := by
  unfold Request.Forwards
  cases request <;> infer_instance

/-- What the message that ends a call brings to its caller: a receive gets the message
itself, a service call gets the body, or the error of the result code where the header
has one other than success. -/
inductive Request.Gets (msg : IncomingMsg) : Request → Except ClientError Reply → Prop where
  | message : Gets msg .recvMsg (.ok (.message msg))
  | body {methodName : String} {body : Bytes}
      (hresult : msg.header.eresult = none ∨ msg.header.eresult = some 1) :
      Gets msg (.callServiceMethod methodName body) (.ok (.service msg.body))
  | refused {methodName : String} {body : Bytes} {code : Int} {error : EResultError}
      (hresult : msg.header.eresult = some code) (hcode : code ≠ 1) (herror : error.code = code) :
      Gets msg (.callServiceMethod methodName body) (.error (.serviceMethodFailed error))

/-- What a call makes of the message that ends it. -/
def Request.reply (codecs : WireCodecs) (request : Request) (msg : IncomingMsg) :
    Except ClientError Reply :=
  match request with
  | .callServiceMethod _ _ => serviceResponse msg
  | .getDepotDecryptionKey depotId _ => depotKeyResponse codecs depotId msg
  | .recvMsg => .ok (.message msg)

namespace Call

/-- The messages that end a call: for a service call, the responses to its own job. -/
def Awaits (call : Call) (msg : IncomingMsg) : Prop :=
  match call.request with
  | .callServiceMethod _ _ =>
      msg.emsg = .serviceMethodResponse ∧ msg.header.jobidTarget = call.jobId
  | .getDepotDecryptionKey _ _ => msg.emsg = .clientGetDepotDecryptionKeyResponse
  | .recvMsg => True

instance (call : Call) (msg : IncomingMsg) : Decidable (call.Awaits msg) := by
  unfold Awaits
  split <;> infer_instance

/-- A call that has returned no message: it still waits, or sending or
receiving failed. -/
def WithoutMessage (call : Call) : Prop :=
  match call.stage with
  | .returned (.error (.transport _)) => True
  | .returned _ => False
  | .abandoned => False
  | _ => True

/-- A call has forwarded only messages that do not end it, and it returns with
the first one that does. -/
structure Consumes (call : Call) (consumption : Consumption) : Prop where
  forwarded : ∀ msg ∈ consumption.forwarded, ¬ call.Awaits msg
  handed : match consumption.handed with
    | none => call.WithoutMessage
    | some msg => call.Awaits msg ∧
        ∃ reply, call.stage = .returned reply ∧ call.request.Gets msg reply

variable {call : Call} {consumption : Consumption}

theorem withoutMessage_of_inFlight (hflight : call.InFlight) : call.WithoutMessage := by
  unfold InFlight at hflight
  unfold WithoutMessage
  split <;> simp_all

/-- Only a call that returned has been handed its message. -/
theorem Consumes.handed_eq_none (hconsumes : call.Consumes consumption)
    (hflight : call.InFlight) : consumption.handed = none := by
  have hhanded := hconsumes.handed
  split at hhanded
  next hnone => exact hnone
  next =>
    obtain ⟨_, reply, hreturned, _⟩ := hhanded
    rw [InFlight, hreturned] at hflight
    exact hflight.elim

end Call

/-- The messages in the hands of a call. -/
def Stage.held (codecs : WireCodecs) (inner : ClientInner) (stage : Stage) : List IncomingMsg :=
  match stage with
  | .handed msg => [msg]
  | other => other.inHand codecs inner

/-- The queue is empty while a call waits for a packet or holds one. -/
def Stage.Sound (codecs : WireCodecs) (inner : ClientInner) (stage : Stage) : Prop :=
  match stage with
  | .receiving => inner.msgQueue = []
  | .received raw => inner.msgQueue = [] ∧ ∃ packet, inner.openPacket codecs raw = .ok packet
  | .unpacked _ => inner.msgQueue = []
  | _ => True

/-- The order of the stages between two packets. -/
def Stage.weight (stage : Stage) : Nat :=
  match stage with
  | .received _ => 3
  | .sending | .unpacked _ => 2
  | .polling => 1
  | _ => 0

namespace ClientInner

/-- The messages behind those that a call at this stage has passed on. -/
def unread (codecs : WireCodecs) (inner : ClientInner) (stage : Stage) : List IncomingMsg :=
  stage.held codecs inner ++ inner.msgQueue ++ inner.incoming.flatMap (inner.messages codecs)

/-- No job is registered and every packet in the transport opens. -/
structure Supplied (codecs : WireCodecs) (inner : ClientInner) : Prop where
  pending : inner.pendingJobs = []
  opened : ∀ raw ∈ inner.incoming, ∃ packet, inner.openPacket codecs raw = .ok packet

/-- A call takes fewer steps than this before it waits for another packet. -/
def scanRank (codecs : WireCodecs) (inner : ClientInner) (stage : Stage) : Nat :=
  6 * (inner.unread codecs stage).length + 6 * inner.incoming.length + stage.weight

end ClientInner

/-- A call in flight is blocked only while it waits for a packet. -/
theorem Call.exists_advance {call : Call} {inner : ClientInner} (hflight : call.InFlight)
    (hpacket : call.stage = .receiving → inner.incoming ≠ []) :
    ∃ inner' stage, call.advance codecs inner = some (inner', stage) := by
  unfold InFlight at hflight
  unfold advance
  split
  next => exact ⟨_, _, rfl⟩
  next => split <;> exact ⟨_, _, rfl⟩
  next hstage =>
    split
    next hempty => exact absurd hempty (hpacket hstage)
    next => exact ⟨_, _, rfl⟩
  next => split <;> exact ⟨_, _, rfl⟩
  next => exact ⟨_, _, rfl⟩
  next => exact ⟨_, _, rfl⟩
  next hstage => simp [hstage] at hflight
  next hstage => simp [hstage] at hflight

/-- A step of a call either moves messages towards it, forwards the message in
its hands or returns with it. -/
inductive ScanStep (codecs : WireCodecs) (inner : ClientInner) (call : Call) :
    ClientInner → Stage → Prop where
  | scans {inner' : ClientInner} {stage : Stage}
      (hflight : ({ call with stage } : Call).InFlight) (hevents : inner'.events = inner.events)
      (hunread : inner'.unread codecs stage = inner.unread codecs call.stage)
      (hrank : 6 * inner'.incoming.length + stage.weight <
        6 * inner.incoming.length + call.stage.weight) :
      ScanStep codecs inner call inner' stage
  | forwards {msg : IncomingMsg} (hstage : call.stage = .handed msg) (hother : ¬ call.Awaits msg) :
      ScanStep codecs inner call { inner with events := inner.events ++ [msg] } .polling
  | returns {msg : IncomingMsg} (hstage : call.stage = .handed msg) (hawaits : call.Awaits msg) :
      ScanStep codecs inner call inner (.returned (call.request.reply codecs msg))

theorem ClientInner.openPacket_congr {inner inner' : ClientInner}
    (hcipher : inner'.cipher = inner.cipher) :
    inner'.openPacket codecs = inner.openPacket codecs := by
  funext raw
  simp only [openPacket, decryptPacket, hcipher]

theorem ClientInner.messages_congr {inner inner' : ClientInner}
    (hcipher : inner'.cipher = inner.cipher) : inner'.messages codecs = inner.messages codecs := by
  funext raw
  simp only [messages, openPacket_congr hcipher]

theorem Request.handle_awaited {call : Call} {inner : ClientInner} {msg : IncomingMsg}
    (hawaits : call.Awaits msg) :
    call.request.handle codecs call.jobId inner msg =
      (inner, .returned (call.request.reply codecs msg)) := by
  unfold Call.Awaits at hawaits
  cases hrequest : call.request with
  | callServiceMethod =>
      simp only [hrequest] at hawaits
      exact if_pos hawaits
  | getDepotDecryptionKey =>
      simp only [hrequest] at hawaits
      exact if_pos hawaits
  | recvMsg => rfl

theorem Request.handle_other {call : Call} {inner : ClientInner} {msg : IncomingMsg}
    (hforwards : call.request.Forwards) (hother : ¬ call.Awaits msg) :
    call.request.handle codecs call.jobId inner msg =
      ({ inner with events := inner.events ++ [msg] }, .polling) := by
  unfold Call.Awaits at hother
  cases hrequest : call.request with
  | callServiceMethod =>
      simp only [hrequest] at hother
      exact if_neg hother
  | getDepotDecryptionKey => simp [hrequest, Forwards] at hforwards
  | recvMsg => simp [hrequest] at hother

/-- A call that forwards what it does not return gets what the message brings. -/
theorem Request.gets_reply {request : Request} (hforwards : request.Forwards)
    (msg : IncomingMsg) : request.Gets msg (request.reply codecs msg) := by
  cases request with
  | callServiceMethod methodName body =>
      unfold reply serviceResponse
      cases hresult : msg.header.eresult with
      | none => exact .body (.inl hresult)
      | some code =>
          cases herror : EResultError.fromI32 code with
          | ok =>
              rw [EResultError.fromI32_eq_ok.mp herror] at hresult
              simp only [herror]
              exact .body (.inr hresult)
          | error error =>
              obtain ⟨hcode, hname⟩ := EResultError.code_of_fromI32 herror
              simp only [herror]
              exact .refused hresult hcode hname
  | getDepotDecryptionKey => exact hforwards.elim
  | recvMsg => exact .message

theorem Call.advance_scan {inner inner' : ClientInner} {call : Call} {stage : Stage}
    (hsupplied : inner.Supplied codecs) (hforwards : call.request.Forwards)
    (hsound : call.stage.Sound codecs inner)
    (hadvance : call.advance codecs inner = some (inner', stage)) :
    ScanStep codecs inner call inner' stage ∧ inner'.Supplied codecs ∧
      stage.Sound codecs inner' ∧ inner'.cipher = inner.cipher := by
  have hsame : ∀ inner' : ClientInner, inner'.pendingJobs = inner.pendingJobs →
      inner'.cipher = inner.cipher → inner'.incoming.Sublist inner.incoming →
        inner'.Supplied codecs := by
    intro inner' hpending hcipher hincoming
    refine ⟨hpending.trans hsupplied.pending, ?_⟩
    intro raw hraw
    rw [ClientInner.openPacket_congr hcipher]
    exact hsupplied.opened raw (hincoming.subset hraw)
  cases advance_cases hadvance with
  | sends hstage =>
      refine ⟨.scans trivial rfl ?_ ?_, hsame _ rfl rfl (List.Sublist.refl _), trivial, rfl⟩
      · rw [hstage]
        rfl
      · rw [hstage]
        exact Nat.lt_succ_self _
  | waits hstage hqueue =>
      refine ⟨.scans trivial rfl ?_ ?_, hsupplied, hqueue, rfl⟩
      · rw [hstage]
        rfl
      · rw [hstage]
        exact Nat.lt_succ_self _
  | @takes msg rest hstage hqueue =>
      have hroute : call.route { inner with msgQueue := rest } msg =
          ({ inner with msgQueue := rest }, some msg) := by
        apply route_unregistered
        exact hsupplied.pending
      rw [hroute]
      refine ⟨.scans trivial rfl ?_ ?_, hsame _ rfl rfl (List.Sublist.refl _), trivial, rfl⟩
      · rw [hstage, ClientInner.unread, ClientInner.unread, hqueue]
        rfl
      · rw [hstage]
        exact Nat.lt_succ_self _
  | @receives raw rest hstage hincoming =>
      rw [hstage] at hsound
      have hrest : rest.Sublist inner.incoming := hincoming ▸ List.sublist_cons_self raw rest
      have hopened := hsupplied.opened raw (hincoming ▸ List.mem_cons_self)
      refine ⟨.scans trivial rfl ?_ ?_, hsame _ rfl rfl hrest, ⟨hsound, hopened⟩, rfl⟩
      · -- The queue is empty, so the packet comes first wherever it is counted.
        simp only [hstage, ClientInner.unread, hincoming, List.flatMap_cons,
          show inner.msgQueue = [] from hsound]
        simp only [Stage.held, Stage.inHand, List.append_nil]
        rfl
      · rw [hstage, hincoming, List.length_cons]
        simp only [Stage.weight]
        omega
  | @fails raw error hstage hopen =>
      rw [hstage] at hsound
      obtain ⟨_, packet, hpacket⟩ := hsound
      rw [hopen] at hpacket
      cases hpacket
  | @unpacks raw subMessages hstage hopen =>
      rw [hstage] at hsound
      refine ⟨.scans trivial rfl ?_ ?_, hsupplied, hsound.1, rfl⟩
      · simp only [hstage, ClientInner.unread, Stage.held, Stage.inHand, ClientInner.messages,
          hopen]
      · rw [hstage]
        exact Nat.lt_succ_self _
  | @opens raw msg hstage hopen =>
      rw [route_unregistered hsupplied.pending]
      refine ⟨.scans trivial rfl ?_ ?_, hsupplied, trivial, rfl⟩
      · simp only [hstage, ClientInner.unread, Stage.held, Stage.inHand, ClientInner.messages,
          hopen, afterRoute]
      · simp [hstage, afterRoute, Stage.weight]
  | @queues subMessages hstage =>
      rw [hstage] at hsound
      refine ⟨.scans trivial rfl ?_ ?_, hsame _ rfl rfl (List.Sublist.refl _), trivial, rfl⟩
      · simp only [hstage, ClientInner.unread, show inner.msgQueue = [] from hsound]
        simp only [Stage.held, Stage.inHand, List.append_nil, List.nil_append]
        rfl
      · rw [hstage]
        exact Nat.lt_succ_self _
  | @handles msg _ _ hstage hhandle =>
      by_cases hawaits : call.Awaits msg
      · rw [Request.handle_awaited hawaits] at hhandle
        cases hhandle
        exact ⟨.returns hstage hawaits, hsupplied, trivial, rfl⟩
      · rw [Request.handle_other hforwards hawaits] at hhandle
        cases hhandle
        exact ⟨.forwards hstage hawaits, hsame _ rfl rfl (List.Sublist.refl _), trivial, rfl⟩

/-- The packet that a move brings to the transport. -/
def ClientMove.arrived (move : ClientMove) : List Bytes :=
  match move with
  | .arrive packet => [packet]
  | _ => []

namespace SteamClient

/-- The messages that no call has passed on yet. -/
def unread (codecs : WireCodecs) (client : SteamClient) : List IncomingMsg :=
  client.calls.flatMap (fun call => call.stage.held codecs client.inner) ++
    client.inner.msgQueue ++ client.inner.incoming.flatMap (client.inner.messages codecs)

/-- Service calls and plain receives are made one at a time, and each is awaited
until it returns. -/
def OneAtATime (client : SteamClient) (move : ClientMove) : Prop :=
  match move with
  | .begin request => request.Forwards ∧ ∀ call ∈ client.calls, ¬ call.InFlight
  | .abandon _ => False
  | _ => True

instance (client : SteamClient) (move : ClientMove) : Decidable (client.OneAtATime move) :=
  match move with
  | .begin _ => inferInstanceAs (Decidable (_ ∧ ∀ call ∈ _, _))
  | .abandon _ => inferInstanceAs (Decidable False)
  | .advance _ => inferInstanceAs (Decidable True)
  | .transportFails _ _ => inferInstanceAs (Decidable True)
  | .arrive _ => inferInstanceAs (Decidable True)

/-- The log of a client: every call with what it took, in the order the calls
were made. The event channel holds what they forwarded, in that order. -/
structure Delivered (start : ClientInner) (client : SteamClient)
    (log : List (Call × Consumption)) : Prop where
  calls : log.map Prod.fst = client.calls
  consumes : ∀ entry ∈ log, entry.1.Consumes entry.2
  events : start.events ++ log.flatMap (fun entry => entry.2.forwarded) = client.inner.events

/-- Between the moves of a serial run at most the last call is in flight. -/
structure Serving (codecs : WireCodecs) (start : ClientInner) (client : SteamClient)
    (log : List (Call × Consumption)) : Prop extends Delivered start client log where
  cipher : client.inner.cipher = start.cipher
  supplied : client.inner.Supplied codecs
  forwards : ∀ call ∈ client.calls, call.request.Forwards
  sound : ∀ call ∈ client.calls, call.stage.Sound codecs client.inner
  finished : ∀ call ∈ client.calls.dropLast, ¬ call.InFlight

variable {start : ClientInner} {client next : SteamClient} {log : List (Call × Consumption)}

/-- A call in flight is the last one in the log. -/
theorem Serving.split (hserving : Serving codecs start client log) {index : Nat} {call : Call}
    (hcall : client.calls[index]? = some call) (hflight : call.InFlight) :
    ∃ earlier consumption, log = earlier ++ [(call, consumption)] ∧
      client.calls = earlier.map Prod.fst ++ [call] ∧ index = earlier.length := by
  obtain ⟨hindex, hget⟩ := List.getElem?_eq_some_iff.mp hcall
  have hlast : index + 1 = client.calls.length := by
    by_contra hother
    have hinner : index < client.calls.dropLast.length := by
      rw [List.length_dropLast]
      omega
    apply hserving.finished call ?_ hflight
    rw [← hget, ← List.getElem_dropLast hinner]
    exact List.getElem_mem hinner
  have hcalls : client.calls = client.calls.take index ++ [call] := by
    rw [← hget, List.take_append_getElem hindex, hlast, List.take_length]
  have hlog := hserving.calls
  rw [hcalls] at hlog
  obtain ⟨earlier, last, rfl, hearlier, hsingle⟩ := List.map_eq_append_iff.mp hlog
  obtain ⟨entry, rfl, rfl⟩ := List.map_eq_singleton_iff.mp hsingle
  refine ⟨earlier, entry.2, rfl, hcalls.trans (by rw [hearlier]), ?_⟩
  have hlength := congrArg List.length hearlier
  rw [List.length_map, List.length_take] at hlength
  omega

theorem set_last {calls earlier : List Call} {call : Call} (call' : Call)
    (hcalls : calls = earlier ++ [call]) {index : Nat} (hindex : index = earlier.length) :
    calls.set index call' = earlier ++ [call'] := by
  rw [hcalls, hindex, List.set_append_right _ _ (Nat.le_refl _), Nat.sub_self]
  rfl

/-- A call that is not in flight holds nothing. -/
theorem held_finished {inner : ClientInner} {calls : List Call}
    (hfinished : ∀ call ∈ calls, ¬ call.InFlight) :
    calls.flatMap (fun call => call.stage.held codecs inner) = [] := by
  rw [List.flatMap_eq_nil_iff]
  intro call hmem
  have hidle := hfinished call hmem
  unfold Call.InFlight at hidle
  unfold Stage.held Stage.inHand
  split at hidle <;> simp_all

theorem sound_finished {inner : ClientInner} {call : Call} (hfinished : ¬ call.InFlight) :
    call.stage.Sound codecs inner := by
  unfold Call.InFlight at hfinished
  unfold Stage.Sound
  split at hfinished <;> simp_all

/-- The call in flight moves on, having forwarded some more messages. -/
theorem Serving.replace {earlier : List (Call × Consumption)} {call : Call}
    {consumption : Consumption}
    (hserving : Serving codecs start client (earlier ++ [(call, consumption)]))
    (consumption' : Consumption) {passed : List IncomingMsg}
    (hforwarded : consumption'.forwarded = consumption.forwarded ++ passed)
    {inner' : ClientInner} (hevents : inner'.events = client.inner.events ++ passed)
    (hcipher : inner'.cipher = client.inner.cipher) (hsupplied : inner'.Supplied codecs)
    {stage : Stage} (hsound : stage.Sound codecs inner')
    (hconsumes : ({ call with stage } : Call).Consumes consumption')
    (handings : List Handing) :
    Serving codecs start ⟨inner', earlier.map Prod.fst ++ [{ call with stage }], handings⟩
      (earlier ++ [({ call with stage }, consumption')]) := by
  have hcalls : client.calls = earlier.map Prod.fst ++ [call] := by
    rw [← hserving.calls, List.map_append]
    rfl
  have hfinished := hserving.finished
  rw [hcalls, List.dropLast_concat] at hfinished
  refine
    { calls := by rw [List.map_append]; rfl
      consumes := ?_
      events := ?_
      cipher := hcipher.trans hserving.cipher
      supplied := hsupplied
      forwards := ?_
      sound := ?_
      finished := by rwa [List.dropLast_concat] }
  · intro entry hmem
    rcases List.mem_append.mp hmem with hold | hnew
    · exact hserving.consumes entry (List.mem_append_left _ hold)
    · rw [List.mem_singleton.mp hnew]
      exact hconsumes
  · rw [hevents, ← hserving.events]
    simp only [List.flatMap_append, List.flatMap_cons, List.flatMap_nil, List.append_nil,
      hforwarded, List.append_assoc]
  · intro other hmem
    rcases List.mem_append.mp hmem with hold | hnew
    · exact hserving.forwards other (hcalls ▸ List.mem_append_left _ hold)
    · rw [List.mem_singleton.mp hnew]
      exact hserving.forwards call (hcalls ▸ List.mem_append_right _ List.mem_cons_self)
  · intro other hmem
    rcases List.mem_append.mp hmem with hold | hnew
    · exact sound_finished (hfinished other hold)
    · rw [List.mem_singleton.mp hnew]
      exact hsound

/-- What is unread is unread by the call in flight. -/
theorem unread_eq (codecs : WireCodecs) (client : SteamClient) {earlier : List Call} {call : Call}
    (hcalls : client.calls = earlier ++ [call]) (hfinished : ∀ call ∈ earlier, ¬ call.InFlight) :
    client.unread codecs = client.inner.unread codecs call.stage := by
  unfold unread ClientInner.unread
  rw [hcalls, List.flatMap_append, held_finished hfinished, List.flatMap_singleton, List.nil_append]

/-- A step of a call keeps the stream: what it takes from the unread messages
goes to the end of the log. -/
theorem Serving.advance (hserving : Serving codecs start client log) {index : Nat} {call : Call}
    (hcall : client.calls[index]? = some call) {inner : ClientInner} {stage : Stage}
    (hadvance : call.advance codecs client.inner = some (inner, stage)) (handings : List Handing) :
    ∃ log',
      Serving codecs start ⟨inner, client.calls.set index { call with stage }, handings⟩ log' ∧
      log'.flatMap (fun entry => entry.2.messages) ++
          unread codecs ⟨inner, client.calls.set index { call with stage }, handings⟩ =
        log.flatMap (fun entry => entry.2.messages) ++ client.unread codecs := by
  have hflight := Call.advance_inFlight hadvance
  have hmem := List.mem_of_getElem? hcall
  obtain ⟨earlier, consumption, rfl, hcalls, rfl⟩ := hserving.split hcall hflight
  obtain ⟨hscan, hsupplied, hsound, hcipher⟩ := Call.advance_scan hserving.supplied
    (hserving.forwards call hmem) (hserving.sound call hmem) hadvance
  have hconsumes := hserving.consumes _ (List.mem_append_right earlier List.mem_cons_self)
  have hhanded : consumption.handed = none := hconsumes.handed_eq_none hflight
  have hfinished := hserving.finished
  rw [hcalls, List.dropLast_concat] at hfinished
  have hset := set_last { call with stage } hcalls (List.length_map Prod.fst).symm
  rw [unread_eq codecs client hcalls hfinished, unread_eq codecs ⟨_, _, _⟩ hset hfinished]
  rw [hset]
  cases hscan with
  | scans hflight' hevents hunread =>
      refine ⟨_, hserving.replace consumption (List.append_nil _).symm
        (hevents.trans (List.append_nil _).symm) hcipher hsupplied hsound ?_ handings, ?_⟩
      · refine ⟨hconsumes.forwarded, ?_⟩
        rw [hhanded]
        exact Call.withoutMessage_of_inFlight hflight'
      · rw [hunread, List.flatMap_append, List.flatMap_append]
        rfl
  | @forwards msg hstage hother =>
      refine ⟨_, hserving.replace ⟨consumption.forwarded ++ [msg], none⟩ rfl rfl
        hcipher hsupplied hsound ?_ handings, ?_⟩
      · refine ⟨?_, trivial⟩
        intro other hmem
        rcases List.mem_append.mp hmem with hold | hnew
        · exact hconsumes.forwarded other hold
        · rw [List.mem_singleton.mp hnew]
          exact hother
      · simp [Consumption.messages, ClientInner.unread, Stage.held, Stage.inHand, hstage, hhanded]
        rfl
  | @returns msg hstage hawaits =>
      refine ⟨_, hserving.replace ⟨consumption.forwarded, some msg⟩
        (List.append_nil _).symm (List.append_nil _).symm hcipher hsupplied hsound
        ⟨hconsumes.forwarded, hawaits, _, rfl, Request.gets_reply (hserving.forwards call hmem) msg⟩
        handings, ?_⟩
      simp [Consumption.messages, ClientInner.unread, Stage.held, Stage.inHand, hstage, hhanded]

theorem start_eq (client : SteamClient) (request : Request) :
    ∃ (nextJobId : UInt64) (jobId : Option UInt64) (stage : Stage),
      (stage = .sending ∨ stage = .polling) ∧
      client.start request = { client with
        inner := { client.inner with nextJobId }
        calls := client.calls ++ [⟨request, jobId, stage⟩] } := by
  cases request with
  | callServiceMethod => exact ⟨_, _, _, .inl rfl, rfl⟩
  | getDepotDecryptionKey => exact ⟨_, _, _, .inl rfl, rfl⟩
  | recvMsg => exact ⟨_, _, _, .inr rfl, rfl⟩

/-- A new call has taken nothing yet. -/
theorem Serving.begins (hserving : Serving codecs start client log) {request : Request}
    (hforwards : request.Forwards) (hidle : ∀ call ∈ client.calls, ¬ call.InFlight) :
    ∃ call, Serving codecs start (client.start request) (log ++ [(call, ⟨[], none⟩)]) ∧
      (client.start request).unread codecs = client.unread codecs := by
  obtain ⟨nextJobId, jobId, stage, hstage, hstart⟩ := client.start_eq request
  have hflight : (⟨request, jobId, stage⟩ : Call).InFlight := by
    rcases hstage with rfl | rfl <;> trivial
  have hsound (inner : ClientInner) : stage.Sound codecs inner := by
    rcases hstage with rfl | rfl <;> trivial
  have hheld (inner : ClientInner) : stage.held codecs inner = [] := by
    rcases hstage with rfl | rfl <;> rfl
  rw [hstart]
  refine ⟨⟨request, jobId, stage⟩,
    { calls := by rw [List.map_append, hserving.calls]; rfl
      consumes := ?_
      events := by rw [List.flatMap_append, ← List.append_assoc, hserving.events]; simp
      cipher := hserving.cipher
      supplied := ⟨hserving.supplied.pending, hserving.supplied.opened⟩
      forwards := ?_
      sound := ?_
      finished := by rwa [List.dropLast_concat] }, ?_⟩
  · intro entry hmem
    rcases List.mem_append.mp hmem with hold | hnew
    · exact hserving.consumes entry hold
    · rw [List.mem_singleton.mp hnew]
      refine ⟨?_, Call.withoutMessage_of_inFlight hflight⟩
      intro msg hnone
      cases hnone
  · intro other hmem
    rcases List.mem_append.mp hmem with hold | hnew
    · exact hserving.forwards other hold
    · rw [List.mem_singleton.mp hnew]
      exact hforwards
  · intro other hmem
    rcases List.mem_append.mp hmem with hold | hnew
    · exact sound_finished (hidle other hold)
    · rw [List.mem_singleton.mp hnew]
      exact hsound _
  · unfold unread
    simp only [List.flatMap_append, List.flatMap_singleton, hheld, List.append_nil]
    rw [held_finished hidle, held_finished hidle]
    rfl

/-- Sending or receiving fails before the call has a message in its hands. -/
theorem Serving.fail (hserving : Serving codecs start client log) {index : Nat} {call : Call}
    (hcall : client.calls[index]? = some call)
    (hstage : call.stage = .sending ∨ call.stage = .receiving) (reason : String) :
    ∃ log', Serving codecs start
        (client.setStage index call (.returned (.error (.transport reason)))) log' ∧
      log'.flatMap (fun entry => entry.2.messages) = log.flatMap (fun entry => entry.2.messages) ∧
      (client.setStage index call (.returned (.error (.transport reason)))).unread codecs =
        client.unread codecs := by
  have hflight : call.InFlight := by
    unfold Call.InFlight
    rcases hstage with hsends | hreceives
    · rw [hsends]
      trivial
    · rw [hreceives]
      trivial
  have hheld : call.stage.held codecs client.inner = [] := by
    rcases hstage with hsends | hreceives
    · rw [hsends]
      rfl
    · rw [hreceives]
      rfl
  obtain ⟨earlier, consumption, rfl, hcalls, rfl⟩ := hserving.split hcall hflight
  have hconsumes := hserving.consumes _ (List.mem_append_right earlier List.mem_cons_self)
  have hhanded : consumption.handed = none := hconsumes.handed_eq_none hflight
  have hfinished := hserving.finished
  rw [hcalls, List.dropLast_concat] at hfinished
  have hset := set_last { call with stage := .returned (.error (.transport reason)) } hcalls
    (List.length_map Prod.fst).symm
  have hempty : ({ call with stage := .returned (.error (.transport reason)) } : Call).Consumes
      consumption := by
    refine ⟨hconsumes.forwarded, ?_⟩
    rw [hhanded]
    trivial
  have hsound : (Stage.returned (.error (.transport reason))).Sound codecs client.inner := trivial
  have hnext := hserving.replace consumption (List.append_nil _).symm
    (List.append_nil client.inner.events).symm rfl hserving.supplied hsound hempty client.handings
  rw [← hset] at hnext
  refine ⟨_, hnext, ?_, ?_⟩
  · rw [List.flatMap_append, List.flatMap_append]
    rfl
  · rw [unread_eq codecs client hcalls hfinished]
    refine (unread_eq codecs ⟨client.inner, _, client.handings⟩ hset hfinished).trans ?_
    unfold ClientInner.unread
    rw [hheld]
    rfl

/-- Every move of a serial run keeps the stream and appends what arrives. -/
theorem Serving.step (hserving : Serving codecs start client log) {move : ClientMove}
    (hserial : client.OneAtATime move)
    (harrived : ∀ raw ∈ move.arrived,
      ∃ packet, client.inner.openPacket codecs raw = .ok packet)
    (hstep : client.step codecs move = some next) :
    ∃ log', Serving codecs start next log' ∧
      log'.flatMap (fun entry => entry.2.messages) ++ next.unread codecs =
        log.flatMap (fun entry => entry.2.messages) ++ client.unread codecs ++
          move.arrived.flatMap (start.messages codecs) := by
  cases move with
  | begin request =>
      cases hstep
      obtain ⟨call, hnext, hunread⟩ := hserving.begins hserial.1 hserial.2
      refine ⟨_, hnext, ?_⟩
      rw [hunread]
      simp [ClientMove.arrived, Consumption.messages]
  | arrive packet =>
      cases hstep
      refine ⟨log, { hserving with supplied := ⟨hserving.supplied.pending, ?_⟩ }, ?_⟩
      · intro raw hraw
        rcases List.mem_append.mp hraw with hold | hnew
        · exact hserving.supplied.opened raw hold
        · exact harrived raw hnew
      · rw [← ClientInner.messages_congr hserving.cipher]
        simp only [unread, List.flatMap_append, List.append_assoc]
        rfl
  | advance index =>
      cases step_cases hstep with
      | @advances _ call inner stage hcall hadvance =>
          obtain ⟨log', hnext, hstream⟩ := hserving.advance hcall hadvance
            (client.handings ++ client.handing index stage)
          exact ⟨log', hnext, hstream.trans (List.append_nil _).symm⟩
  | transportFails index reason =>
      obtain ⟨call, hcall, hstage, rfl⟩ := transportFails_stage hstep
      obtain ⟨log', hnext, hmessages, hunread⟩ := hserving.fail hcall hstage reason
      refine ⟨log', hnext, ?_⟩
      rw [hmessages, hunread]
      exact (List.append_nil _).symm
  | abandon => exact hserial.elim

theorem Serving.run (hserving : Serving codecs start client log) {moves : List ClientMove}
    {final : SteamClient} (hrun : (machine codecs).RunWhere OneAtATime client moves final)
    (harrived : ∀ raw ∈ moves.flatMap ClientMove.arrived,
      ∃ packet, start.openPacket codecs raw = .ok packet) :
    ∃ log', Serving codecs start final log' ∧
      log'.flatMap (fun entry => entry.2.messages) ++ final.unread codecs =
        log.flatMap (fun entry => entry.2.messages) ++ client.unread codecs ++
          (moves.flatMap ClientMove.arrived).flatMap (start.messages codecs) := by
  induction moves generalizing client log with
  | nil =>
      obtain rfl : client = final := hrun
      exact ⟨log, hserving, (List.append_nil _).symm⟩
  | cons move rest ih =>
      obtain ⟨hserial, middle, hstep, hrest⟩ := hrun
      obtain ⟨log', hmiddle, hfirst⟩ := hserving.step hserial (by
        intro raw hraw
        rw [ClientInner.openPacket_congr hserving.cipher]
        exact harrived raw (List.mem_append_left _ hraw)) hstep
      obtain ⟨log'', hfinal, hstream⟩ := ih hmiddle hrest (fun raw hraw =>
        harrived raw (List.mem_append_right _ hraw))
      refine ⟨log'', hfinal, ?_⟩
      rw [hstream, hfirst, List.flatMap_cons, List.flatMap_append, List.append_assoc]

/-- A call in flight that finds a message to end with among the unread ones gets
there by its own steps. -/
theorem Serving.completes (hserving : Serving codecs start client log) {index : Nat} {call : Call}
    (hcall : client.calls[index]? = some call) (hflight : call.InFlight)
    (hawaited : ∃ msg ∈ client.unread codecs, call.Awaits msg) :
    ∃ count final msg,
      (machine codecs).RunWhere OneAtATime client (List.replicate count (.advance index)) final ∧
        call.Awaits msg ∧ ∃ reply, call.request.Gets msg reply ∧
          final.calls[index]? = some { call with stage := .returned reply } := by
  induction hrank : client.inner.scanRank codecs call.stage using Nat.strong_induction_on
    generalizing client log call with
  | _ rank ih =>
  have hmem := List.mem_of_getElem? hcall
  have hsound := hserving.sound call hmem
  obtain ⟨earlier, _, rfl, hcalls, hindex⟩ := hserving.split hcall hflight
  have hfinished := hserving.finished
  rw [hcalls, List.dropLast_concat] at hfinished
  have hunread := unread_eq codecs client hcalls hfinished
  rw [hunread] at hawaited
  -- a call that waits for the transport finds the awaited message there
  have hpacket : call.stage = .receiving → client.inner.incoming ≠ [] := by
    intro hstage hempty
    rw [hstage] at hsound
    obtain ⟨msg, hmsg, _⟩ := hawaited
    simp [ClientInner.unread, hstage, hempty, Stage.held, Stage.inHand,
      show client.inner.msgQueue = [] from hsound] at hmsg
  obtain ⟨inner, stage, hadvance⟩ : ∃ inner stage, call.advance codecs client.inner =
      some (inner, stage) := Call.exists_advance hflight hpacket
  have hset := set_last { call with stage } hcalls (hindex.trans (List.length_map Prod.fst).symm)
  have hstep : client.step codecs (.advance index) =
      some ⟨inner, client.calls.set index { call with stage },
        client.handings ++ client.handing index stage⟩ := by
    simp only [SteamClient.step, hcall, hadvance]
  obtain ⟨log', hnext, _⟩ := hserving.advance hcall hadvance
    (client.handings ++ client.handing index stage)
  have hself : (client.calls.set index { call with stage })[index]? =
      some { call with stage } := List.getElem?_set_self (List.getElem?_eq_some_iff.mp hcall).1
  have hunread' := unread_eq codecs ⟨inner, client.calls.set index { call with stage },
    client.handings ++ client.handing index stage⟩ hset hfinished
  obtain ⟨hscan, _⟩ := Call.advance_scan hserving.supplied (hserving.forwards call hmem) hsound
    hadvance
  cases hscan with
  | scans hflight' _ hsame hlower =>
      -- the same messages are unread, and the call is closer to the next of them
      obtain ⟨count, final, msg, hrun, hawaits, hreturned⟩ := ih (inner.scanRank codecs stage) (by
        rw [← hrank, ClientInner.scanRank, ClientInner.scanRank, hsame]
        omega) hnext hself hflight' (by
          rw [hunread', hsame]
          exact hawaited) rfl
      exact ⟨count + 1, final, msg, ⟨trivial, _, hstep, hrun⟩, hawaits, hreturned⟩
  | @forwards passed hstage hother =>
      -- one message less is unread, and it was not the awaited one
      have hfirst : client.inner.unread codecs call.stage = passed ::
          ({ client.inner with events := client.inner.events ++ [passed] } : ClientInner).unread
            codecs .polling := by
        rw [hstage]
        rfl
      obtain ⟨awaited, hawaited, hends⟩ := hawaited
      rw [hfirst] at hawaited
      obtain ⟨count, final, msg, hrun, hawaits, hreturned⟩ := ih _ (by
        rw [← hrank, ClientInner.scanRank, ClientInner.scanRank, hfirst, List.length_cons, hstage]
        simp only [Stage.weight]
        omega) hnext hself trivial (by
          rw [hunread']
          rcases List.mem_cons.mp hawaited with rfl | hlater
          · exact absurd hends hother
          · exact ⟨awaited, hlater, hends⟩) rfl
      exact ⟨count + 1, final, msg, ⟨trivial, _, hstep, hrun⟩, hawaits, hreturned⟩
  | returns _ hawaits =>
      exact ⟨1, _, _, ⟨trivial, _, hstep, rfl⟩, hawaits, _,
        Request.gets_reply (hserving.forwards call hmem) _, hself⟩

/-- Every message is delivered exactly once and in order. In a serial run the
log of the calls, each with the messages up to the first one that ends it and
that it has brought to its caller, followed by what is unread, is the flattened
sequence of all packets; and a call in flight returns with a message that ends it
as soon as the unread messages hold one. -/
theorem delivery_exact {start : ClientInner} (hqueue : start.msgQueue = [])
    (hpending : start.pendingJobs = []) {moves : List ClientMove} {client : SteamClient}
    (hrun : (machine codecs).RunWhere OneAtATime (loggedIn start) moves client)
    {contents : List Content}
    (hcontents : List.Forall₂ (Carries codecs start)
      (start.incoming ++ moves.flatMap ClientMove.arrived) contents) :
    (∃ log, Delivered start client log ∧
      log.flatMap (fun entry => entry.2.messages) ++ client.unread codecs =
        contents.flatMap (Content.flattened codecs)) ∧
    ∀ index call, client.calls[index]? = some call → call.InFlight →
      (∃ msg ∈ client.unread codecs, call.Awaits msg) →
        ∃ count final msg,
          (machine codecs).RunWhere OneAtATime client (List.replicate count (.advance index))
            final ∧ call.Awaits msg ∧ ∃ reply, call.request.Gets msg reply ∧
              final.calls[index]? = some { call with stage := .returned reply } := by
  obtain ⟨hopened, hflattened⟩ := carries_all hcontents
  have hstart : Serving codecs start (loggedIn start) [] :=
    { calls := rfl
      consumes := by simp
      events := List.append_nil _
      cipher := rfl
      supplied := ⟨hpending, fun raw hraw => hopened raw (List.mem_append_left _ hraw)⟩
      forwards := by simp [loggedIn]
      sound := by simp [loggedIn]
      finished := by simp [loggedIn] }
  obtain ⟨log, hserving, hstream⟩ := hstart.run hrun
    (fun raw hraw => hopened raw (List.mem_append_right _ hraw))
  refine ⟨⟨log, hserving.toDelivered, ?_⟩, fun index call hcall hflight hawaited =>
    hserving.completes hcall hflight hawaited⟩
  rw [hstream, ← hflattened, List.flatMap_append]
  simp [unread, loggedIn, hqueue]

/-- AES-256 under the zero key, on the blocks of the bundle below. -/
def bundleBlocks : List (Bytes × Bytes) :=
  [([79, 180, 38, 216, 161, 15, 107, 217, 232, 123, 252, 75, 188, 128, 9, 9],
    [253, 97, 142, 54, 247, 165, 123, 173, 194, 182, 239, 153, 205, 1, 2, 3]),
   ([134, 80, 83, 124, 121, 126, 21, 183, 183, 244, 44, 96, 226, 216, 51, 31],
    [252, 97, 142, 182, 247, 165, 123, 173, 208, 131, 231, 153, 205, 1, 126, 22]),
   ([46, 113, 166, 67, 125, 178, 2, 208, 60, 59, 131, 22, 238, 41, 28, 178],
    [134, 208, 83, 124, 121, 126, 23, 183, 183, 244, 45, 98, 241, 216, 51, 31]),
   ([211, 77, 33, 212, 180, 158, 164, 5, 137, 125, 204, 100, 221, 222, 22, 216],
    [189, 113, 166, 195, 118, 178, 2, 208, 101, 58, 131, 22, 238, 41, 28, 178]),
   ([218, 146, 224, 112, 239, 94, 210, 160, 149, 123, 150, 38, 239, 253, 66, 42],
    [211, 37, 32, 220, 180, 158, 164, 120, 156, 125, 76, 100, 221, 222, 22, 217])]

def sampleSubMessages : List Bytes :=
  [[124, 21, 0, 128, 0, 0, 0, 0], [1, 2],
    [147, 0, 0, 128, 11, 0, 0, 0, 89, 1, 0, 0, 0, 0, 0, 0, 0, 104, 1],
    [125, 21, 0, 128, 0, 0, 0, 0]]

/-- The codecs of a plain bundle of two messages, the response to job 1 between
them and two bytes that do not parse. -/
def bundleCodecs : WireCodecs where
  aes := fun _ block => (bundleBlocks.lookup block).getD []
  hmacSha1 := fun _ _ =>
    [253, 97, 142, 54, 247, 165, 123, 173, 194, 182, 239, 153, 205, 171, 81, 94, 139, 146, 0, 105]
  gunzip := fun _ => none
  decodeHeader := fun header =>
    if header = [] then some {}
    else if header = [89, 1, 0, 0, 0, 0, 0, 0, 0, 104, 1] then
      some { jobidTarget := some 1, eresult := some 1 }
    else none
  decodeMulti := fun body =>
    if body = 18 :: 53 :: joinMessages sampleSubMessages then
      some ⟨none, some (joinMessages sampleSubMessages)⟩
    else none
  decodeDepotKeyResponse := fun _ => none
  encodeDepotKeyRequest := fun _ => []

def bundlePacket : Bytes :=
  [79, 180, 38, 216, 161, 15, 107, 217, 232, 123, 252, 75, 188, 128, 9, 9, 134, 80, 83, 124, 121,
   126, 21, 183, 183, 244, 44, 96, 226, 216, 51, 31, 46, 113, 166, 67, 125, 178, 2, 208, 60, 59,
   131, 22, 238, 41, 28, 178, 211, 77, 33, 212, 180, 158, 164, 5, 137, 125, 204, 100, 221, 222,
   22, 216, 218, 146, 224, 112, 239, 94, 210, 160, 149, 123, 150, 38, 239, 253, 66, 42]

/-- A service call takes the first two messages of the bundle, a plain receive
the third. -/
def bundleMoves : List ClientMove :=
  [.begin sampleCall, .advance 0, .arrive bundlePacket] ++ List.replicate 8 (.advance 0) ++
    [.begin .recvMsg, .advance 1, .advance 1]

theorem delivery_exact_sample :
    ∃ client log, (machine bundleCodecs).run (loggedIn sampleInner) bundleMoves = some client ∧
      client.inner.events = [⟨⟨5500⟩, true, {}, []⟩] ∧
      Delivered sampleInner client log ∧
      log.flatMap (fun entry => entry.2.messages) ++ client.unread bundleCodecs =
        [⟨⟨5500⟩, true, {}, []⟩,
          ⟨⟨147⟩, true, { jobidTarget := some 1, eresult := some 1 }, []⟩,
          ⟨⟨5501⟩, true, {}, []⟩] := by
  have hany : (((machine bundleCodecs).guarded OneAtATime).run (loggedIn sampleInner)
      bundleMoves).any (fun client => client.inner.events == [⟨⟨5500⟩, true, {}, []⟩]) = true := by
    decide +kernel
  obtain ⟨client, hrun, hevents⟩ := Machine.exists_of_run_any _ hany
  have hserial := Machine.runWhere_of_guarded _ hrun
  have hdecrypt : sampleInner.decryptPacket bundleCodecs bundlePacket =
      .ok ([1, 0, 0, 128, 0, 0, 0, 0, 18, 53] ++ joinMessages sampleSubMessages) := by
    decide +kernel
  have hflat : ∀ sub ∈ sampleSubMessages, (parseIncoming bundleCodecs sub).toOption.all
      (fun msg => msg.emsg ≠ .multi) = true := by decide
  have hnested : ∀ sub ∈ sampleSubMessages, ∀ msg, parseIncoming bundleCodecs sub = .ok msg →
      msg.emsg ≠ .multi := by
    intro sub hsub msg hparse
    have hother := hflat sub hsub
    rw [hparse] at hother
    exact of_decide_eq_true hother
  have hcarries : Carries bundleCodecs sampleInner bundlePacket (.multi sampleSubMessages) :=
    .multi hdecrypt rfl rfl rfl (.plain _ rfl) (by decide) hnested
  obtain ⟨⟨log, hdelivered, hstream⟩, _⟩ := delivery_exact rfl rfl hserial
    (.cons hcarries .nil)
  refine ⟨client, log, hserial.run_eq, by simpa using hevents, hdelivered, hstream.trans ?_⟩
  decide +kernel

end SteamClient

end DepotDownloader.Steam
