import DepotDownloader.Steam.Client.Delivery
import Mathlib.Data.List.Perm.Subperm

/-! # Bundles within bundles

A bundle is unpacked once: the messages in it go to the queue, and what a call takes
from the queue is not looked into again. So a bundle inside another one is returned as
it is, and the messages in it reach nobody.
-/

namespace DepotDownloader.Steam

open Foundation

variable {codecs : WireCodecs}

/-- The messages of a packet down to a depth of nesting, bundles taken apart. -/
def leafMessages (codecs : WireCodecs) : Nat → Bytes → List IncomingMsg
  | 0, _ => []
  | depth + 1, data =>
      match parseIncoming codecs data with
      | .error _ => []
      | .ok msg =>
          if msg.emsg = .multi then
            match unpackMulti codecs msg.body with
            | .error _ => []
            | .ok subMessages => subMessages.flatMap (leafMessages codecs depth)
          else [msg]

/-- The leaves of a packet as it comes from the transport. -/
def ClientInner.leaves (codecs : WireCodecs) (inner : ClientInner) (depth : Nat) (raw : Bytes) :
    List IncomingMsg :=
  match inner.decryptPacket codecs raw with
  | .error _ => []
  | .ok payload => leafMessages codecs depth payload

/-- The messages that a call has taken from the transport and not yet passed on, a packet
being taken apart completely. -/
def Stage.carried (codecs : WireCodecs) (inner : ClientInner) (depth : Nat) :
    Stage → List IncomingMsg
  | .received raw => inner.leaves codecs depth raw
  | .unpacked subMessages => ClientInner.parsedMessages codecs subMessages
  | _ => []

namespace SteamClient

/-- The messages that receive loops have returned or sent to a registered job. -/
def reached (client : SteamClient) : List IncomingMsg :=
  client.handings.map Handing.msg ++ client.inner.routed.map Prod.snd

/-- The messages on their way to a caller: in the queue, with a call, or in the transport. -/
def underway (codecs : WireCodecs) (client : SteamClient) (depth : Nat) : List IncomingMsg :=
  client.inner.msgQueue ++
    client.calls.flatMap (fun call => call.stage.carried codecs client.inner depth) ++
    client.inner.incoming.flatMap (client.inner.leaves codecs depth)

/-- Of the packets sent so far every leaf, at whatever depth, is on its way to a caller or
has reached one as a message of its own, and no bundle has been returned. -/
structure Unbundled (codecs : WireCodecs) (start : ClientInner) (packets : List Bytes)
    (client : SteamClient) : Prop where
  returned : ∀ handing ∈ client.handings, handing.msg.emsg ≠ .multi
  leaves : ∀ depth, (packets.flatMap (start.leaves codecs depth)).Subperm
    (client.reached ++ client.underway codecs depth)

/-- A call goes on with a packet or a bundle only if none of the messages that it brings is
a bundle again, and a call is dropped only if it holds no message. -/
def Unnested (codecs : WireCodecs) (client : SteamClient) (move : ClientMove) : Prop :=
  match move with
  | .advance index => ∀ call ∈ client.calls[index]?,
      ∀ msg ∈ call.stage.inHand codecs client.inner, msg.emsg ≠ .multi
  | .abandon index => ∀ call ∈ client.calls[index]?, call.stage.inHand codecs client.inner = []
  | _ => True

instance (client : SteamClient) (move : ClientMove) : Decidable (client.Unnested codecs move) :=
  match move with
  | .advance index => inferInstanceAs (Decidable (∀ call ∈ client.calls[index]?,
      ∀ msg ∈ call.stage.inHand codecs client.inner, msg.emsg ≠ .multi))
  | .abandon index => inferInstanceAs (Decidable (∀ call ∈ client.calls[index]?,
      call.stage.inHand codecs client.inner = []))
  | .begin _ | .transportFails _ _ | .arrive _ => .isTrue trivial

end SteamClient

section Leaves

variable {inner inner' : ClientInner}

theorem ClientInner.leaves_congr (hcipher : inner'.cipher = inner.cipher) (depth : Nat) :
    inner'.leaves codecs depth = inner.leaves codecs depth := by
  funext raw
  simp only [leaves, decryptPacket, hcipher]

/-- A message that is no bundle is its only leaf, if the depth is enough to see it. -/
theorem leafMessages_of_ne_multi {data : Bytes} {msg : IncomingMsg}
    (hparse : parseIncoming codecs data = .ok msg) (hemsg : msg.emsg ≠ .multi) (depth : Nat) :
    (leafMessages codecs depth data).Sublist [msg] := by
  cases depth with
  | zero => exact List.nil_sublist _
  | succ depth =>
      rw [leafMessages, hparse]
      simp only [if_neg hemsg]
      exact List.Sublist.refl _

/-- The leaves of a bundle without bundles in it are its messages. -/
theorem leafMessages_flat {subMessages : List Bytes} (depth : Nat)
    (hflat : ∀ msg ∈ ClientInner.parsedMessages codecs subMessages, msg.emsg ≠ .multi) :
    (subMessages.flatMap (leafMessages codecs depth)).Sublist
      (ClientInner.parsedMessages codecs subMessages) := by
  induction subMessages with
  | nil => exact List.Sublist.refl _
  | cons sub rest ih =>
      cases hparse : parseIncoming codecs sub with
      | error error =>
          have hparsed : ClientInner.parsedMessages codecs (sub :: rest) =
              ClientInner.parsedMessages codecs rest := by
            simp [ClientInner.parsedMessages, hparse, Except.toOption]
          have hnone : leafMessages codecs depth sub = [] := by
            cases depth with
            | zero => rfl
            | succ depth => simp only [leafMessages, hparse]
          rw [hparsed] at hflat ⊢
          rw [List.flatMap_cons, hnone]
          exact ih hflat
      | ok msg =>
          have hparsed : ClientInner.parsedMessages codecs (sub :: rest) =
              msg :: ClientInner.parsedMessages codecs rest := by
            simp [ClientInner.parsedMessages, hparse, Except.toOption]
          rw [hparsed] at hflat ⊢
          rw [List.flatMap_cons]
          exact (leafMessages_of_ne_multi hparse (hflat msg List.mem_cons_self) depth).append
            (ih fun other hmem => hflat other (List.mem_cons_of_mem _ hmem))

/-- The leaves of a packet without bundles in its bundle are its messages. -/
theorem ClientInner.leaves_sublist_messages {raw : Bytes} (depth : Nat)
    (hflat : ∀ msg ∈ inner.messages codecs raw, msg.emsg ≠ .multi) :
    (inner.leaves codecs depth raw).Sublist (inner.messages codecs raw) := by
  unfold leaves
  split
  next => exact List.nil_sublist _
  next payload hdecrypt =>
    cases hparse : parseIncoming codecs payload with
    | error error =>
        cases depth with
        | zero => exact List.nil_sublist _
        | succ depth =>
            simp only [leafMessages, hparse]
            exact List.nil_sublist _
    | ok msg =>
        by_cases hemsg : msg.emsg = .multi
        · cases depth with
          | zero => exact List.nil_sublist _
          | succ depth =>
              simp only [leafMessages, hparse, if_pos hemsg]
              cases hunpack : unpackMulti codecs msg.body with
              | error error => exact List.nil_sublist _
              | ok subMessages =>
                  have hmessages : inner.messages codecs raw =
                      parsedMessages codecs subMessages := by
                    simp only [messages, openPacket, hdecrypt, hparse, if_pos hemsg, hunpack,
                      Except.map]
                  rw [hmessages] at hflat ⊢
                  exact leafMessages_flat depth hflat
        · have hmessages : inner.messages codecs raw = [msg] := by
            simp only [messages, openPacket, hdecrypt, hparse, if_neg hemsg]
          rw [hmessages]
          exact leafMessages_of_ne_multi hparse hemsg depth

end Leaves

section Routing

/-- A routed message is returned or sent to its job. Nothing else changes hands. -/
theorem ClientInner.recvRouted_conserves (inner : ClientInner) (exceptJobId : Option UInt64)
    (msg leaf : IncomingMsg) :
    let routed := inner.recvRouted exceptJobId msg
    (routed.1.routed.map Prod.snd).count leaf + routed.2.toList.count leaf =
        (inner.routed.map Prod.snd).count leaf + [msg].count leaf ∧
      routed.1.msgQueue = inner.msgQueue ∧ routed.1.incoming = inner.incoming ∧
      routed.1.cipher = inner.cipher := by
  unfold recvRouted
  split
  · split
    · exact ⟨rfl, rfl, rfl, rfl⟩
    · split
      · simp
      · exact ⟨rfl, rfl, rfl, rfl⟩
  · exact ⟨rfl, rfl, rfl, rfl⟩

theorem Request.handle_conserves {request : Request} {jobId : Option UInt64}
    {inner inner' : ClientInner} {msg : IncomingMsg} {stage : Stage}
    (hhandle : request.handle codecs jobId inner msg = (inner', stage)) :
    inner'.routed = inner.routed ∧ inner'.msgQueue = inner.msgQueue ∧
      inner'.incoming = inner.incoming ∧ inner'.cipher = inner.cipher ∧
      ∀ depth, stage.carried codecs inner depth = [] := by
  unfold handle at hhandle
  split at hhandle
  · split at hhandle <;> cases hhandle <;> exact ⟨rfl, rfl, rfl, rfl, fun _ => rfl⟩
  · split at hhandle <;> cases hhandle <;> exact ⟨rfl, rfl, rfl, rfl, fun _ => rfl⟩
  · cases hhandle
    exact ⟨rfl, rfl, rfl, rfl, fun _ => rfl⟩

/-- What one call holds is exchanged for something else. -/
theorem count_flatMap_set {α β : Type} [DecidableEq β] (held : α → List β) {parties : List α}
    {index : Nat} {party : α} (hparty : parties[index]? = some party) (party' : α) (value : β) :
    ((parties.set index party').flatMap held).count value + (held party).count value =
      (parties.flatMap held).count value + (held party').count value := by
  induction parties generalizing index with
  | nil => simp at hparty
  | cons head tail ih =>
      cases index with
      | zero =>
          rw [List.getElem?_cons_zero, Option.some.injEq] at hparty
          subst hparty
          simp only [List.set_cons_zero, List.flatMap_cons, List.count_append]
          omega
      | succ index =>
          rw [List.getElem?_cons_succ] at hparty
          have htail := ih hparty
          simp only [List.set_cons_succ, List.flatMap_cons, List.count_append]
          omega

end Routing

namespace SteamClient

variable {client next : SteamClient}

/-- A message that a call routes is in its hands or with the job afterwards, and in
nothing else that the call holds. -/
theorem route_conserves (client : SteamClient) (call : Call) (inner : ClientInner)
    (msg leaf : IncomingMsg) (index : Nat) :
    let routed := call.route inner msg
    ((client.handing index (Call.afterRoute routed.2)).map Handing.msg).count leaf +
        (routed.1.routed.map Prod.snd).count leaf =
      (inner.routed.map Prod.snd).count leaf + [msg].count leaf ∧
    routed.1.msgQueue = inner.msgQueue ∧ routed.1.incoming = inner.incoming ∧
    routed.1.cipher = inner.cipher ∧
    ∀ depth, (Call.afterRoute routed.2).carried codecs client.inner depth = [] := by
  obtain ⟨exceptJobId, hroute⟩ := call.exists_route_eq
  obtain ⟨hcount, hqueue, hincoming, hcipher⟩ := inner.recvRouted_conserves exceptJobId msg leaf
  rw [hroute]
  refine ⟨?_, hqueue, hincoming, hcipher, ?_⟩
  · rw [← hcount]
    cases (inner.recvRouted exceptJobId msg).2 with
    | none => simp [Call.afterRoute, handing]
    | some returned =>
        simp only [Call.afterRoute, handing, List.map_cons, List.map_nil, Option.toList_some,
          Nat.add_comm]
  · intro depth
    cases (inner.recvRouted exceptJobId msg).2 <;> rfl

/-- The messages that a step of a call takes from the shared state and its own hands are
there afterwards, with what it has passed on. -/
theorem advance_conserves {call : Call} {inner : ClientInner} {stage : Stage} (depth : Nat)
    (leaf : IncomingMsg)
    (hflat : ∀ msg ∈ call.stage.inHand codecs client.inner, msg.emsg ≠ .multi)
    (hadvance : call.advance codecs client.inner = some (inner, stage)) (index : Nat) :
    inner.cipher = client.inner.cipher ∧
    (client.inner.routed.map Prod.snd).count leaf + client.inner.msgQueue.count leaf +
        (call.stage.carried codecs client.inner depth).count leaf +
        (client.inner.incoming.flatMap (client.inner.leaves codecs depth)).count leaf ≤
      ((client.handing index stage).map Handing.msg).count leaf +
        (inner.routed.map Prod.snd).count leaf + inner.msgQueue.count leaf +
        (stage.carried codecs client.inner depth).count leaf +
        (inner.incoming.flatMap (client.inner.leaves codecs depth)).count leaf := by
  have hleaves : ∀ raw : Bytes, call.stage = .received raw →
      (client.inner.leaves codecs depth raw).count leaf ≤
        (client.inner.messages codecs raw).count leaf := by
    intro raw hstage
    rw [hstage] at hflat
    exact (ClientInner.leaves_sublist_messages depth hflat).count_le leaf
  cases Call.advance_cases hadvance with
  | sends hstage =>
      refine ⟨rfl, ?_⟩
      rw [hstage]
      simp [Stage.carried, handing]
  | waits hstage =>
      refine ⟨rfl, ?_⟩
      rw [hstage]
      simp [Stage.carried, handing]
  | @takes msg rest hstage hqueue =>
      obtain ⟨hcount, hsame, hincoming, hcipher, hcarried⟩ :=
        client.route_conserves call { client.inner with msgQueue := rest } msg leaf index
      refine ⟨hcipher, ?_⟩
      rw [hcarried, hsame, hincoming, hstage, hqueue]
      simp only [Stage.carried, List.count_nil, List.count_cons] at hcount ⊢
      omega
  | @receives raw rest hstage hincoming =>
      refine ⟨rfl, ?_⟩
      rw [hstage, hincoming, List.flatMap_cons, List.count_append]
      simp only [Stage.carried, handing, List.map_nil, List.count_nil]
      omega
  -- a packet that cannot be opened has no leaves
  | @fails raw error hstage hopen =>
      refine ⟨rfl, ?_⟩
      have hnone : client.inner.messages codecs raw = [] := by
        rw [ClientInner.messages, hopen]
      have hraw := hleaves raw hstage
      rw [hnone, List.count_nil] at hraw
      rw [hstage]
      simp only [Stage.carried, handing, List.map_nil, List.count_nil]
      omega
  -- none of the messages is a bundle, so they are the leaves
  | @unpacks raw subMessages hstage hopen =>
      refine ⟨rfl, ?_⟩
      have hbundle : client.inner.messages codecs raw =
          ClientInner.parsedMessages codecs subMessages := by
        rw [ClientInner.messages, hopen]
      have hraw := hleaves raw hstage
      rw [hbundle] at hraw
      rw [hstage]
      simp only [Stage.carried, handing, List.map_nil, List.count_nil]
      omega
  | @opens raw msg hstage hopen =>
      obtain ⟨hcount, hsame, hincoming, hcipher, hcarried⟩ :=
        client.route_conserves call client.inner msg leaf index
      refine ⟨hcipher, ?_⟩
      have hsingle : client.inner.messages codecs raw = [msg] := by
        rw [ClientInner.messages, hopen]
      have hraw := hleaves raw hstage
      rw [hsingle] at hraw
      rw [hcarried, hsame, hincoming, hstage]
      simp only [Stage.carried, List.count_nil]
      omega
  | @queues subMessages hstage =>
      refine ⟨rfl, ?_⟩
      rw [hstage]
      simp only [Stage.carried, handing, List.map_nil, List.count_nil, List.count_append]
      omega
  | handles hstage hhandle =>
      obtain ⟨hrouted, hqueue, hincoming, hcipher, hcarried⟩ := Request.handle_conserves hhandle
      refine ⟨hcipher, ?_⟩
      rw [hrouted, hqueue, hincoming, hcarried, hstage]
      simp only [Stage.carried, List.count_nil]
      omega

theorem carried_congr {inner inner' : ClientInner} (hcipher : inner'.cipher = inner.cipher)
    (depth : Nat) (call : Call) :
    call.stage.carried codecs inner' depth = call.stage.carried codecs inner depth := by
  cases hstage : call.stage <;> simp only [Stage.carried, ClientInner.leaves_congr hcipher]

/-- How often a message is accounted for. -/
theorem count_accounted (depth : Nat) (leaf : IncomingMsg) :
    (client.reached ++ client.underway codecs depth).count leaf =
      (client.handings.map Handing.msg).count leaf +
        (client.inner.routed.map Prod.snd).count leaf + client.inner.msgQueue.count leaf +
        (client.calls.flatMap fun call =>
          call.stage.carried codecs client.inner depth).count leaf +
        (client.inner.incoming.flatMap (client.inner.leaves codecs depth)).count leaf := by
  simp only [reached, underway, List.count_append]
  omega

/-- A call that holds no message may be stopped. -/
theorem setStage_accounted (depth : Nat) (leaf : IncomingMsg) {index : Nat} {call : Call}
    (hcall : client.calls[index]? = some call)
    (hempty : call.stage.carried codecs client.inner depth = []) (stage : Stage) :
    (client.reached ++ client.underway codecs depth).count leaf ≤
      ((client.setStage index call stage).reached ++
        (client.setStage index call stage).underway codecs depth).count leaf := by
  have hset := count_flatMap_set (fun call : Call => call.stage.carried codecs client.inner depth)
    hcall { call with stage } leaf
  rw [hempty, List.count_nil] at hset
  rw [count_accounted, count_accounted]
  simp only [setStage]
  omega

/-- No leaf is lost by a step that meets the condition, and what arrives is added. -/
theorem step_leaves (depth : Nat) (leaf : IncomingMsg) {move : ClientMove}
    (hunnested : client.Unnested codecs move) (hstep : client.step codecs move = some next) :
    next.inner.cipher = client.inner.cipher ∧
      (client.reached ++ client.underway codecs depth).count leaf +
          (move.arrived.flatMap (client.inner.leaves codecs depth)).count leaf ≤
        (next.reached ++ next.underway codecs depth).count leaf := by
  cases move with
  | begin request =>
      obtain ⟨started, hcalls, hempty, hinner⟩ : ∃ started : Call,
          next.calls = client.calls ++ [started] ∧
          started.stage.carried codecs client.inner depth = [] ∧
          (next.handings = client.handings ∧ next.inner.routed = client.inner.routed ∧
            next.inner.msgQueue = client.inner.msgQueue ∧
            next.inner.incoming = client.inner.incoming ∧
            next.inner.cipher = client.inner.cipher) := by
        cases hstep
        cases request <;> exact ⟨_, rfl, rfl, rfl, rfl, rfl, rfl, rfl⟩
      obtain ⟨hhandings, hrouted, hqueue, hincoming, hcipher⟩ := hinner
      refine ⟨hcipher, ?_⟩
      rw [count_accounted, count_accounted, hcalls, hhandings, hrouted, hqueue, hincoming,
        ClientInner.leaves_congr hcipher]
      simp only [carried_congr hcipher, List.flatMap_append, List.count_append, hempty,
        List.flatMap_cons, List.flatMap_nil, ClientMove.arrived, List.count_nil]
      omega
  | arrive packet =>
      cases hstep
      refine ⟨rfl, ?_⟩
      rw [count_accounted, count_accounted]
      have hcipher : ({ client.inner with incoming := client.inner.incoming ++ [packet] } :
          ClientInner).cipher = client.inner.cipher := rfl
      simp only [carried_congr hcipher, ClientInner.leaves_congr hcipher, List.flatMap_append,
        List.count_append, ClientMove.arrived]
      omega
  | advance index =>
      cases step_cases hstep with
      | @advances _ call inner stage hcall hadvance =>
          obtain ⟨hcipher, hcount⟩ := advance_conserves depth leaf (hunnested call hcall) hadvance
            index
          refine ⟨hcipher, ?_⟩
          have hset := count_flatMap_set
            (fun call : Call => call.stage.carried codecs client.inner depth)
            hcall { call with stage } leaf
          rw [count_accounted, count_accounted]
          dsimp only at hset
          simp only [carried_congr hcipher, ClientInner.leaves_congr hcipher, List.map_append,
            List.count_append, ClientMove.arrived, List.flatMap_nil, List.count_nil]
          omega
  | transportFails index reason =>
      obtain ⟨call, hcall, hstage, rfl⟩ := transportFails_stage hstep
      have hempty : call.stage.carried codecs client.inner depth = [] := by
        rcases hstage with hsends | hreceives
        · rw [hsends]
          rfl
        · rw [hreceives]
          rfl
      exact ⟨rfl, setStage_accounted depth leaf hcall hempty _⟩
  | abandon index =>
      cases step_cases hstep with
      | @drops _ call hcall =>
          have hhand := hunnested call hcall
          have hempty : call.stage.carried codecs client.inner depth = [] := by
            cases hstage : call.stage with
            | received raw =>
                rw [hstage] at hhand
                have hnone : client.inner.messages codecs raw = [] := hhand
                have hleaves : (client.inner.leaves codecs depth raw).Sublist
                    (client.inner.messages codecs raw) :=
                  ClientInner.leaves_sublist_messages depth (by simp [hnone])
                rw [hnone] at hleaves
                exact List.sublist_nil.mp hleaves
            | unpacked subMessages =>
                rw [hstage] at hhand
                exact hhand
            | _ => rfl
          exact ⟨rfl, setStage_accounted depth leaf hcall hempty _⟩

theorem run_leaves (depth : Nat) (leaf : IncomingMsg) {moves : List ClientMove}
    (hrun : (machine codecs).RunWhere (Unnested codecs) client moves next) :
    (client.reached ++ client.underway codecs depth).count leaf +
        ((moves.flatMap ClientMove.arrived).flatMap (client.inner.leaves codecs depth)).count leaf ≤
      (next.reached ++ next.underway codecs depth).count leaf := by
  induction moves generalizing client with
  | nil =>
      obtain rfl : client = next := hrun
      exact Nat.le_refl _
  | cons move rest ih =>
      obtain ⟨hunnested, middle, hstep, hrest⟩ := hrun
      obtain ⟨hcipher, hfirst⟩ := step_leaves depth leaf hunnested hstep
      have htail := ih hrest
      rw [ClientInner.leaves_congr hcipher] at htail
      have harrived : (((move :: rest).flatMap ClientMove.arrived).flatMap
          (client.inner.leaves codecs depth)).count leaf =
          (move.arrived.flatMap (client.inner.leaves codecs depth)).count leaf +
            ((rest.flatMap ClientMove.arrived).flatMap
              (client.inner.leaves codecs depth)).count leaf := by
        rw [List.flatMap_cons, List.flatMap_append, List.count_append]
      omega

/-- What is put into the queue was in the hands of the call. -/
theorem advance_queue {inner inner' : ClientInner} {call : Call} {stage : Stage}
    (hadvance : call.advance codecs inner = some (inner', stage)) {msg : IncomingMsg}
    (hmem : msg ∈ inner'.msgQueue) :
    msg ∈ inner.msgQueue ∨ msg ∈ call.stage.inHand codecs inner := by
  have hroute : ∀ (inner : ClientInner) (msg : IncomingMsg),
      (call.route inner msg).1.msgQueue = inner.msgQueue := by
    intro inner msg
    obtain ⟨exceptJobId, hroute⟩ := call.exists_route_eq
    rw [hroute]
    exact (inner.recvRouted_conserves exceptJobId msg msg).2.1
  cases Call.advance_cases hadvance with
  | sends | waits | receives | fails | unpacks => exact .inl hmem
  | takes hstage hqueue =>
      rw [hroute] at hmem
      rw [hqueue]
      exact .inl (List.mem_cons_of_mem _ hmem)
  | opens =>
      rw [hroute] at hmem
      exact .inl hmem
  | queues hstage =>
      rw [hstage]
      exact List.mem_append.mp hmem
  | handles hstage hhandle =>
      rw [(Request.handle_conserves hhandle).2.1] at hmem
      exact .inl hmem

/-- A step that meets the condition returns no bundle and puts none into the queue. -/
theorem step_returned {move : ClientMove} (hunnested : client.Unnested codecs move)
    (hstep : client.step codecs move = some next)
    (hreturned : ∀ handing ∈ client.handings, handing.msg.emsg ≠ .multi)
    (hqueue : ∀ msg ∈ client.inner.msgQueue, msg.emsg ≠ .multi) :
    (∀ handing ∈ next.handings, handing.msg.emsg ≠ .multi) ∧
      ∀ msg ∈ next.inner.msgQueue, msg.emsg ≠ .multi := by
  cases step_cases hstep with
  | begins request => cases request <;> exact ⟨hreturned, hqueue⟩
  | arrives | fails | drops => exact ⟨hreturned, hqueue⟩
  | @advances index call inner stage hcall hadvance =>
      have hflat := hunnested call hcall
      constructor
      · intro handing hmem
        rcases List.mem_append.mp hmem with hold | hnew
        · exact hreturned handing hold
        · cases stage with
          | handed msg =>
              rw [List.mem_singleton.mp hnew]
              obtain ⟨_, hqueued⟩ | ⟨raw, hstage, hraw⟩ := Call.advance_handed hadvance
              · exact hqueue msg hqueued
              · rw [hstage] at hflat
                exact hflat msg hraw
          | _ => cases hnew
      · intro msg hmem
        rcases advance_queue hadvance hmem with hqueued | hhand
        · exact hqueue msg hqueued
        · exact hflat msg hhand

/-- What holds after any sequence of steps that meet the condition: nothing but bundles
within bundles and dropped calls loses a leaf or returns a bundle. -/
theorem bundles_unpacked {start : ClientInner} {moves : List ClientMove}
    (hqueue : ∀ msg ∈ start.msgQueue, msg.emsg ≠ .multi)
    (hrun : (machine codecs).RunWhere (Unnested codecs) (loggedIn start) moves client) :
    Unbundled codecs start (start.incoming ++ moves.flatMap ClientMove.arrived) client := by
  have hstep : ∀ (state : SteamClient) (move : ClientMove) (next : SteamClient),
      ((∀ handing ∈ state.handings, handing.msg.emsg ≠ .multi) ∧
        ∀ msg ∈ state.inner.msgQueue, msg.emsg ≠ .multi) → state.Unnested codecs move →
      state.step codecs move = some next →
        (∀ handing ∈ next.handings, handing.msg.emsg ≠ .multi) ∧
          ∀ msg ∈ next.inner.msgQueue, msg.emsg ≠ .multi :=
    fun _ _ _ hstate hunnested hstep => step_returned hunnested hstep hstate.1 hstate.2
  have hreturned := Machine.RunWhere.invariant _ hstep ⟨by simp [loggedIn], hqueue⟩ hrun
  constructor
  · exact hreturned.1
  · intro depth
    rw [List.subperm_iff_count]
    intro leaf
    have hleaves := run_leaves depth leaf hrun
    rw [List.flatMap_append, List.count_append]
    refine Nat.le_trans ?_ hleaves
    rw [count_accounted]
    simp only [loggedIn]
    omega

/-- A bundle of two messages and one response is received, unpacked and handed on. -/
theorem bundles_unpacked_sample :
    ∃ client, (machine bundleCodecs).run (loggedIn sampleInner) bundleMoves = some client ∧
      client.handings.length = 3 ∧
      Unbundled bundleCodecs sampleInner [bundlePacket] client := by
  have hany : (((machine bundleCodecs).guarded (Unnested bundleCodecs)).run
      (loggedIn sampleInner) bundleMoves).any
      (fun client => client.handings.length == 3) = true := by
    decide +kernel
  obtain ⟨client, hrun, hlength⟩ := Machine.exists_of_run_any _ hany
  have hunnested := Machine.runWhere_of_guarded _ hrun
  have hqueue : ∀ msg ∈ sampleInner.msgQueue, msg.emsg ≠ .multi := by
    intro msg hmem
    cases hmem
  exact ⟨client, hunnested.run_eq, by simpa using hlength, bundles_unpacked hqueue hunnested⟩

/-- AES-256 under the zero key, on the blocks of the packet below. -/
def nestedBlocks : List (Bytes × Bytes) :=
  [([202, 202, 40, 130, 145, 68, 114, 253, 208, 255, 105, 6, 13, 96, 0, 68],
    [237, 64, 1, 155, 126, 4, 193, 69, 115, 75, 86, 197, 122, 1, 2, 3]),
   ([128, 159, 180, 220, 45, 16, 112, 55, 214, 7, 194, 236, 225, 71, 74, 105],
    [236, 64, 1, 27, 126, 4, 193, 69, 97, 81, 64, 197, 122, 1, 3, 3]),
   ([33, 86, 223, 224, 193, 11, 66, 74, 245, 243, 170, 60, 221, 52, 52, 144],
    [128, 31, 180, 220, 45, 16, 98, 59, 222, 7, 194, 236, 157, 82, 74, 233]),
   ([199, 243, 246, 62, 171, 183, 233, 223, 126, 228, 201, 109, 1, 79, 232, 27],
    [33, 86, 223, 224, 205, 7, 78, 70, 249, 255, 166, 48, 209, 56, 56, 156])]

/-- The message 5500 behind its length, and the bundle that holds it behind its own. -/
def innerPayload : Bytes := [8, 0, 0, 0, 124, 21, 0, 128, 0, 0, 0, 0]
def outerPayload : Bytes := [22, 0, 0, 0, 1, 0, 0, 128, 0, 0, 0, 0, 18, 12] ++ innerPayload

def nestedCodecs : WireCodecs where
  aes := fun _ block => (nestedBlocks.lookup block).getD []
  hmacSha1 := fun _ _ =>
    [237, 64, 1, 155, 126, 4, 193, 69, 115, 75, 86, 197, 122, 192, 2, 59, 112, 5, 166, 19]
  gunzip := fun _ => none
  decodeHeader := fun header => if header = [] then some {} else none
  decodeMulti := fun body =>
    if body = 18 :: 12 :: innerPayload then some ⟨none, some innerPayload⟩
    else if body = 18 :: 26 :: outerPayload then some ⟨none, some outerPayload⟩
    else none
  decodeDepotKeyResponse := fun _ => none
  encodeDepotKeyRequest := fun _ => []

def nestedPacket : Bytes :=
  [202, 202, 40, 130, 145, 68, 114, 253, 208, 255, 105, 6, 13, 96, 0, 68, 128, 159, 180, 220,
   45, 16, 112, 55, 214, 7, 194, 236, 225, 71, 74, 105, 33, 86, 223, 224, 193, 11, 66, 74, 245,
   243, 170, 60, 221, 52, 52, 144, 199, 243, 246, 62, 171, 183, 233, 223, 126, 228, 201, 109, 1,
   79, 232, 27]

/-- A receive returns the bundle that the packet's bundle holds, and the message in it is
gone. -/
theorem nested_bundle_returned :
    sampleInner.leaves nestedCodecs 3 nestedPacket = [⟨⟨5500⟩, true, {}, []⟩] ∧
    ∃ client, (machine nestedCodecs).run (loggedIn sampleInner)
        ([.begin .recvMsg, .arrive nestedPacket] ++ List.replicate 6 (.advance 0)) = some client ∧
      client.handings.map Handing.msg = [⟨.multi, true, {}, 18 :: 12 :: innerPayload⟩] ∧
      client.inner.routed = [] ∧ client.underway nestedCodecs 3 = [] := by
  refine ⟨by decide +kernel, ?_⟩
  have hany : ((machine nestedCodecs).run (loggedIn sampleInner)
      ([.begin .recvMsg, .arrive nestedPacket] ++ List.replicate 6 (.advance 0))).any
      (fun client =>
        client.handings.map Handing.msg == [⟨.multi, true, {}, 18 :: 12 :: innerPayload⟩] &&
          (client.inner.routed.isEmpty && (client.underway nestedCodecs 3).isEmpty)) = true := by
    decide +kernel
  obtain ⟨client, hrun, hfinal⟩ := Machine.exists_of_run_any _ hany
  simp only [Bool.and_eq_true, beq_iff_eq, List.isEmpty_iff] at hfinal
  exact ⟨client, hrun, hfinal⟩

end SteamClient

end DepotDownloader.Steam
