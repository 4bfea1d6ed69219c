import DepotDownloader.Steam.Client.Routing

/-! # What one step of a call does

The inversion of `Call.advance`, and where the messages come from that a
receive loop returns.
-/

namespace DepotDownloader.Steam

open Foundation

/-- The steps of a call, with what each reads from the shared state. -/
inductive CallStep (codecs : WireCodecs) (inner : ClientInner) (call : Call) :
    ClientInner → Stage → Prop where
  | sends (hstage : call.stage = .sending) :
      CallStep codecs inner call { inner with sent := inner.sent ++
        (call.request.message codecs call.jobId inner).toList } .polling
  | waits (hstage : call.stage = .polling) (hqueue : inner.msgQueue = []) :
      CallStep codecs inner call inner .receiving
  | takes {msg : IncomingMsg} {rest : List IncomingMsg} (hstage : call.stage = .polling)
      (hqueue : inner.msgQueue = msg :: rest) :
      CallStep codecs inner call (call.route { inner with msgQueue := rest } msg).1
        (Call.afterRoute (call.route { inner with msgQueue := rest } msg).2)
  | receives {raw : Bytes} {rest : List Bytes} (hstage : call.stage = .receiving)
      (hincoming : inner.incoming = raw :: rest) :
      CallStep codecs inner call { inner with incoming := rest } (.received raw)
  | fails {raw : Bytes} {error : ClientError} (hstage : call.stage = .received raw)
      (hopen : inner.openPacket codecs raw = .error error) :
      CallStep codecs inner call inner (.returned (.error error))
  | unpacks {raw : Bytes} {subMessages : List Bytes} (hstage : call.stage = .received raw)
      (hopen : inner.openPacket codecs raw = .ok (.bundle subMessages)) :
      CallStep codecs inner call inner (.unpacked subMessages)
  | opens {raw : Bytes} {msg : IncomingMsg} (hstage : call.stage = .received raw)
      (hopen : inner.openPacket codecs raw = .ok (.single msg)) :
      CallStep codecs inner call (call.route inner msg).1
        (Call.afterRoute (call.route inner msg).2)
  | queues {subMessages : List Bytes} (hstage : call.stage = .unpacked subMessages) :
      CallStep codecs inner call { inner with msgQueue := inner.msgQueue ++
        (ClientInner.parsedMessages codecs subMessages) } .polling
  | handles {msg : IncomingMsg} {inner' : ClientInner} {stage : Stage}
      (hstage : call.stage = .handed msg)
      (hhandle : call.request.handle codecs call.jobId inner msg = (inner', stage)) :
      CallStep codecs inner call inner' stage

variable {codecs : WireCodecs}

theorem Call.advance_cases {inner inner' : ClientInner} {call : Call} {stage : Stage}
    (hadvance : call.advance codecs inner = some (inner', stage)) :
    CallStep codecs inner call inner' stage := by
  unfold Call.advance at hadvance
  split at hadvance
  next hstage =>
    cases hadvance
    exact .sends hstage
  next hstage =>
    split at hadvance
    next hqueue =>
      cases hadvance
      exact .waits hstage hqueue
    next msg rest hqueue =>
      cases hadvance
      exact .takes hstage hqueue
  next hstage =>
    split at hadvance
    next => cases hadvance
    next raw rest hincoming =>
      cases hadvance
      exact .receives hstage hincoming
  next raw hstage =>
    split at hadvance
    next error hopen =>
      cases hadvance
      exact .fails hstage hopen
    next subMessages hopen =>
      cases hadvance
      exact .unpacks hstage hopen
    next msg hopen =>
      cases hadvance
      exact .opens hstage hopen
  next subMessages hstage =>
    cases hadvance
    exact .queues hstage
  next msg hstage => exact .handles hstage (Option.some.inj hadvance)
  next => cases hadvance
  next => cases hadvance

/-- Only a call in flight takes a step. -/
theorem Call.advance_inFlight {inner inner' : ClientInner} {call : Call} {stage : Stage}
    (hadvance : call.advance codecs inner = some (inner', stage)) : call.InFlight := by
  unfold InFlight
  split
  next hstage => simp [advance, hstage] at hadvance
  next hstage => simp [advance, hstage] at hadvance
  next => trivial

namespace ClientInner

/-- Routing returns the message itself or nothing. -/
theorem recvRouted_some {inner : ClientInner} {exceptJobId : Option UInt64}
    {msg returned : IncomingMsg} (hrouted : (inner.recvRouted exceptJobId msg).2 = some returned) :
    returned = msg := by
  unfold recvRouted at hrouted
  split at hrouted
  · split at hrouted
    · cases hrouted
      rfl
    · split at hrouted
      · cases hrouted
      · cases hrouted
        rfl
  · cases hrouted
    rfl

/-- Without a registered job every message is returned. -/
theorem recvRouted_unregistered {inner : ClientInner} (hpending : inner.pendingJobs = [])
    (exceptJobId : Option UInt64) (msg : IncomingMsg) :
    inner.recvRouted exceptJobId msg = (inner, some msg) := by
  unfold recvRouted
  split
  · split
    · rfl
    · rw [if_neg]
      intro hregistered
      rw [hpending] at hregistered
      exact List.not_mem_nil hregistered.2
  · rfl

/-- Routing registers no job. -/
theorem recvRouted_pendingJobs (inner : ClientInner) (exceptJobId : Option UInt64)
    (msg : IncomingMsg) :
    (inner.recvRouted exceptJobId msg).1.pendingJobs.Sublist inner.pendingJobs := by
  unfold recvRouted
  split
  · split
    · exact List.Sublist.refl _
    · split
      · exact List.erase_sublist
      · exact List.Sublist.refl _
  · exact List.Sublist.refl _

end ClientInner

namespace Call

/-- Each of the two receive functions is the shared routing with its own
exception. -/
theorem exists_route_eq (call : Call) :
    ∃ exceptJobId, ∀ inner msg, call.route inner msg = inner.recvRouted exceptJobId msg := by
  unfold route
  split
  next _ jobId _ _ => exact ⟨some jobId, fun _ _ => rfl⟩
  next => exact ⟨none, fun _ _ => rfl⟩

theorem route_unregistered {inner : ClientInner} (hpending : inner.pendingJobs = [])
    (call : Call) (msg : IncomingMsg) : call.route inner msg = (inner, some msg) := by
  obtain ⟨exceptJobId, hroute⟩ := call.exists_route_eq
  rw [hroute]
  exact inner.recvRouted_unregistered hpending exceptJobId msg

theorem afterRoute_handed {call : Call} {inner : ClientInner} {msg returned : IncomingMsg}
    (hafter : afterRoute (call.route inner msg).2 = .handed returned) : returned = msg := by
  obtain ⟨exceptJobId, hroute⟩ := call.exists_route_eq
  rw [hroute] at hafter
  cases hrouted : (inner.recvRouted exceptJobId msg).2 with
  | none =>
      rw [hrouted] at hafter
      cases hafter
  | some other =>
      rw [hrouted] at hafter
      cases hafter
      exact ClientInner.recvRouted_some hrouted

theorem afterRoute_ne_returned {routed : Option IncomingMsg}
    {result : Except ClientError Reply} : afterRoute routed ≠ .returned result := by
  intro hafter
  cases routed <;> cases hafter

end Call

namespace Request

/-- A handled message is never handed on. -/
theorem handle_ne_handed {request : Request} {jobId : Option UInt64} {inner : ClientInner}
    {msg returned : IncomingMsg} :
    (request.handle codecs jobId inner msg).2 ≠ .handed returned := by
  intro hhandle
  unfold handle at hhandle
  split at hhandle
  · split at hhandle <;> cases hhandle
  · split at hhandle <;> cases hhandle
  · cases hhandle

theorem handle_pendingJobs {request : Request} {jobId : Option UInt64} {inner inner' : ClientInner}
    {msg : IncomingMsg} {stage : Stage}
    (hhandle : request.handle codecs jobId inner msg = (inner', stage)) :
    inner'.pendingJobs = inner.pendingJobs := by
  unfold handle at hhandle
  split at hhandle
  · split at hhandle <;> cases hhandle <;> rfl
  · split at hhandle <;> cases hhandle <;> rfl
  · cases hhandle
    rfl

/-- Only the depot key call returns a key, and it does so on a key response. -/
theorem handle_depotKey {request : Request} {jobId : Option UInt64} {inner : ClientInner}
    {msg : IncomingMsg} {key : DepotKey}
    (hhandle : (request.handle codecs jobId inner msg).2 = .returned (.ok (.depotKey key))) :
    ∃ depotId appId, request = .getDepotDecryptionKey depotId appId ∧
      msg.emsg = .clientGetDepotDecryptionKeyResponse ∧
      depotKeyResponse codecs depotId msg = .ok (.depotKey key) := by
  cases request with
  | callServiceMethod methodName body =>
      simp only [handle] at hhandle
      split at hhandle
      · simp only [Stage.returned.injEq] at hhandle
        unfold serviceResponse at hhandle
        split at hhandle
        · cases hhandle
        · split at hhandle <;> cases hhandle
      · cases hhandle
  | getDepotDecryptionKey depotId appId =>
      simp only [handle] at hhandle
      split at hhandle
      next hemsg =>
        simp only [Stage.returned.injEq] at hhandle
        exact ⟨depotId, appId, rfl, hemsg, hhandle⟩
      next => cases hhandle
  | recvMsg => cases hhandle

/-- A key is returned for a successful response that holds 32 bytes, and it is
these bytes. -/
theorem depotKeyResponse_ok {depotId : DepotId} {msg : IncomingMsg} {key : DepotKey}
    (hresponse : depotKeyResponse codecs depotId msg = .ok (.depotKey key)) :
    ∃ body, codecs.decodeDepotKeyResponse msg.body = some body ∧ body.eresult = some 1 ∧
      body.depotEncryptionKey = some key.bytes.toList := by
  unfold depotKeyResponse at hresponse
  split at hresponse
  next => cases hresponse
  next body hdecode =>
    split at hresponse
    next => cases hresponse
    next eresult heresult =>
      split at hresponse
      next => cases hresponse
      next hok =>
        split at hresponse
        next => cases hresponse
        next keyBytes hkey =>
          split at hresponse
          next hlength =>
            cases hresponse
            rw [EResultError.fromI32_eq_ok] at hok
            exact ⟨body, hdecode, hok ▸ heresult, by simpa using hkey⟩
          next => cases hresponse

end Request

/-- No step of a call registers a job. -/
theorem Call.advance_pendingJobs {inner inner' : ClientInner} {call : Call} {stage : Stage}
    (hadvance : call.advance codecs inner = some (inner', stage)) :
    inner'.pendingJobs.Sublist inner.pendingJobs := by
  have hroute (inner : ClientInner) (msg : IncomingMsg) :
      (call.route inner msg).1.pendingJobs.Sublist inner.pendingJobs := by
    obtain ⟨exceptJobId, hroute⟩ := call.exists_route_eq
    rw [hroute]
    exact inner.recvRouted_pendingJobs exceptJobId msg
  cases advance_cases hadvance with
  | sends | waits | receives | fails | unpacks | queues => exact List.Sublist.refl _
  | takes => exact hroute _ _
  | opens => exact hroute _ _
  | handles hstage hhandle =>
      rw [← Request.handle_pendingJobs hhandle]

/-- A receive loop returns the first message of the queue, or the single
message of the packet it received. -/
theorem Call.advance_handed {inner inner' : ClientInner} {call : Call} {msg : IncomingMsg}
    (hadvance : call.advance codecs inner = some (inner', .handed msg)) :
    (call.stage = .polling ∧ msg ∈ inner.msgQueue) ∨
      ∃ raw, call.stage = .received raw ∧ msg ∈ inner.messages codecs raw := by
  generalize hnext : Stage.handed msg = next at hadvance
  cases advance_cases hadvance with
  | sends | waits | receives | fails | unpacks | queues => cases hnext
  | takes hstage hqueue =>
      have hmsg := afterRoute_handed hnext.symm
      rw [hqueue, hmsg]
      exact .inl ⟨hstage, List.mem_cons_self⟩
  | @opens raw _ hstage hopen =>
      have hmsg := afterRoute_handed hnext.symm
      refine .inr ⟨raw, hstage, ?_⟩
      rw [ClientInner.messages, hopen, hmsg]
      exact List.mem_singleton_self _
  | handles hstage hhandle =>
      have hhanded := congrArg Prod.snd hhandle
      rw [← hnext] at hhanded
      exact absurd hhanded Request.handle_ne_handed

/-- A key is returned when the call handles a message it was handed. -/
theorem Call.advance_depotKey {inner inner' : ClientInner} {call : Call} {key : DepotKey}
    (hadvance : call.advance codecs inner = some (inner', .returned (.ok (.depotKey key)))) :
    ∃ msg depotId appId, call.stage = .handed msg ∧
      call.request = .getDepotDecryptionKey depotId appId ∧
      msg.emsg = .clientGetDepotDecryptionKeyResponse ∧
      Request.depotKeyResponse codecs depotId msg = .ok (.depotKey key) := by
  generalize hnext : Stage.returned (.ok (.depotKey key)) = next at hadvance
  cases advance_cases hadvance with
  | sends | waits | receives | fails | unpacks | queues => cases hnext
  | takes => exact absurd hnext.symm afterRoute_ne_returned
  | opens => exact absurd hnext.symm afterRoute_ne_returned
  | @handles msg _ _ hstage hhandle =>
      have hreturned := congrArg Prod.snd hhandle
      rw [← hnext] at hreturned
      obtain ⟨depotId, appId, hrequest, hemsg, hresponse⟩ := Request.handle_depotKey hreturned
      exact ⟨msg, depotId, appId, hstage, hrequest, hemsg, hresponse⟩

/-- The steps of a client. A call ends early with an error or by being dropped. -/
inductive ClientStep (codecs : WireCodecs) (client : SteamClient) :
    ClientMove → SteamClient → Prop where
  | begins (request : Request) : ClientStep codecs client (.begin request) (client.start request)
  | arrives (packet : Bytes) :
      ClientStep codecs client (.arrive packet)
        { client with inner := { client.inner with
          incoming := client.inner.incoming ++ [packet] } }
  | advances {index : Nat} {call : Call} {inner : ClientInner} {stage : Stage}
      (hcall : client.calls[index]? = some call)
      (hadvance : call.advance codecs client.inner = some (inner, stage)) :
      ClientStep codecs client (.advance index)
        { inner
          calls := client.calls.set index { call with stage }
          handings := client.handings ++ client.handing index stage }
  | fails {index : Nat} {call : Call} {reason : String}
      (hcall : client.calls[index]? = some call) (hflight : call.InFlight) :
      ClientStep codecs client (.transportFails index reason)
        (client.setStage index call (.returned (.error (.transport reason))))
  | drops {index : Nat} {call : Call} (hcall : client.calls[index]? = some call)
      (hflight : call.InFlight) :
      ClientStep codecs client (.abandon index) (client.setStage index call .abandoned)

/-- A transport fails for a call that holds no message. -/
theorem SteamClient.transportFails_stage {client next : SteamClient} {index : Nat}
    {reason : String} (hstep : client.step codecs (.transportFails index reason) = some next) :
    ∃ call, client.calls[index]? = some call ∧
      (call.stage = .sending ∨ call.stage = .receiving) ∧
      next = client.setStage index call (.returned (.error (.transport reason))) := by
  simp only [step] at hstep
  split at hstep
  next => cases hstep
  next call hcall =>
    split at hstep
    next hsends => exact ⟨call, hcall, .inl hsends, (Option.some.inj hstep).symm⟩
    next hreceives => exact ⟨call, hcall, .inr hreceives, (Option.some.inj hstep).symm⟩
    next => cases hstep

theorem SteamClient.step_cases {client next : SteamClient} {move : ClientMove}
    (hstep : client.step codecs move = some next) : ClientStep codecs client move next := by
  cases move with
  | begin request =>
      cases hstep
      exact .begins request
  | arrive packet =>
      cases hstep
      exact .arrives packet
  | advance index =>
      simp only [step] at hstep
      split at hstep
      next => cases hstep
      next call hcall =>
        split at hstep
        next => cases hstep
        next inner stage hadvance =>
          cases hstep
          exact .advances hcall hadvance
  | transportFails index reason =>
      obtain ⟨call, hcall, hstage, rfl⟩ := transportFails_stage hstep
      refine .fails hcall ?_
      rcases hstage with hstage | hstage <;> simp [Call.InFlight, hstage]
  | abandon index =>
      simp only [step] at hstep
      split at hstep
      next => cases hstep
      next call hcall =>
        split at hstep
        next hflight =>
          cases hstep
          exact .drops hcall hflight
        next => cases hstep

end DepotDownloader.Steam
