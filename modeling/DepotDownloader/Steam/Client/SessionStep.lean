import DepotDownloader.Foundation.Interleaving
import DepotDownloader.Steam.Client.Session

/-! # What one step of a session does

The inversion of `Session.step`. A step sends at most one message, and the receive
loop leaves the identity of the session and its cipher alone.
-/

namespace DepotDownloader.Steam

open Foundation

/-- What a step that sends nothing leaves of the shared state: packets are taken from the
front, and the rest of the session stays. -/
structure InnerFrame (inner inner' : ClientInner) : Prop where
  cipher : inner'.cipher = inner.cipher
  sent : inner'.sent = inner.sent
  steamId : inner'.steamId = inner.steamId
  sessionId : inner'.sessionId = inner.sessionId
  nextJobId : inner'.nextJobId = inner.nextJobId
  incoming : inner'.incoming <:+ inner.incoming
  pendingJobs : inner'.pendingJobs.Sublist inner.pendingJobs

namespace InnerFrame

variable {inner inner' : ClientInner}

theorem refl (inner : ClientInner) : InnerFrame inner inner :=
  ⟨rfl, rfl, rfl, rfl, rfl, List.suffix_refl _, List.Sublist.refl _⟩

theorem recvRouted (inner : ClientInner) (exceptJobId : Option UInt64) (msg : IncomingMsg) :
    InnerFrame inner (inner.recvRouted exceptJobId msg).1 := by
  unfold ClientInner.recvRouted
  split
  · split
    · exact refl inner
    · split
      · exact ⟨rfl, rfl, rfl, rfl, rfl, List.suffix_refl _, List.erase_sublist⟩
      · exact refl inner
  · exact refl inner

theorem route (call : Call) (inner : ClientInner) (msg : IncomingMsg) :
    InnerFrame inner (call.route inner msg).1 := by
  obtain ⟨exceptJobId, hroute⟩ := call.exists_route_eq
  rw [hroute]
  exact recvRouted inner exceptJobId msg

theorem routeRest {rest : List IncomingMsg} (call : Call) (inner : ClientInner)
    (msg : IncomingMsg) :
    InnerFrame inner (call.route { inner with msgQueue := rest } msg).1 := by
  obtain ⟨hcipher, hsent, hsteamId, hsessionId, hnextJobId, hincoming, hpending⟩ :=
    route call { inner with msgQueue := rest } msg
  exact ⟨hcipher, hsent, hsteamId, hsessionId, hnextJobId, hincoming, hpending⟩

/-- A handled message changes the event channel at most. -/
theorem handle (codecs : WireCodecs) (request : Request) (jobId : Option UInt64)
    (inner : ClientInner) (msg : IncomingMsg) :
    InnerFrame inner (request.handle codecs jobId inner msg).1 := by
  unfold Request.handle
  split
  · split
    · exact refl inner
    · exact ⟨rfl, rfl, rfl, rfl, rfl, List.suffix_refl _, List.Sublist.refl _⟩
  · split <;> exact refl inner
  · exact refl inner

theorem sessionHandle (codecs : SessionCodecs) (request : SessionRequest) (jobId : Option UInt64)
    (inner : ClientInner) (results : List PicsAppInfo) (msg : IncomingMsg) :
    InnerFrame inner (request.handle codecs jobId inner results msg).1 := by
  unfold SessionRequest.handle
  split
  · split
    · split <;> exact refl inner
    · exact refl inner
  · split
    · split
      · exact refl inner
      · dsimp only
        split <;> exact refl inner
    · exact refl inner
  · split <;> exact refl inner
  · exact handle codecs.wire _ jobId inner msg

/-- The receive loop sends nothing. -/
theorem advance {codecs : WireCodecs} {call : Call} {stage : Stage}
    (hsending : call.stage ≠ .sending)
    (hadvance : call.advance codecs inner = some (inner', stage)) : InnerFrame inner inner' := by
  cases Call.advance_cases hadvance with
  | sends hstage => exact absurd hstage hsending
  | waits | fails | unpacks => exact refl inner
  | takes => exact routeRest call inner _
  | receives hstage hincoming =>
      exact ⟨rfl, rfl, rfl, rfl, rfl, hincoming ▸ List.suffix_cons _ _, List.Sublist.refl _⟩
  | opens => exact route call inner _
  | queues => exact ⟨rfl, rfl, rfl, rfl, rfl, List.suffix_refl _, List.Sublist.refl _⟩
  | @handles msg _ _ hstage hhandle =>
      have hframe := handle codecs call.request call.jobId inner msg
      rw [hhandle] at hframe
      exact hframe

end InnerFrame

/-- A handled message is dealt with: the call returns or goes on polling. -/
theorem Request.handle_stage (codecs : WireCodecs) (request : Request) (jobId : Option UInt64)
    (inner : ClientInner) (msg : IncomingMsg) :
    (request.handle codecs jobId inner msg).2 = .polling ∨
      ∃ result, (request.handle codecs jobId inner msg).2 = .returned result := by
  unfold Request.handle
  split
  · split
    · exact .inr ⟨_, rfl⟩
    · exact .inl rfl
  · split
    · exact .inr ⟨_, rfl⟩
    · exact .inl rfl
  · exact .inr ⟨_, rfl⟩

theorem SessionRequest.handle_stage (codecs : SessionCodecs) (request : SessionRequest)
    (jobId : Option UInt64) (inner : ClientInner) (results : List PicsAppInfo)
    (msg : IncomingMsg) :
    (request.handle codecs jobId inner results msg).2.2 = .running .polling ∨
      ∃ result, (request.handle codecs jobId inner results msg).2.2 = .returned result := by
  unfold SessionRequest.handle
  split
  · split
    · split <;> exact .inr ⟨_, rfl⟩
    · exact .inl rfl
  · split
    · split
      · exact .inr ⟨_, rfl⟩
      · dsimp only
        split
        · exact .inl rfl
        · exact .inr ⟨_, rfl⟩
    · exact .inl rfl
  · split
    · exact .inr ⟨_, rfl⟩
    · exact .inl rfl
  · dsimp only
    rcases Request.handle_stage codecs.wire _ jobId inner msg with hstage | ⟨result, hstage⟩
    · rw [hstage]
      exact .inl rfl
    · rw [hstage]
      cases result <;> exact .inr ⟨_, rfl⟩

/-- The client that a method borrows, or that is no longer there. -/
def SessionPhase.loggedInType : SessionPhase → Option Bool
  | .encrypted => some false
  | .loggedIn _ => some true
  | _ => none

/-- Before the client is lent out, and while the login has it. -/
def SessionPhase.Owned : SessionPhase → Prop
  | .connected => True
  | .keySent _ => True
  | .loggingIn _ _ => True
  | _ => False

/-- The steps of a session. -/
inductive SessionStep (codecs : SessionCodecs) (session : Session) :
    SessionMove → Session → Prop where
  | arrives (packet : Bytes) :
      SessionStep codecs session (.arrive packet)
        { session with
          inner := { session.inner with incoming := session.inner.incoming ++ [packet] }
          arrived := session.arrived ++ [packet] }
  | drops {move : SessionMove} {error : SessionError} {incoming : List Bytes}
      (howned : session.phase.Owned) (hincoming : incoming <:+ session.inner.incoming) :
      SessionStep codecs session move
        { session with
          phase := .dropped error
          inner := { session.inner with incoming } }
  | responds {sessionKey : DepotKey} {padding packet response : Bytes} {rest : List Bytes}
      (hphase : session.phase = .connected) (hincoming : session.inner.incoming = packet :: rest)
      (hrespond : Handshake.respond codecs.handshake sessionKey padding packet = .ok response) :
      SessionStep codecs session (.encrypt sessionKey padding)
        { session with
          phase := .keySent sessionKey
          inner := { session.inner with incoming := rest }
          wire := session.wire ++ [response] }
  | confirms {sessionKey : DepotKey} {random : Vector UInt8 3} {packet : Bytes}
      {rest : List Bytes} (hphase : session.phase = .keySent sessionKey)
      (hincoming : session.inner.incoming = packet :: rest)
      (hresult : Handshake.readResult packet = .ok ()) :
      SessionStep codecs session (.confirm random)
        ({ session with
          phase := .encrypted
          inner := { session.inner with
            incoming := rest
            cipher := some ⟨sessionKey⟩ } }.sendEncrypted codecs random (Session.hello codecs))
  | beginsLogin {msg : ClientMsg} (hphase : session.phase = .encrypted)
      (hidle : ∀ call ∈ session.calls, ¬ call.InFlight) :
      SessionStep codecs session (.login msg) { session with phase := .loggingIn msg .sending }
  | sendsLogin {msg : ClientMsg} {random : Vector UInt8 3}
      (hphase : session.phase = .loggingIn msg .sending) :
      SessionStep codecs session (.advanceLogin random)
        ({ session with phase := .loggingIn msg .polling }.sendEncrypted codecs random msg)
  | loopsLogin {msg : ClientMsg} {stage stage' : Stage} {inner : ClientInner}
      {random : Vector UInt8 3} (hphase : session.phase = .loggingIn msg stage)
      (hsending : stage ≠ .sending) (hhanded : ∀ incoming, stage ≠ .handed incoming)
      (hadvance : Call.advance codecs.wire session.inner ⟨.recvMsg, none, stage⟩ =
        some (inner, stage')) :
      SessionStep codecs session (.advanceLogin random)
        { session with inner, phase := .loggingIn msg stage' }
  | forwards {msg : ClientMsg} {incoming : IncomingMsg} {random : Vector UInt8 3}
      (hphase : session.phase = .loggingIn msg (.handed incoming))
      (hother : incoming.emsg ≠ .clientLogOnResponse) :
      SessionStep codecs session (.advanceLogin random)
        { session with
          phase := .loggingIn msg .polling
          inner := { session.inner with events := session.inner.events ++ [incoming] } }
  | logsIn {msg : ClientMsg} {incoming : IncomingMsg} {random : Vector UInt8 3}
      (hphase : session.phase = .loggingIn msg (.handed incoming))
      (hresponse : incoming.emsg = .clientLogOnResponse)
      (hresult : Session.logonResult codecs incoming = .ok ()) :
      SessionStep codecs session (.advanceLogin random)
        { session with
          phase := .loggedIn incoming
          inner := { session.inner with
            steamId := incoming.header.steamid.getD session.inner.steamId
            sessionId := incoming.header.clientSessionid.getD session.inner.sessionId } }
  | begins {request : SessionRequest} {loggedIn : Bool}
      (hphase : session.phase.loggedInType = some loggedIn)
      (havailable : request.available loggedIn = true) :
      SessionStep codecs session (.begin request) (session.start request loggedIn)
  | sends {index : Nat} {random : Vector UInt8 3} {call : SessionCall} {msg : ClientMsg}
      (hcall : session.calls[index]? = some call) (hstage : call.stage = .running .sending)
      (hmessage : call.request.message codecs call.loggedIn call.jobId session.inner = some msg) :
      SessionStep codecs session (.advance index random)
        ({ session with
          calls := session.calls.set index
            { call with stage := call.request.afterSend, sentMsg := some msg } }
            |>.sendEncrypted codecs random msg)
  | handles {index : Nat} {random : Vector UInt8 3} {call : SessionCall} {msg : IncomingMsg}
      (hcall : session.calls[index]? = some call)
      (hstage : call.stage = .running (.handed msg)) :
      SessionStep codecs session (.advance index random)
        { session with
          inner := (call.request.handle codecs call.jobId session.inner call.results msg).1
          calls := session.calls.set index
            { call with
              results := (call.request.handle codecs call.jobId session.inner call.results msg).2.1
              stage :=
                (call.request.handle codecs call.jobId session.inner call.results msg).2.2 } }
  | hands {index : Nat} {random : Vector UInt8 3} {call : SessionCall} {stage : Stage}
      {inner : ClientInner} {msg : IncomingMsg}
      (hcall : session.calls[index]? = some call) (hstage : call.stage = .running stage)
      (hsending : stage ≠ .sending) (hhanded : ∀ msg, stage ≠ .handed msg)
      (hadvance : Call.advance codecs.wire session.inner ⟨call.request.loop, call.jobId, stage⟩ =
        some (inner, .handed msg)) :
      SessionStep codecs session (.advance index random)
        { session with
          inner
          calls := session.calls.set index
            { call with stage := .running (.handed msg), handed := call.handed ++ [msg] } }
  | loops {index : Nat} {random : Vector UInt8 3} {call : SessionCall} {stage stage' : Stage}
      {inner : ClientInner}
      (hcall : session.calls[index]? = some call) (hstage : call.stage = .running stage)
      (hsending : stage ≠ .sending) (hhanded : ∀ msg, stage ≠ .handed msg)
      (hnext : ∀ msg, stage' ≠ .handed msg)
      (hadvance : Call.advance codecs.wire session.inner ⟨call.request.loop, call.jobId, stage⟩ =
        some (inner, stage')) :
      SessionStep codecs session (.advance index random)
        { session with
          inner
          calls := session.calls.set index { call with stage := .ofLoop stage' } }
  | ends {move : SessionMove} {index : Nat} {call : SessionCall} {stage : SessionStage}
      (hcall : session.calls[index]? = some call) (hflight : call.InFlight)
      (hended : stage = .running .abandoned ∨
        ∃ reason, stage = .returned (.error (.client (.transport reason)))) :
      SessionStep codecs session move (session.setStage index call stage)

namespace Session

variable {codecs : SessionCodecs} {session next : Session}

/-- The receive loop returns an error when a packet does not open, which leaves the shared
state alone. -/
theorem advance_error {inner inner' : ClientInner} {call : Call} {error : ClientError}
    (hadvance : call.advance codecs.wire inner = some (inner', .returned (.error error)))
    (hhanded : ∀ msg, call.stage ≠ .handed msg) : inner' = inner := by
  generalize hnext : Stage.returned (.error error) = stage at hadvance
  cases Call.advance_cases hadvance with
  | sends | waits | receives | unpacks | queues => cases hnext
  | takes => exact absurd hnext.symm Call.afterRoute_ne_returned
  | fails => rfl
  | opens => exact absurd hnext.symm Call.afterRoute_ne_returned
  | handles hstage => exact absurd hstage (hhanded _)

theorem handleLogin_cases {msg : ClientMsg} {incoming : IncomingMsg} {random : Vector UInt8 3}
    (hphase : session.phase = .loggingIn msg (.handed incoming)) :
    SessionStep codecs session (.advanceLogin random)
      (session.handleLogin codecs msg incoming) := by
  unfold handleLogin
  split
  next hresponse =>
    split
    next => exact .drops (by rw [hphase]; trivial) (List.suffix_refl _)
    next hresult => exact .logsIn hphase hresponse hresult
  next hother => exact .forwards hphase hother

theorem advanceLogin_cases {random : Vector UInt8 3}
    (hstep : session.advanceLogin codecs random = some next) :
    SessionStep codecs session (.advanceLogin random) next := by
  unfold advanceLogin at hstep
  split at hstep
  next msg hphase =>
    cases hstep
    exact .sendsLogin hphase
  next msg incoming hphase =>
    cases hstep
    exact handleLogin_cases hphase
  next msg stage hsending hhanded hphase =>
    split at hstep
    next => cases hstep
    next inner error hadvance =>
      cases hstep
      rw [advance_error hadvance hhanded]
      exact .drops (by rw [hphase]; trivial) (List.suffix_refl _)
    next inner stage' _ hadvance =>
      cases hstep
      exact .loopsLogin hphase hsending hhanded hadvance
  next => cases hstep

theorem advanceCall_cases {index : Nat} {call : SessionCall} {random : Vector UInt8 3}
    (hcall : session.calls[index]? = some call)
    (hstep : session.advanceCall codecs index call random = some next) :
    SessionStep codecs session (.advance index random) next := by
  unfold advanceCall at hstep
  split at hstep
  next => cases hstep
  next hstage =>
    split at hstep
    next => cases hstep
    next msg hmessage =>
      cases hstep
      exact .sends hcall hstage hmessage
  next msg hstage =>
    cases hstep
    exact .handles hcall hstage
  next stage hsending hhanded hstage =>
    split at hstep
    next => cases hstep
    next inner msg hadvance =>
      cases hstep
      exact .hands hcall hstage hsending hhanded hadvance
    next inner stage' hnext hadvance =>
      cases hstep
      exact .loops hcall hstage hsending hhanded hnext hadvance

theorem step_cases {move : SessionMove} (hstep : session.step codecs move = some next) :
    SessionStep codecs session move next := by
  cases move with
  | arrive packet =>
      cases hstep
      exact .arrives packet
  | encrypt sessionKey padding =>
      simp only [step] at hstep
      split at hstep
      next hphase hincoming =>
        split at hstep
        next =>
          cases hstep
          exact .drops (by rw [hphase]; trivial) (hincoming ▸ List.suffix_cons _ _)
        next hrespond =>
          cases hstep
          exact .responds hphase hincoming hrespond
      next => cases hstep
  | confirm random =>
      simp only [step] at hstep
      split at hstep
      next hphase hincoming =>
        split at hstep
        next =>
          cases hstep
          exact .drops (by rw [hphase]; trivial) (hincoming ▸ List.suffix_cons _ _)
        next hresult =>
          cases hstep
          exact .confirms hphase hincoming hresult
      next => cases hstep
  | login msg =>
      simp only [step] at hstep
      split at hstep
      next hphase =>
        split at hstep
        next hidle =>
          cases hstep
          exact .beginsLogin hphase hidle
        next => cases hstep
      next => cases hstep
  | advanceLogin random => exact advanceLogin_cases hstep
  | ownerFails reason =>
      simp only [step] at hstep
      split at hstep
      next hphase =>
        cases hstep
        exact .drops (by rw [hphase]; trivial) (List.suffix_refl _)
      next hphase =>
        cases hstep
        exact .drops (by rw [hphase]; trivial) (List.suffix_refl _)
      next hphase =>
        cases hstep
        exact .drops (by rw [hphase]; trivial) (List.suffix_refl _)
      next hphase =>
        cases hstep
        exact .drops (by rw [hphase]; trivial) (List.suffix_refl _)
      next => cases hstep
  | begin request =>
      simp only [step] at hstep
      split at hstep
      next hphase =>
        split at hstep
        next havailable =>
          cases hstep
          exact .begins (by rw [hphase]; rfl) havailable
        next => cases hstep
      next hphase =>
        split at hstep
        next havailable =>
          cases hstep
          exact .begins (by rw [hphase]; rfl) havailable
        next => cases hstep
      next => cases hstep
  | advance index random =>
      simp only [step] at hstep
      split at hstep
      next => cases hstep
      next call hcall => exact advanceCall_cases hcall hstep
  | transportFails index reason =>
      simp only [step] at hstep
      split at hstep
      next => cases hstep
      next call hcall =>
        split at hstep
        next hstage =>
          cases hstep
          exact .ends hcall (by simp [SessionCall.InFlight, hstage]) (.inr ⟨reason, rfl⟩)
        next hstage =>
          cases hstep
          exact .ends hcall (by simp [SessionCall.InFlight, hstage]) (.inr ⟨reason, rfl⟩)
        next => cases hstep
  | abandon index =>
      simp only [step] at hstep
      split at hstep
      next => cases hstep
      next call hcall =>
        split at hstep
        next hflight =>
          cases hstep
          exact .ends hcall hflight (.inl rfl)
        next => cases hstep

/-- Sending changes what is sent and nothing else, if there is a cipher. -/
theorem sendEncrypted_some {cipher : SessionCipher} (hcipher : session.inner.cipher = some cipher)
    (random : Vector UInt8 3) (msg : ClientMsg) :
    session.sendEncrypted codecs random msg =
      { session with
        inner := { session.inner with sent := session.inner.sent ++ [msg] }
        wire := session.wire ++ [cipher.encrypt codecs.wire codecs.sealBlock random
          (Messages.ClientMsg.writeTo codecs.encoder msg)] } := by
  unfold sendEncrypted
  split
  next hnone => rw [hnone] at hcipher; cases hcipher
  next found hfound =>
    obtain rfl := Option.some.inj (hfound.symm.trans hcipher)
    rfl

theorem sendEncrypted_calls (random : Vector UInt8 3) (msg : ClientMsg) :
    (session.sendEncrypted codecs random msg).calls = session.calls := by
  unfold sendEncrypted
  split <;> rfl

end Session

/-- What a step changes in one call. -/
inductive CallChange (codecs : SessionCodecs) (inner : ClientInner) (call : SessionCall) :
    SessionCall → Prop where
  | sends {msg : ClientMsg} (hstage : call.stage = .running .sending) :
      CallChange codecs inner call
        { call with stage := call.request.afterSend, sentMsg := some msg }
  | handles {msg : IncomingMsg} (hstage : call.stage = .running (.handed msg)) :
      CallChange codecs inner call
        { call with
          results := (call.request.handle codecs call.jobId inner call.results msg).2.1
          stage := (call.request.handle codecs call.jobId inner call.results msg).2.2 }
  | hands {stage : Stage} {inner' : ClientInner} {msg : IncomingMsg}
      (hstage : call.stage = .running stage) (hhanded : ∀ msg, stage ≠ .handed msg)
      (hadvance : Call.advance codecs.wire inner ⟨call.request.loop, call.jobId, stage⟩ =
        some (inner', .handed msg)) :
      CallChange codecs inner call
        { call with stage := .running (.handed msg), handed := call.handed ++ [msg] }
  | loops {stage stage' : Stage} {inner' : ClientInner} (hstage : call.stage = .running stage)
      (hhanded : ∀ msg, stage ≠ .handed msg) (hnext : ∀ msg, stage' ≠ .handed msg)
      (hadvance : Call.advance codecs.wire inner ⟨call.request.loop, call.jobId, stage⟩ =
        some (inner', stage')) :
      CallChange codecs inner call { call with stage := .ofLoop stage' }
  | ends {stage : SessionStage} (hended : stage = .running .abandoned ∨
      ∃ reason, stage = .returned (.error (.client (.transport reason)))) :
      CallChange codecs inner call { call with stage }

/-- A call as it is begun. -/
structure SessionCall.Fresh (call : SessionCall) : Prop where
  job : call.request.takesJob = true → call.jobId ≠ none
  stage : call.stage = .running .polling ∨ call.stage = .running .sending
  results : call.results = []
  handed : call.handed = []

namespace Session

variable {codecs : SessionCodecs} {session next : Session}

theorem start_calls (request : SessionRequest) (loggedIn : Bool) :
    ∃ call, (session.start request loggedIn).calls = session.calls ++ [call] ∧ call.Fresh := by
  have hstage (condition : Prop) [Decidable condition] :
      (if condition then SessionStage.running .polling else .running .sending) =
          .running .polling ∨
        (if condition then SessionStage.running .polling else .running .sending) =
          .running .sending := by
    split
    · exact .inl rfl
    · exact .inr rfl
  unfold start
  dsimp only
  split
  next => exact ⟨_, rfl, fun _ => nofun, hstage _, rfl, rfl⟩
  next htakes => exact ⟨_, rfl, fun hjob => absurd hjob htakes, hstage _, rfl, rfl⟩

/-- What a fresh call has and every change of a call keeps holds of all calls in every state
of every run. -/
theorem calls_invariant {property : SessionCall → Prop}
    (hfresh : ∀ call, call.Fresh → property call)
    (hchange : ∀ inner call call', property call → CallChange codecs inner call call' →
      property call')
    {moves : List SessionMove} (hrun : (machine codecs).run connect moves = some session) :
    ∀ call ∈ session.calls, property call := by
  have hset {session : Session} {index : Nat} {call call' : SessionCall}
      (hall : ∀ call ∈ session.calls, property call) (hcall : session.calls[index]? = some call)
      (h : CallChange codecs session.inner call call') :
      ∀ call ∈ session.calls.set index call', property call :=
    forall_mem_set hall (hchange _ _ _ (hall call (List.mem_of_getElem? hcall)) h)
  have hstep (session : Session) (move : SessionMove) (next : Session)
      (hall : ∀ call ∈ session.calls, property call) (_ : True)
      (hstep : session.step codecs move = some next) : ∀ call ∈ next.calls, property call := by
    cases step_cases hstep with
    | arrives | drops | responds | beginsLogin | loopsLogin | forwards | logsIn => exact hall
    | confirms | sendsLogin =>
        rw [sendEncrypted_calls]
        exact hall
    | begins =>
        obtain ⟨call, hcalls, hnew⟩ := session.start_calls _ _
        rw [hcalls]
        exact List.forall_mem_append.mpr
          ⟨hall, List.forall_mem_singleton.mpr (hfresh call hnew)⟩
    | sends hcall hstage =>
        rw [sendEncrypted_calls]
        exact hset hall hcall (.sends hstage)
    | handles hcall hstage => exact hset hall hcall (.handles hstage)
    | hands hcall hstage _ hhanded hadvance =>
        exact hset hall hcall (.hands hstage hhanded hadvance)
    | loops hcall hstage _ hhanded hnext hadvance =>
        exact hset hall hcall (.loops hstage hhanded hnext hadvance)
    | ends hcall _ hended => exact hset hall hcall (.ends hended)
  exact (machine codecs).run_invariant hstep (fun _ _ => trivial) (List.forall_mem_nil _) hrun

end Session

end DepotDownloader.Steam
