import DepotDownloader.Steam.Client.Channel

/-! # What a session sends, and in whose name

Every method sends one message at most. The messages of the encrypted client come
before the login, those of the logged-in client behind it, and these carry the
identity that the logon response has given to the session.
-/

namespace DepotDownloader.Steam

open Foundation

namespace SessionRequest

variable {codecs : SessionCodecs} {inner inner' : ClientInner}

/-- A message depends on the identity of the session alone. -/
theorem message_congr (hsteamId : inner'.steamId = inner.steamId)
    (hsessionId : inner'.sessionId = inner.sessionId) (request : SessionRequest)
    (loggedIn : Bool) (jobId : Option UInt64) :
    request.message codecs loggedIn jobId inner' = request.message codecs loggedIn jobId inner := by
  cases request with
  | client request => cases request <;> simp [message, Request.message, hsteamId, hsessionId]
  | callServiceMethodNonAuthed | sendHeartbeat => rfl
  | sendMsg | picsGetAccessTokens | picsGetProductInfo | checkBetaPassword =>
      simp [message, stamp, hsteamId, hsessionId]

/-- The methods of the encrypted client do not name the session. -/
theorem message_early {request : SessionRequest} (havailable : request.available false = true)
    (jobId : Option UInt64) (inner inner' : ClientInner) :
    request.message codecs false jobId inner' = request.message codecs false jobId inner := by
  cases request with
  | client request => cases request <;> simp [available, message, Request.message] at havailable ⊢
  | callServiceMethodNonAuthed | sendHeartbeat => rfl
  | sendMsg => simp [message]
  | picsGetAccessTokens | picsGetProductInfo | checkBetaPassword => cases havailable

/-- The methods of the logged-in client name the session in every message but the
heartbeat. -/
theorem message_late {request : SessionRequest} {jobId : Option UInt64} {msg : ClientMsg}
    (havailable : request.available true = true)
    (hmessage : request.message codecs true jobId inner = some msg) :
    msg.header.steamid = some inner.steamId ∧ msg.header.clientSessionid = some inner.sessionId ∨
      msg = ⟨.clientHeartBeat, {}, []⟩ := by
  cases request with
  | client request =>
      cases request with
      | callServiceMethod | getDepotDecryptionKey =>
          cases hmessage
          exact .inl ⟨rfl, rfl⟩
      | recvMsg => cases hmessage
  | callServiceMethodNonAuthed => cases havailable
  | sendHeartbeat =>
      cases hmessage
      exact .inr rfl
  | sendMsg | picsGetAccessTokens | picsGetProductInfo | checkBetaPassword =>
      cases hmessage
      exact .inl ⟨rfl, rfl⟩

end SessionRequest

namespace SessionCall

/-- What the call has sent, as one of the encrypted client. -/
def sentBefore (call : SessionCall) : Option ClientMsg :=
  if call.loggedIn then none else call.sentMsg

/-- What the call has sent, as one of the logged-in client. -/
def sentAfter (call : SessionCall) : Option ClientMsg :=
  if call.loggedIn then call.sentMsg else none

/-- A call sends its own message, once. -/
structure Posts (codecs : SessionCodecs) (inner : ClientInner) (call : SessionCall) : Prop where
  available : call.request.available call.loggedIn = true
  unsent : call.stage = .running .sending → call.sentMsg = none
  made : ∀ msg, call.sentMsg = some msg →
    call.request.message codecs call.loggedIn call.jobId inner = some msg

theorem Posts.congr {codecs : SessionCodecs} {inner inner' : ClientInner} {call : SessionCall}
    (hposts : call.Posts codecs inner) (hsteamId : inner'.steamId = inner.steamId)
    (hsessionId : inner'.sessionId = inner.sessionId) : call.Posts codecs inner' where
  available := hposts.available
  unsent := hposts.unsent
  made := fun msg hsent =>
    (SessionRequest.message_congr hsteamId hsessionId _ _ _).trans (hposts.made msg hsent)

end SessionCall

namespace Session

variable (codecs : SessionCodecs)

/-- The identity before the login. -/
def Anonymous (session : Session) : Prop :=
  session.inner.steamId = 0 ∧ session.inner.sessionId = 0

/-- All calls are of the encrypted client. -/
def Early (session : Session) : Prop := ∀ call ∈ session.calls, call.loggedIn = false

/-- The calls of the encrypted client are over. -/
def Idle (session : Session) : Prop :=
  ∀ call ∈ session.calls, call.loggedIn = false → ¬ call.InFlight

/-- What has been sent besides the messages of the methods, by phase. -/
def Opening (session : Session) (opening logon : List ClientMsg) : Prop :=
  match session.phase with
  | .connected => opening = [] ∧ logon = [] ∧ session.calls = [] ∧ session.Anonymous
  | .keySent _ => opening = [] ∧ logon = [] ∧ session.calls = [] ∧ session.Anonymous
  | .encrypted => opening = [hello codecs] ∧ logon = [] ∧ session.Early ∧ session.Anonymous
  | .loggingIn msg stage => opening = [hello codecs] ∧
      logon = (if stage = .sending then [] else [msg]) ∧ session.Early ∧ session.Idle ∧
      session.Anonymous
  | .loggedIn response => opening = [hello codecs] ∧ (∃ msg, logon = [msg]) ∧ session.Idle ∧
      session.inner.steamId = response.header.steamid.getD 0 ∧
      session.inner.sessionId = response.header.clientSessionid.getD 0
  | .dropped _ => (opening = [] ∧ session.calls = [] ∧ logon = [] ∨ opening = [hello codecs]) ∧
      logon.length ≤ 1 ∧ session.Early ∧ session.Idle
  | .panicked => True

/-- The accounts of the messages that were sent. -/
structure Ledger (session : Session) (opening pre logon post : List ClientMsg) : Prop where
  sent : session.inner.sent = opening ++ (pre ++ (logon ++ post))
  before : pre.Perm (session.calls.filterMap SessionCall.sentBefore)
  after : post.Perm (session.calls.filterMap SessionCall.sentAfter)
  posts : ∀ call ∈ session.calls, call.Posts codecs session.inner
  opening : session.Opening codecs opening logon

namespace Ledger

variable {codecs} {session : Session} {opening pre logon post : List ClientMsg}

theorem connect : Ledger codecs Session.connect [] [] [] [] where
  sent := rfl
  before := .nil
  after := .nil
  posts := List.forall_mem_nil _
  opening := ⟨rfl, rfl, rfl, rfl, rfl⟩

/-- Without calls of the logged-in client there are no messages of it. -/
theorem post_of_early (hledger : Ledger codecs session opening pre logon post)
    (hearly : session.Early) : post = [] := by
  have hnone : session.calls.filterMap SessionCall.sentAfter = [] := by
    rw [List.filterMap_eq_nil_iff]
    intro call hmem
    simp [SessionCall.sentAfter, hearly call hmem]
  exact List.Perm.eq_nil (hnone ▸ hledger.after)

/-- Where calls go on, the client is lent out, and those of the encrypted client are over
once it is logged in. -/
theorem phase_of_flight (hchannel : Channel codecs session)
    (hledger : Ledger codecs session opening pre logon post) {index : Nat} {call : SessionCall}
    (hcall : session.calls[index]? = some call) (hflight : call.InFlight) :
    session.phase = .encrypted ∧ call.loggedIn = false ∨
      ∃ response, session.phase = .loggedIn response ∧ call.loggedIn = true := by
  have hmem := List.mem_of_getElem? hcall
  have hopening := hledger.opening
  unfold Opening at hopening
  cases hphase : session.phase with
  | connected | keySent =>
      rw [hphase] at hopening
      rw [hopening.2.2.1] at hmem
      cases hmem
  | encrypted =>
      rw [hphase] at hopening
      exact .inl ⟨rfl, hopening.2.2.1 call hmem⟩
  | loggingIn =>
      rw [hphase] at hopening
      exact absurd hflight (hopening.2.2.2.1 call hmem (hopening.2.2.1 call hmem))
  | loggedIn response =>
      rw [hphase] at hopening
      refine .inr ⟨response, rfl, ?_⟩
      by_contra hearly
      exact hopening.2.2.1 call hmem (by simpa using hearly) hflight
  | dropped =>
      rw [hphase] at hopening
      exact absurd hflight (hopening.2.2.2 call hmem (hopening.2.2.1 call hmem))
  | panicked => exact absurd hphase hchannel.expected

/-- The phase is the only thing that the accounts look at besides the identity and the calls
that were begun early. -/
theorem opening_congr {session next : Session} (hopening : session.Opening codecs opening logon)
    (hphase : next.phase = session.phase)
    (hsteamId : next.inner.steamId = session.inner.steamId)
    (hsessionId : next.inner.sessionId = session.inner.sessionId)
    (hcalls : session.calls = [] → next.calls = []) (hearly : session.Early → next.Early)
    (hidle : session.Idle → next.Idle) : next.Opening codecs opening logon := by
  unfold Opening Anonymous at hopening ⊢
  rw [hphase, hsteamId, hsessionId]
  cases hcase : session.phase <;> simp only [hcase] at hopening ⊢ <;> tauto

/-- A step of a call that sends nothing. -/
theorem touch (hledger : Ledger codecs session opening pre logon post) {index : Nat}
    {call call' : SessionCall} {inner : ClientInner}
    (hcall : session.calls[index]? = some call) (hflight : call.InFlight)
    (hsteamId : inner.steamId = session.inner.steamId)
    (hsessionId : inner.sessionId = session.inner.sessionId)
    (hsent : inner.sent = session.inner.sent)
    (hsame : call'.request = call.request ∧ call'.loggedIn = call.loggedIn ∧
      call'.jobId = call.jobId ∧ call'.sentMsg = call.sentMsg)
    (hstage : call'.stage ≠ .running .sending) :
    Ledger codecs { session with inner, calls := session.calls.set index call' }
      opening pre logon post := by
  obtain ⟨hrequest, hloggedIn, hjobId, hsentMsg⟩ := hsame
  have hmem := List.mem_of_getElem? hcall
  refine ⟨hsent.trans hledger.sent, ?_, ?_, ?_, ?_⟩
  · rw [filterMap_set_of_eq hcall (by simp only [SessionCall.sentBefore, hloggedIn, hsentMsg])]
    exact hledger.before
  · rw [filterMap_set_of_eq hcall (by simp only [SessionCall.sentAfter, hloggedIn, hsentMsg])]
    exact hledger.after
  · refine forall_mem_set (fun other hother => (hledger.posts other hother).congr hsteamId
      hsessionId) ⟨?_, fun hsending => absurd hsending hstage, ?_⟩
    · rw [hrequest, hloggedIn]
      exact (hledger.posts call hmem).available
    · intro msg hmsg
      rw [hrequest, hloggedIn, hjobId]
      rw [hsentMsg] at hmsg
      exact ((hledger.posts call hmem).congr hsteamId hsessionId).made msg hmsg
  · refine opening_congr hledger.opening (by rfl) hsteamId hsessionId ?_ ?_ ?_
    · exact fun hnil => by simp [hnil]
    · exact fun hearly => forall_mem_set hearly (hloggedIn.trans (hearly call hmem))
    · refine fun hidle => forall_mem_set hidle fun hearly => ?_
      exact absurd hflight (hidle call hmem (hloggedIn.symm.trans hearly))

/-- A call sends its message. -/
theorem send (hchannel : Channel codecs session)
    (hledger : Ledger codecs session opening pre logon post) {index : Nat} {call : SessionCall}
    {msg : ClientMsg} (inner : ClientInner) (wire : List Bytes)
    (hcall : session.calls[index]? = some call) (hstage : call.stage = .running .sending)
    (hmessage : call.request.message codecs call.loggedIn call.jobId session.inner = some msg)
    (hsteamId : inner.steamId = session.inner.steamId)
    (hsessionId : inner.sessionId = session.inner.sessionId)
    (hsent : inner.sent = session.inner.sent ++ [msg]) :
    ∃ pre post, Ledger codecs { session with
        inner, wire
        calls := session.calls.set index
          { call with stage := call.request.afterSend, sentMsg := some msg } }
      opening pre logon post := by
  have hmem := List.mem_of_getElem? hcall
  have hposts := hledger.posts call hmem
  have hunsent := hposts.unsent hstage
  have hflight : call.InFlight := by simp [SessionCall.InFlight, hstage]
  have hcalls : ∀ other ∈ session.calls.set index
      { call with stage := call.request.afterSend, sentMsg := some msg },
      other.Posts codecs inner := by
    refine forall_mem_set (fun other hother => (hledger.posts other hother).congr hsteamId
      hsessionId) ⟨hposts.available, ?_, ?_⟩
    · intro hsending
      simp only [SessionRequest.afterSend] at hsending
      split at hsending <;> cases hsending
    · intro other hother
      obtain rfl := Option.some.inj hother
      exact (SessionRequest.message_congr hsteamId hsessionId _ _ _).trans hmessage
  have hopening := hledger.opening
  rcases hledger.phase_of_flight hchannel hcall hflight with
    ⟨hphase, hearly⟩ | ⟨response, hphase, hlate⟩
  · have hall : session.Early := by
      unfold Opening at hopening
      rw [hphase] at hopening
      exact hopening.2.2.1
    have hnopost := hledger.post_of_early hall
    have hnologon : logon = [] := by
      unfold Opening at hopening
      rw [hphase] at hopening
      exact hopening.2.1
    refine ⟨pre ++ [msg], post, ?_, ?_, ?_, hcalls, ?_⟩
    · simp only [hsent, hledger.sent, hnopost, hnologon, List.append_nil, List.append_assoc]
    · refine (hledger.before.append_right [msg]).trans (perm_filterMap_set hcall ?_ ?_).symm
      · simp only [SessionCall.sentBefore, hearly, hunsent, Bool.false_eq_true, if_false]
      · simp only [SessionCall.sentBefore, hearly, Bool.false_eq_true, if_false]
    · rw [filterMap_set_of_eq hcall (by simp only [SessionCall.sentAfter, hearly,
        Bool.false_eq_true, if_false])]
      exact hledger.after
    · refine opening_congr hopening (by rfl) hsteamId hsessionId ?_ ?_ ?_
      · exact fun hnil => by simp [hnil]
      · exact fun _ => forall_mem_set hall hearly
      · exact fun hidle => absurd hflight (hidle call hmem hearly)
  · refine ⟨pre, post ++ [msg], ?_, ?_, ?_, hcalls, ?_⟩
    · simp only [hsent, hledger.sent, List.append_assoc]
    · rw [filterMap_set_of_eq hcall (by simp only [SessionCall.sentBefore, hlate, if_true])]
      exact hledger.before
    · refine (hledger.after.append_right [msg]).trans (perm_filterMap_set hcall ?_ ?_).symm
      · simp only [SessionCall.sentAfter, hlate, hunsent, if_true]
      · simp only [SessionCall.sentAfter, hlate, if_true]
    · refine opening_congr hopening (by rfl) hsteamId hsessionId ?_ ?_ ?_
      · exact fun hnil => by simp [hnil]
      · exact fun hall => absurd (hall call hmem) (by simp [hlate])
      · exact fun hidle => forall_mem_set hidle fun hearly => absurd hearly (by simp [hlate])

/-- A new call has sent nothing. -/
theorem start (hledger : Ledger codecs session opening pre logon post)
    {request : SessionRequest} {loggedIn : Bool}
    (hphase : session.phase.loggedInType = some loggedIn)
    (havailable : request.available loggedIn = true) :
    Ledger codecs (session.start request loggedIn) opening pre logon post := by
  have hadd {call : SessionCall} {inner : ClientInner} (hnew : call.sentMsg = none)
      (hrequest : call.request = request) (hloggedIn : call.loggedIn = loggedIn)
      (hsteamId : inner.steamId = session.inner.steamId)
      (hsessionId : inner.sessionId = session.inner.sessionId)
      (hsent : inner.sent = session.inner.sent) :
      Ledger codecs { session with inner, calls := session.calls ++ [call] }
        opening pre logon post := by
    refine ⟨hsent.trans hledger.sent, ?_, ?_, ?_, ?_⟩
    · have hnone : call.sentBefore = none := by simp [SessionCall.sentBefore, hnew]
      simpa [List.filterMap_append, hnone] using hledger.before
    · have hnone : call.sentAfter = none := by simp [SessionCall.sentAfter, hnew]
      simpa [List.filterMap_append, hnone] using hledger.after
    · refine List.forall_mem_append.mpr ⟨fun other hother =>
        (hledger.posts other hother).congr hsteamId hsessionId, ?_⟩
      rw [List.forall_mem_singleton]
      exact ⟨by rw [hrequest, hloggedIn]; exact havailable, fun _ => hnew,
        fun msg hmsg => absurd (hnew.symm.trans hmsg) nofun⟩
    · have hopening := hledger.opening
      unfold Opening at hopening ⊢
      cases hcase : session.phase with
      | encrypted =>
          rw [hcase] at hphase hopening
          obtain rfl := Option.some.inj hphase
          refine ⟨hopening.1, hopening.2.1, ?_, hsteamId.trans hopening.2.2.2.1,
            hsessionId.trans hopening.2.2.2.2⟩
          exact List.forall_mem_append.mpr ⟨hopening.2.2.1, by simpa using hloggedIn⟩
      | loggedIn response =>
          rw [hcase] at hphase hopening
          obtain rfl := Option.some.inj hphase
          refine ⟨hopening.1, hopening.2.1, ?_, hsteamId.trans hopening.2.2.2.1,
            hsessionId.trans hopening.2.2.2.2⟩
          exact List.forall_mem_append.mpr ⟨hopening.2.2.1, by simp [hloggedIn]⟩
      | connected | keySent | loggingIn | dropped | panicked =>
          rw [hcase] at hphase
          cases hphase
  unfold Session.start
  dsimp only
  split
  · exact hadd rfl rfl rfl (by rfl) (by rfl) (by rfl)
  · exact hadd rfl rfl rfl (by rfl) (by rfl) (by rfl)

/-- The receive loop never goes back to the send. -/
theorem loop_ne_sending {codecs : WireCodecs} {inner inner' : ClientInner} {call : Call}
    {stage : Stage} (hhanded : ∀ msg, call.stage ≠ .handed msg)
    (hadvance : call.advance codecs inner = some (inner', stage)) : stage ≠ .sending := by
  have hroute (routed : Option IncomingMsg) : Call.afterRoute routed ≠ .sending := by
    cases routed <;> exact nofun
  cases Call.advance_cases hadvance with
  | sends | waits | receives | fails | unpacks | queues => exact nofun
  | takes => exact hroute _
  | opens => exact hroute _
  | handles hstage => exact absurd hstage (hhanded _)

theorem flight_of_advance {call : SessionCall} {stage stage' : Stage} {inner inner' : ClientInner}
    {request : Request} (hstage : call.stage = .running stage)
    (hadvance : Call.advance codecs.wire inner ⟨request, call.jobId, stage⟩ =
      some (inner', stage')) : call.InFlight := by
  have hflight := Call.advance_inFlight hadvance
  unfold SessionCall.InFlight
  rw [hstage]
  cases stage <;> trivial

theorem ofLoop_ne_sending {stage : Stage} (hstage : stage ≠ .sending) :
    SessionStage.ofLoop stage ≠ .running .sending := by
  unfold SessionStage.ofLoop
  split
  · exact nofun
  · exact nofun
  · exact fun hsending => hstage (SessionStage.running.inj hsending)

/-- The login and the handshake change the phase, not the calls. -/
theorem rephase (hledger : Ledger codecs session opening pre logon post) {inner : ClientInner}
    {phase : SessionPhase} {wire arrived : List Bytes}
    (hsent : inner.sent = session.inner.sent)
    (hsteamId : inner.steamId = session.inner.steamId)
    (hsessionId : inner.sessionId = session.inner.sessionId)
    (hopening : Opening codecs { session with phase, inner, wire, arrived } opening logon) :
    Ledger codecs { session with phase, inner, wire, arrived } opening pre logon post where
  sent := hsent.trans hledger.sent
  before := hledger.before
  after := hledger.after
  posts := fun call hmem => (hledger.posts call hmem).congr hsteamId hsessionId
  opening := hopening

theorem drop (hledger : Ledger codecs session opening pre logon post)
    (howned : session.phase.Owned) (error : SessionError) (incoming : List Bytes) :
    Ledger codecs { session with
        phase := .dropped error
        inner := { session.inner with incoming } }
      opening pre logon post := by
  refine hledger.rephase rfl rfl rfl ?_
  have hopening := hledger.opening
  have hnone (hnil : session.calls = []) : session.Early ∧ session.Idle := by
    simp [Early, Idle, hnil]
  unfold Opening at hopening ⊢
  cases hphase : session.phase with
  | connected | keySent =>
      rw [hphase] at hopening
      obtain ⟨hnothing, hnologon, hnil, _⟩ := hopening
      exact ⟨.inl ⟨hnothing, hnil, hnologon⟩, by simp [hnologon], hnone hnil⟩
  | loggingIn msg stage =>
      rw [hphase] at hopening
      obtain ⟨hhello, hlogon, hearly, hidle, _⟩ := hopening
      refine ⟨.inr hhello, ?_, hearly, hidle⟩
      rw [hlogon]
      split <;> simp
  | encrypted | loggedIn | dropped | panicked =>
      rw [hphase] at howned
      exact howned.elim

/-- The first message is the hello. -/
theorem confirm (hledger : Ledger codecs session opening pre logon post) {sessionKey : DepotKey}
    (hphase : session.phase = .keySent sessionKey) {inner : ClientInner} {wire : List Bytes}
    (hsent : inner.sent = session.inner.sent ++ [hello codecs])
    (hsteamId : inner.steamId = session.inner.steamId)
    (hsessionId : inner.sessionId = session.inner.sessionId) :
    Ledger codecs { session with phase := .encrypted, inner, wire } [hello codecs] [] [] [] := by
  have hopening := hledger.opening
  unfold Opening at hopening
  rw [hphase] at hopening
  obtain ⟨rfl, rfl, hnil, hsteam, hsession⟩ := hopening
  have hbefore := hledger.before
  have hafter := hledger.after
  rw [hnil] at hbefore hafter
  obtain rfl := hbefore.eq_nil
  obtain rfl := hafter.eq_nil
  refine ⟨hsent.trans (by rw [hledger.sent]; rfl), ?_, ?_, ?_, ?_⟩
  · simp only [hnil]
    exact .nil
  · simp only [hnil]
    exact .nil
  · simp only [hnil]
    exact List.forall_mem_nil _
  · exact ⟨rfl, rfl, by simp [Early, hnil], hsteamId.trans hsteam, hsessionId.trans hsession⟩

theorem sendLogin (hledger : Ledger codecs session opening pre logon post) {msg : ClientMsg}
    (hphase : session.phase = .loggingIn msg .sending) {inner : ClientInner} {wire : List Bytes}
    (hsent : inner.sent = session.inner.sent ++ [msg])
    (hsteamId : inner.steamId = session.inner.steamId)
    (hsessionId : inner.sessionId = session.inner.sessionId) :
    Ledger codecs { session with phase := .loggingIn msg .polling, inner, wire }
      opening pre [msg] post := by
  have hopening := hledger.opening
  unfold Opening at hopening
  rw [hphase] at hopening
  obtain ⟨hhello, hlogon, hearly, hidle, hsteam, hsession⟩ := hopening
  have hnopost := hledger.post_of_early hearly
  refine ⟨?_, hledger.before, hledger.after,
    fun call hmem => (hledger.posts call hmem).congr hsteamId hsessionId, ?_⟩
  · rw [hsent, hledger.sent, hlogon, hnopost]
    simp
  · exact ⟨hhello, rfl, hearly, hidle, hsteamId.trans hsteam, hsessionId.trans hsession⟩

theorem logIn (hledger : Ledger codecs session opening pre logon post) {msg : ClientMsg}
    {incoming : IncomingMsg} (hphase : session.phase = .loggingIn msg (.handed incoming)) :
    Ledger codecs { session with
      phase := .loggedIn incoming
      inner := { session.inner with
        steamId := incoming.header.steamid.getD session.inner.steamId
        sessionId := incoming.header.clientSessionid.getD session.inner.sessionId } }
      opening pre logon post := by
  have hopening := hledger.opening
  unfold Opening at hopening
  rw [hphase] at hopening
  obtain ⟨hhello, hlogon, hearly, hidle, hsteam, hsession⟩ := hopening
  refine ⟨hledger.sent, hledger.before, hledger.after, ?_, ?_⟩
  · intro call hmem
    have hposts := hledger.posts call hmem
    have hcall := hearly call hmem
    refine ⟨hposts.available, hposts.unsent, fun sent hsent => ?_⟩
    have havailable := hposts.available
    have hmade := hposts.made sent hsent
    rw [hcall] at havailable hmade ⊢
    exact (SessionRequest.message_early havailable _ session.inner _).trans hmade
  · exact ⟨hhello, ⟨msg, hlogon⟩, hidle, by rw [hsteam], by rw [hsession]⟩

/-- Every step keeps the accounts. -/
theorem step (hchannel : Channel codecs session)
    (hledger : Ledger codecs session opening pre logon post) {move : SessionMove}
    {next : Session} (hstep : session.step codecs move = some next) :
    ∃ opening pre logon post, Ledger codecs next opening pre logon post := by
  have hopening := hledger.opening
  cases step_cases hstep with
  | arrives packet =>
      refine ⟨opening, pre, logon, post, hledger.rephase (by rfl) (by rfl) (by rfl) ?_⟩
      exact opening_congr hopening (by rfl) (by rfl) (by rfl) id id id
  | drops howned => exact ⟨_, _, _, _, hledger.drop howned _ _⟩
  | responds hphase =>
      refine ⟨opening, pre, logon, post, hledger.rephase (by rfl) (by rfl) (by rfl) ?_⟩
      unfold Opening at hopening ⊢
      rw [hphase] at hopening
      exact hopening
  | @confirms sessionKey random packet rest hphase =>
      have hcipher : ({ session.inner with
          incoming := rest, cipher := some ⟨sessionKey⟩ } : ClientInner).cipher =
            some ⟨sessionKey⟩ := rfl
      rw [sendEncrypted_some (by exact hcipher)]
      exact ⟨_, _, _, _, hledger.confirm hphase (by rfl) (by rfl) (by rfl)⟩
  | beginsLogin hphase hidle =>
      refine ⟨opening, pre, logon, post, hledger.rephase (by rfl) (by rfl) (by rfl) ?_⟩
      unfold Opening at hopening ⊢
      rw [hphase] at hopening
      obtain ⟨hhello, hlogon, hearly, hanonymous⟩ := hopening
      exact ⟨hhello, hlogon, hearly, fun call hmem _ => hidle call hmem, hanonymous⟩
  | sendsLogin hphase =>
      obtain ⟨cipher, hcipher⟩ := Option.ne_none_iff_exists'.mp
        (hchannel.ready (by rw [hphase]; trivial))
      rw [sendEncrypted_some (by exact hcipher)]
      exact ⟨_, _, _, _, hledger.sendLogin hphase (by rfl) (by rfl) (by rfl)⟩
  | loopsLogin hphase hsending hhanded hadvance =>
      have hframe := InnerFrame.advance hsending hadvance
      have hstage := loop_ne_sending hhanded hadvance
      refine ⟨opening, pre, logon, post, hledger.rephase hframe.sent hframe.steamId
        hframe.sessionId ?_⟩
      unfold Opening at hopening ⊢
      rw [hphase] at hopening
      obtain ⟨hhello, hlogon, hearly, hidle, hsteam, hsession⟩ := hopening
      rw [if_neg hsending] at hlogon
      exact ⟨hhello, hlogon.trans (if_neg hstage).symm, hearly, hidle,
        hframe.steamId.trans hsteam, hframe.sessionId.trans hsession⟩
  | forwards hphase =>
      refine ⟨opening, pre, logon, post, hledger.rephase (by rfl) (by rfl) (by rfl) ?_⟩
      unfold Opening at hopening ⊢
      rw [hphase] at hopening
      exact hopening
  | logsIn hphase => exact ⟨_, _, _, _, hledger.logIn hphase⟩
  | begins hphase havailable => exact ⟨_, _, _, _, hledger.start hphase havailable⟩
  | @sends index random call msg hcall hstage hmessage =>
      obtain ⟨cipher, hcipher⟩ := Option.ne_none_iff_exists'.mp (hchannel.cipher_of_call hcall)
      rw [sendEncrypted_some (by exact hcipher)]
      obtain ⟨pre', post', hsent⟩ := hledger.send hchannel
        { session.inner with sent := session.inner.sent ++ [msg] } _ hcall hstage hmessage rfl rfl
        rfl
      exact ⟨opening, pre', logon, post', hsent⟩
  | @handles index random call msg hcall hstage =>
      have hframe := InnerFrame.sessionHandle codecs call.request call.jobId session.inner
        call.results msg
      refine ⟨_, _, _, _, hledger.touch hcall (by simp [SessionCall.InFlight, hstage])
        hframe.steamId hframe.sessionId hframe.sent ⟨rfl, rfl, rfl, rfl⟩ ?_⟩
      intro hsending
      rcases call.request.handle_stage codecs call.jobId session.inner call.results msg with
        hnext | ⟨result, hnext⟩ <;> rw [hnext] at hsending <;> cases hsending
  | hands hcall hstage hsending _ hadvance =>
      have hframe := InnerFrame.advance hsending hadvance
      exact ⟨_, _, _, _, hledger.touch hcall (flight_of_advance hstage hadvance)
        hframe.steamId hframe.sessionId hframe.sent ⟨rfl, rfl, rfl, rfl⟩
        fun hsending => by cases hsending⟩
  | loops hcall hstage hsending hhanded _ hadvance =>
      have hframe := InnerFrame.advance hsending hadvance
      exact ⟨_, _, _, _, hledger.touch hcall (flight_of_advance hstage hadvance)
        hframe.steamId hframe.sessionId hframe.sent ⟨rfl, rfl, rfl, rfl⟩
        (ofLoop_ne_sending (loop_ne_sending hhanded hadvance))⟩
  | ends hcall hflight hended =>
      refine ⟨_, _, _, _, hledger.touch hcall hflight (by rfl) (by rfl) (by rfl)
        ⟨rfl, rfl, rfl, rfl⟩ ?_⟩
      rcases hended with rfl | ⟨reason, rfl⟩ <;> intro hsending <;> cases hsending

theorem run {moves : List SessionMove} {session : Session}
    (hrun : (machine codecs).run Session.connect moves = some session) :
    Channel codecs session ∧
      ∃ opening pre logon post, Ledger codecs session opening pre logon post := by
  have hstep (session : Session) (move : SessionMove) (next : Session)
      (hkept : Channel codecs session ∧
        ∃ opening pre logon post, Ledger codecs session opening pre logon post) (_ : True)
      (hstep : session.step codecs move = some next) : Channel codecs next ∧
        ∃ opening pre logon post, Ledger codecs next opening pre logon post := by
    obtain ⟨hchannel, opening, pre, logon, post, hledger⟩ := hkept
    exact ⟨hchannel.step hstep, hledger.step hchannel hstep⟩
  exact (machine codecs).run_invariant hstep (fun _ _ => trivial)
    ⟨Channel.connect, [], [], [], [], connect⟩ hrun

/-- Only the logged-in client has calls of its own. -/
theorem post_ne_nil (hchannel : Channel codecs session)
    (hledger : Ledger codecs session opening pre logon post) (hpost : post ≠ []) :
    ∃ response msg, session.phase = .loggedIn response ∧ logon = [msg] := by
  have hopening := hledger.opening
  have hnone (hnil : session.calls = []) : session.Early := by simp [Early, hnil]
  unfold Opening at hopening
  cases hphase : session.phase with
  | connected | keySent =>
      rw [hphase] at hopening
      exact absurd (hledger.post_of_early (hnone hopening.2.2.1)) hpost
  | encrypted =>
      rw [hphase] at hopening
      exact absurd (hledger.post_of_early hopening.2.2.1) hpost
  | loggingIn =>
      rw [hphase] at hopening
      exact absurd (hledger.post_of_early hopening.2.2.1) hpost
  | loggedIn response =>
      rw [hphase] at hopening
      obtain ⟨msg, hlogon⟩ := hopening.2.1
      exact ⟨response, msg, rfl, hlogon⟩
  | dropped =>
      rw [hphase] at hopening
      exact absurd (hledger.post_of_early hopening.2.2.1) hpost
  | panicked => exact absurd hphase hchannel.expected

/-- Everything starts with the hello. -/
theorem sent_cases (hchannel : Channel codecs session)
    (hledger : Ledger codecs session opening pre logon post) :
    session.inner.sent = [] ∧ pre = [] ∧ logon = [] ∧ post = [] ∨
      session.inner.sent = hello codecs :: (pre ++ (logon ++ post)) ∧ logon.length ≤ 1 := by
  have hopening := hledger.opening
  have hempty (hnil : session.calls = []) : pre = [] ∧ post = [] := by
    have hbefore := hledger.before
    have hafter := hledger.after
    rw [hnil] at hbefore hafter
    exact ⟨hbefore.eq_nil, hafter.eq_nil⟩
  have hsilent (hnothing : opening = []) (hnologon : logon = []) (hnil : session.calls = []) :
      session.inner.sent = [] ∧ pre = [] ∧ logon = [] ∧ post = [] := by
    obtain ⟨hpre, hpost⟩ := hempty hnil
    exact ⟨by rw [hledger.sent, hnothing, hnologon, hpre, hpost]; rfl, hpre, hnologon, hpost⟩
  have hhello (hopen : opening = [hello codecs]) :
      session.inner.sent = hello codecs :: (pre ++ (logon ++ post)) := by
    rw [hledger.sent, hopen]
    rfl
  unfold Opening at hopening
  cases hphase : session.phase with
  | connected | keySent =>
      rw [hphase] at hopening
      exact .inl (hsilent hopening.1 hopening.2.1 hopening.2.2.1)
  | encrypted =>
      rw [hphase] at hopening
      exact .inr ⟨hhello hopening.1, by simp [hopening.2.1]⟩
  | loggingIn =>
      rw [hphase] at hopening
      refine .inr ⟨hhello hopening.1, ?_⟩
      rw [hopening.2.1]
      split <;> simp
  | loggedIn =>
      rw [hphase] at hopening
      obtain ⟨msg, hlogon⟩ := hopening.2.1
      exact .inr ⟨hhello hopening.1, by simp [hlogon]⟩
  | dropped =>
      rw [hphase] at hopening
      rcases hopening.1 with ⟨hnothing, hnil, hnologon⟩ | hopen
      · exact .inl (hsilent hnothing hnologon hnil)
      · exact .inr ⟨hhello hopen, hopening.2.1⟩
  | panicked => exact absurd hphase hchannel.expected

end Ledger

/-- What a session sends, in every state of every run: nothing, or the hello, then one message
for each call of the encrypted client that has sent its own, then at most one logon message,
then one message for each call of the logged-in client that has sent its own. These exist
only after a successful login, and all of them but the heartbeats carry the Steam ID and the
session ID that its response has given (0 where it names none). -/
theorem posting_exact {codecs : SessionCodecs} {moves : List SessionMove} {session : Session}
    (hrun : (machine codecs).run connect moves = some session) :
    ∃ pre logon post,
      (session.inner.sent = [] ∧ pre = [] ∧ logon = [] ∧ post = [] ∨
        session.inner.sent = hello codecs :: (pre ++ (logon ++ post)) ∧ logon.length ≤ 1) ∧
      pre.Perm (session.calls.filterMap SessionCall.sentBefore) ∧
      post.Perm (session.calls.filterMap SessionCall.sentAfter) ∧
      (∀ call ∈ session.calls, ∀ msg, call.sentMsg = some msg →
        call.request.message codecs call.loggedIn call.jobId session.inner = some msg) ∧
      (post ≠ [] → ∃ response msg, session.phase = .loggedIn response ∧ logon = [msg]) ∧
      ∀ response, session.phase = .loggedIn response → ∀ msg ∈ post,
        msg.header.steamid = some (response.header.steamid.getD 0) ∧
          msg.header.clientSessionid = some (response.header.clientSessionid.getD 0) ∨
        msg = ⟨.clientHeartBeat, {}, []⟩ := by
  obtain ⟨hchannel, opening, pre, logon, post, hledger⟩ := Ledger.run hrun
  refine ⟨pre, logon, post, hledger.sent_cases hchannel, hledger.before, hledger.after,
    fun call hmem => (hledger.posts call hmem).made, hledger.post_ne_nil hchannel, ?_⟩
  intro response hphase msg hmem
  obtain ⟨call, hcall, hsent⟩ := List.mem_filterMap.mp (hledger.after.mem_iff.mp hmem)
  have hlate : call.loggedIn = true := by
    by_contra hearly
    simp [SessionCall.sentAfter, hearly] at hsent
  simp only [SessionCall.sentAfter, hlate, if_true] at hsent
  have hposts := hledger.posts call hcall
  have havailable := hposts.available
  have hmade := hposts.made msg hsent
  have hopening := hledger.opening
  unfold Opening at hopening
  rw [hphase] at hopening
  obtain ⟨_, _, _, hsteamId, hsessionId⟩ := hopening
  rw [hlate] at havailable hmade
  have hlast := SessionRequest.message_late havailable hmade
  rw [hsteamId, hsessionId] at hlast
  exact hlast

/-- The blocks that AES-256 encrypts under the zero key for the packets of a short session. -/
def sessionBlocks : List (Bytes × Bytes) :=
  [([48, 155, 136, 134, 38, 175, 233, 55, 158, 134, 21, 252, 235, 1, 2, 3],
    [22, 168, 217, 115, 53, 80, 208, 209, 18, 60, 252, 118, 40, 72, 244, 77]),
  ([125, 189, 136, 6, 38, 175, 233, 55, 150, 43, 149, 248, 239, 5, 6, 7],
    [192, 153, 114, 76, 63, 4, 62, 154, 46, 15, 203, 196, 88, 146, 51, 215]),
  ([18, 176, 24, 24, 152, 89, 166, 166, 218, 184, 15, 48, 15, 4, 5, 6],
    [221, 175, 135, 3, 226, 176, 219, 21, 122, 145, 126, 153, 44, 27, 28, 62]),
  ([152, 165, 24, 152, 152, 89, 166, 166, 210, 21, 143, 52, 11, 0, 1, 2],
    [41, 208, 92, 14, 208, 78, 20, 118, 89, 42, 135, 82, 192, 129, 78, 237]),
  ([160, 165, 226, 171, 187, 226, 245, 183, 178, 250, 214, 201, 95, 7, 8, 9],
    [102, 241, 94, 8, 118, 69, 239, 243, 74, 169, 78, 11, 247, 187, 107, 70]),
  ([79, 167, 226, 43, 176, 226, 245, 183, 187, 206, 196, 201, 95, 7, 8, 169],
    [5, 63, 215, 51, 103, 13, 71, 51, 61, 105, 128, 226, 94, 134, 225, 74]),
  ([4, 47, 210, 59, 102, 6, 76, 56, 54, 98, 139, 233, 85, 141, 234, 65],
    [165, 13, 185, 84, 93, 78, 86, 119, 30, 55, 86, 129, 152, 93, 240, 143]),
  ([58, 111, 6, 162, 188, 77, 101, 120, 102, 87, 48, 154, 149, 10, 11, 12],
    [248, 8, 121, 164, 67, 35, 23, 135, 5, 37, 191, 246, 53, 172, 93, 116]),
  ([133, 109, 6, 34, 188, 77, 101, 120, 110, 95, 56, 146, 157, 2, 3, 4],
    [13, 93, 26, 254, 190, 83, 60, 202, 101, 74, 56, 101, 4, 24, 49, 65]),
  ([204, 196, 16, 134, 107, 90, 109, 198, 121, 222, 89, 144, 152, 13, 14, 15],
    [25, 187, 94, 102, 6, 92, 245, 180, 149, 55, 112, 197, 138, 246, 144, 227]),
  ([11, 230, 16, 6, 96, 90, 109, 198, 112, 234, 75, 144, 152, 13, 14, 175],
    [38, 95, 112, 203, 184, 227, 152, 66, 183, 211, 208, 57, 2, 7, 187, 67]),
  ([39, 79, 117, 217, 189, 235, 120, 65, 167, 212, 200, 57, 6, 3, 191, 71],
    [133, 13, 199, 209, 60, 16, 166, 95, 217, 204, 128, 134, 76, 5, 73, 196]),
  ([182, 194, 145, 55, 202, 235, 209, 145, 193, 6, 179, 255, 183, 16, 17, 18],
    [209, 189, 92, 48, 119, 187, 218, 127, 149, 188, 189, 176, 7, 161, 131, 60]),
  ([126, 224, 145, 183, 202, 235, 209, 145, 203, 12, 187, 31, 180, 0, 16, 56],
    [9, 177, 190, 47, 0, 175, 229, 63, 137, 189, 52, 201, 241, 216, 69, 99]),
  ([10, 177, 182, 39, 48, 174, 239, 53, 131, 183, 62, 195, 251, 210, 79, 105],
    [137, 133, 191, 109, 40, 102, 104, 36, 110, 63, 232, 181, 7, 47, 200, 98]),
  ([233, 198, 82, 180, 144, 82, 184, 117, 212, 54, 220, 139, 136, 19, 20, 21],
    [153, 240, 86, 10, 31, 139, 249, 187, 187, 203, 129, 252, 10, 132, 228, 38]),
  ([33, 228, 82, 52, 144, 82, 184, 117, 222, 53, 212, 106, 139, 16, 23, 22],
    [108, 33, 62, 141, 166, 179, 29, 24, 83, 86, 217, 242, 144, 114, 68, 90]),
  ([170, 84, 162, 132, 246, 69, 18, 104, 198, 141, 83, 202, 65, 22, 23, 24],
    [80, 169, 182, 210, 230, 247, 176, 17, 187, 237, 109, 24, 13, 222, 125, 51]),
  ([230, 114, 162, 4, 230, 69, 18, 104, 151, 140, 83, 202, 65, 22, 23, 24],
    [248, 242, 188, 94, 126, 124, 95, 96, 85, 166, 97, 162, 117, 56, 216, 107]),
  ([248, 144, 185, 31, 80, 62, 124, 81, 93, 174, 105, 170, 125, 48, 208, 99],
    [162, 153, 26, 253, 73, 49, 165, 202, 218, 127, 15, 177, 175, 50, 51, 101]),
  ([9, 0, 193, 16, 52, 14, 203, 110, 213, 121, 196, 154, 2, 25, 26, 27],
    [25, 99, 203, 163, 210, 89, 163, 253, 26, 223, 228, 104, 219, 148, 54, 16]),
  ([154, 0, 193, 144, 63, 14, 203, 110, 140, 120, 196, 154, 2, 25, 26, 27],
    [135, 240, 241, 217, 47, 49, 14, 1, 165, 35, 72, 130, 40, 228, 173, 236]),
  ([135, 152, 240, 209, 40, 58, 5, 10, 174, 40, 67, 137, 35, 239, 166, 231],
    [193, 191, 58, 165, 96, 180, 41, 233, 96, 160, 248, 141, 135, 138, 211, 201])]

/-- HMAC-SHA1 under the zero key on the messages of these packets. -/
def sessionMacs : List (Bytes × Bytes) :=
  [([1, 2, 3, 77, 38, 0, 128, 0, 0, 0, 0, 8, 173, 128, 4],
    [48, 155, 136, 134, 38, 175, 233, 55, 158, 134, 21, 252, 235, 152, 33, 254, 30, 119, 11,
     244]),
  ([4, 5, 6, 138, 21, 0, 128, 0, 0, 0, 0, 8, 173, 128, 4],
    [18, 176, 24, 24, 152, 89, 166, 166, 218, 184, 15, 48, 15, 126, 227, 3, 205, 180, 19, 189]),
  ([7, 8, 9, 239, 2, 0, 128, 11, 0, 0, 0, 9, 52, 18, 0, 0, 0, 0, 160, 1, 16, 5, 8, 1],
    [160, 165, 226, 171, 187, 226, 245, 183, 178, 250, 214, 201, 95, 111, 158, 216, 109, 127,
     0, 248]),
  ([10, 11, 12, 191, 2, 0, 128, 0, 0, 0, 0],
    [58, 111, 6, 162, 188, 77, 101, 120, 102, 87, 48, 154, 149, 169, 94, 126, 9, 81, 35, 80]),
  ([13, 14, 15, 199, 34, 0, 128, 11, 0, 0, 0, 9, 52, 18, 0, 0, 0, 0, 160, 1, 16, 5, 18, 5, 8,
    224, 3, 16, 7, 24, 0],
    [204, 196, 16, 134, 107, 90, 109, 198, 121, 222, 89, 144, 152, 82, 40, 236, 138, 248, 199,
     176]),
  ([16, 17, 18, 200, 34, 0, 128, 0, 0, 0, 0, 10, 10, 8, 224, 3, 16, 1, 42, 3, 0, 8, 8, 48, 1],
    [182, 194, 145, 55, 202, 235, 209, 145, 193, 6, 179, 255, 183, 181, 101, 197, 5, 30, 237,
     26]),
  ([19, 20, 21, 200, 34, 0, 128, 0, 0, 0, 0, 10, 3, 8, 225, 3],
    [233, 198, 82, 180, 144, 82, 184, 117, 212, 54, 220, 139, 136, 80, 35, 252, 195, 154, 152,
     127]),
  ([22, 23, 24, 76, 38, 0, 128, 16, 0, 0, 0, 81, 1, 0, 0, 0, 0, 0, 0, 0, 98, 5, 65, 46, 66, 35,
    49],
    [170, 84, 162, 132, 246, 69, 18, 104, 198, 141, 83, 202, 65, 199, 225, 209, 94, 205, 81,
     175]),
  ([25, 26, 27, 147, 0, 0, 128, 11, 0, 0, 0, 89, 1, 0, 0, 0, 0, 0, 0, 0, 104, 1, 8, 7],
    [9, 0, 193, 16, 52, 14, 203, 110, 213, 121, 196, 154, 2, 112, 113, 9, 191, 88, 86, 209])]

/-- The header that names the session, and the empty one. -/
def sessionHeader : CMsgProtoBufHeader :=
  { steamid := some 117093590311637556, clientSessionid := some 5 }

/-- The header of the response to the first job. -/
def answerHeader : CMsgProtoBufHeader := { jobidTarget := some 1, eresult := some 1 }

def encodeSessionHeader (header : CMsgProtoBufHeader) : Bytes :=
  (header.steamid.elim [] fun steamid => 9 :: WireInt.u64.write steamid) ++
    (header.clientSessionid.elim [] fun sessionId => [16, .ofNat sessionId.toNat]) ++
    (header.jobidSource.elim [] fun job => 81 :: WireInt.u64.write job) ++
    header.targetJobName.elim [] fun name =>
      98 :: .ofNat name.length :: name.toList.map fun char => .ofNat char.toNat

/-- The libraries on these packets. -/
def sessionCodecs : SessionCodecs where
  wire :=
    { aes := tableAes sessionBlocks.reverse
      hmacSha1 := fun _ message =>
        ((sessionMacs.lookup message).getD (List.replicate 20 0) ++ List.replicate 20 0).take 20
      gunzip := fun _ => none
      decodeHeader := fun headerData =>
        if headerData = [] then some {}
        else if headerData = encodeSessionHeader sessionHeader then some sessionHeader
        else if headerData = [89, 1, 0, 0, 0, 0, 0, 0, 0, 104, 1] then some answerHeader
        else none
      decodeMulti := fun _ => none
      decodeDepotKeyResponse := fun _ => none
      encodeDepotKeyRequest := fun _ => [] }
  handshake := sampleHandshake
  sealBlock := tableAes sessionBlocks
  encoder := ⟨encodeSessionHeader, fun header => (encodeSessionHeader header).length,
    fun _ => rfl⟩
  encodeHello := fun _ => [8, 173, 128, 4]
  decodeLogonResponse := fun body => if body = [8, 1] then some ⟨some 1⟩ else none
  encodeAccessTokenRequest := fun _ => []
  decodeAccessTokenResponse := fun _ => none
  encodeProductInfoRequest := fun apps =>
    if apps = [⟨480, 7⟩] then [18, 5, 8, 224, 3, 16, 7, 24, 0] else []
  decodeProductInfoResponse := fun body =>
    if body = [10, 10, 8, 224, 3, 16, 1, 42, 3, 0, 8, 8, 48, 1] then
      some ⟨[⟨some 480, some 1, some [0, 8, 8]⟩], some true⟩
    else if body = [10, 3, 8, 225, 3] then some ⟨[⟨some 481, none, none⟩], none⟩
    else none
  encodeCheckBetaPassword := fun _ _ => []
  decodeCheckBetaPasswordResponse := fun _ => none

def logonMsg : ClientMsg := ⟨⟨5514⟩, {}, [8, 173, 128, 4]⟩

/-- The encrypted response to the login. -/
def logonResponsePacket : Bytes :=
  [102, 241, 94, 8, 118, 69, 239, 243, 74, 169, 78, 11, 247, 187, 107, 70, 5, 63, 215, 51, 103,
   13, 71, 51, 61, 105, 128, 226, 94, 134, 225, 74, 165, 13, 185, 84, 93, 78, 86, 119, 30, 55,
   86, 129, 152, 93, 240, 143]

/-- The handshake, the login and one heartbeat. -/
def sessionMoves : List SessionMove :=
  handshakeMoves ++
    [.login logonMsg, .advanceLogin #v[4, 5, 6], .arrive logonResponsePacket,
      .advanceLogin #v[0, 0, 0], .advanceLogin #v[0, 0, 0], .advanceLogin #v[0, 0, 0],
      .advanceLogin #v[0, 0, 0], .begin .sendHeartbeat, .advance 0 #v[10, 11, 12]]

theorem posting_exact_sample : ∃ session,
    (machine sessionCodecs).run connect sessionMoves = some session ∧
      session.inner.sent =
        [hello sessionCodecs, logonMsg, ⟨.clientHeartBeat, {}, []⟩] ∧
      ∃ response msg, session.phase = .loggedIn response ∧ [logonMsg] = [msg] := by
  have hany : ((machine sessionCodecs).run connect sessionMoves).any
      (fun session => decide (session.inner.sent =
          [hello sessionCodecs, logonMsg, ⟨.clientHeartBeat, {}, []⟩] ∧
        session.calls.filterMap SessionCall.sentBefore = [] ∧
        session.calls.filterMap SessionCall.sentAfter = [⟨.clientHeartBeat, {}, []⟩])) = true := by
    decide +kernel
  obtain ⟨session, hrun, hfound⟩ := Machine.exists_of_run_any _ hany
  obtain ⟨hsent, hbefore, hafter⟩ := of_decide_eq_true hfound
  refine ⟨session, hrun, hsent, ?_⟩
  obtain ⟨pre, logon, post, hcases, hpre, hpost, _, hlate, _⟩ := posting_exact hrun
  rw [hbefore] at hpre
  rw [hafter] at hpost
  obtain rfl := hpre.eq_nil
  obtain rfl := List.perm_singleton.mp hpost
  obtain ⟨response, msg, hphase, rfl⟩ := hlate nofun
  rcases hcases with ⟨_, _, hnone, _⟩ | ⟨hall, _⟩
  · cases hnone
  · rw [hsent] at hall
    obtain rfl : logonMsg = msg := by
      injection hall with _ htail
      injection htail
    exact ⟨response, logonMsg, hphase, rfl⟩

end Session

end DepotDownloader.Steam
