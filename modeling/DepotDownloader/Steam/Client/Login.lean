import DepotDownloader.Steam.Client.Correlation
import DepotDownloader.Steam.Client.Delivery

/-! # The login

The login reads the stream of messages up to the first logon response, which decides.
What comes before it goes to the event channel, what comes behind it stays for the
logged-in client.
-/

namespace DepotDownloader.Steam

open Foundation

namespace Session

variable (codecs : SessionCodecs)

/-- The moves of a login while the transport works: packets arrive that open under the
session's cipher, and the login goes on. -/
def LoginMove (start : Session) (move : SessionMove) : Prop :=
  match move with
  | .arrive packet => ∃ opened, start.inner.openPacket codecs.wire packet = .ok opened
  | .advanceLogin _ => True
  | _ => False

/-- The messages that the login finds, with the packets that arrive while it runs. -/
def loginStream (start : Session) (arriving : List Bytes) : List IncomingMsg :=
  start.inner.msgQueue ++
    (start.inner.incoming ++ arriving).flatMap (start.inner.messages codecs.wire)

/-- The messages at the front of the stream were forwarded, and none of them is a logon
response. -/
structure Forwarded (start session : Session) (forwarded : List IncomingMsg) : Prop where
  events : session.inner.events = start.inner.events ++ forwarded
  other : ∀ msg ∈ forwarded, msg.emsg ≠ .clientLogOnResponse

/-- The login is inside its receive loop. -/
def Looping (stage : Stage) : Prop :=
  stage ≠ .sending ∧ (⟨.recvMsg, none, stage⟩ : Call).InFlight

/-- Where the login is in the stream. -/
def LoginAt (start session : Session) (arriving : List Bytes) : Prop :=
  ∃ forwarded, Forwarded start session forwarded ∧
    match session.phase with
    | .loggingIn _ stage => start.loginStream codecs arriving =
        forwarded ++ session.inner.unread codecs.wire stage ∧ Looping stage ∧
        session.inner.Supplied codecs.wire ∧ stage.Sound codecs.wire session.inner
    | .loggedIn response => start.loginStream codecs arriving =
        forwarded ++ response :: session.inner.unread codecs.wire .polling ∧
        response.emsg = .clientLogOnResponse ∧ logonResult codecs response = .ok ()
    | .dropped error => ∃ response later, start.loginStream codecs arriving =
        forwarded ++ response :: later ∧ response.emsg = .clientLogOnResponse ∧
        logonResult codecs response = .error error
    | _ => False

/-- The login is on its way through the stream. -/
structure LoginFlow (start session : Session) (arriving : List Bytes) : Prop where
  arrived : session.arrived = start.arrived ++ arriving
  cipher : session.inner.cipher = start.inner.cipher
  position : LoginAt codecs start session arriving

namespace LoginFlow

variable {codecs} {start session next : Session} {arriving : List Bytes}

theorem begin {msg : ClientMsg} (hphase : start.phase = .loggingIn msg .polling)
    (hsupplied : start.inner.Supplied codecs.wire) : LoginFlow codecs start start [] where
  arrived := (List.append_nil _).symm
  cipher := rfl
  position := by
    refine ⟨[], ⟨(List.append_nil _).symm, List.forall_mem_nil _⟩, ?_⟩
    rw [hphase]
    refine ⟨?_, ⟨nofun, trivial⟩, hsupplied, trivial⟩
    simp [loginStream, ClientInner.unread, Stage.held, Stage.inHand]

theorem unread_arrive (inner : ClientInner) (packet : Bytes) (stage : Stage) :
    ({ inner with incoming := inner.incoming ++ [packet] } : ClientInner).unread codecs.wire stage =
      inner.unread codecs.wire stage ++ inner.messages codecs.wire packet := by
  simp only [ClientInner.unread, List.flatMap_append, List.flatMap_singleton, List.append_assoc]
  rfl

/-- A packet that arrives goes to the end of the stream. -/
theorem arrive (hflow : LoginFlow codecs start session arriving) {packet : Bytes}
    (hopens : ∃ opened, start.inner.openPacket codecs.wire packet = .ok opened) :
    LoginFlow codecs start { session with
      inner := { session.inner with incoming := session.inner.incoming ++ [packet] }
      arrived := session.arrived ++ [packet] } (arriving ++ [packet]) := by
  obtain ⟨harrived, hcipher, forwarded, ⟨hevents, hother⟩, hposition⟩ := hflow
  have hmessages : session.inner.messages codecs.wire = start.inner.messages codecs.wire :=
    ClientInner.messages_congr hcipher
  have hopen : session.inner.openPacket codecs.wire = start.inner.openPacket codecs.wire :=
    ClientInner.openPacket_congr hcipher
  have hstream : start.loginStream codecs (arriving ++ [packet]) =
      start.loginStream codecs arriving ++ session.inner.messages codecs.wire packet := by
    simp [loginStream, hmessages]
  refine ⟨by simp only [harrived, List.append_assoc], hcipher, forwarded, ⟨hevents, hother⟩, ?_⟩
  cases hphase : session.phase with
  | loggingIn msg stage =>
      rw [hphase] at hposition
      obtain ⟨hunread, hlooping, hsupplied, hsound⟩ := hposition
      refine ⟨?_, hlooping, ⟨hsupplied.pending, ?_⟩, ?_⟩
      · rw [hstream, hunread, unread_arrive, List.append_assoc]
      · refine List.forall_mem_append.mpr ⟨hsupplied.opened, ?_⟩
        rw [List.forall_mem_singleton]
        exact hopen ▸ hopens
      · cases stage <;> exact hsound
  | loggedIn response =>
      rw [hphase] at hposition
      obtain ⟨hunread, hdecides⟩ := hposition
      refine ⟨?_, hdecides⟩
      rw [hstream, hunread, unread_arrive, List.append_assoc, List.cons_append]
  | dropped error =>
      rw [hphase] at hposition
      obtain ⟨response, later, hunread, hdecides⟩ := hposition
      refine ⟨response, later ++ session.inner.messages codecs.wire packet, ?_, hdecides⟩
      rw [hstream, hunread, List.append_assoc, List.cons_append]
  | connected | keySent | encrypted | panicked =>
      rw [hphase] at hposition
      exact hposition

/-- A step of the login that is not the last one moves towards the next message. -/
theorem loop (hflow : LoginFlow codecs start session arriving) {msg : ClientMsg}
    {stage stage' : Stage} {inner : ClientInner} (hphase : session.phase = .loggingIn msg stage)
    (hhanded : ∀ incoming, stage ≠ .handed incoming)
    (hadvance : Call.advance codecs.wire session.inner ⟨.recvMsg, none, stage⟩ =
      some (inner, stage')) :
    LoginFlow codecs start { session with inner, phase := .loggingIn msg stage' } arriving ∧
      (∀ result, stage' ≠ .returned result) ∧
      inner.scanRank codecs.wire stage' < session.inner.scanRank codecs.wire stage := by
  obtain ⟨harrived, hcipher, forwarded, ⟨hevents, hother⟩, hposition⟩ := hflow
  rw [hphase] at hposition
  obtain ⟨hunread, _, hsupplied, hsound⟩ := hposition
  have hforwards : (⟨.recvMsg, none, stage⟩ : Call).request.Forwards := trivial
  obtain ⟨hscan, hsupplied', hsound', hcipher'⟩ :=
    Call.advance_scan hsupplied hforwards hsound hadvance
  have hnext := Ledger.loop_ne_sending hhanded hadvance
  cases hscan with
  | scans hflight hevents' hunread' hrank =>
      refine ⟨⟨harrived, hcipher'.trans hcipher, forwarded, ⟨hevents'.trans hevents, hother⟩, ?_⟩,
        ?_, ?_⟩
      · exact ⟨hunread.trans (by rw [hunread']), ⟨hnext, hflight⟩, hsupplied', hsound'⟩
      · rintro result rfl
        exact hflight
      · dsimp only at hrank
        simp only [ClientInner.scanRank, hunread']
        omega
  | forwards hstage => exact absurd hstage (hhanded _)
  | returns hstage => exact absurd hstage (hhanded _)

/-- A message is handled: the first logon response decides. -/
theorem handle (hflow : LoginFlow codecs start session arriving) {msg : ClientMsg}
    {incoming : IncomingMsg} (hphase : session.phase = .loggingIn msg (.handed incoming)) :
    LoginFlow codecs start (session.handleLogin codecs msg incoming) arriving := by
  obtain ⟨harrived, hcipher, forwarded, ⟨hevents, hother⟩, hposition⟩ := hflow
  rw [hphase] at hposition
  obtain ⟨hunread, _, hsupplied, _⟩ := hposition
  have hfront : start.loginStream codecs arriving =
      forwarded ++ incoming :: session.inner.unread codecs.wire .polling := hunread
  unfold handleLogin
  split
  next hresponse =>
    split
    next error hresult =>
      exact ⟨harrived, hcipher, forwarded, ⟨hevents, hother⟩, incoming, _, hfront, hresponse,
        hresult⟩
    next hresult =>
      exact ⟨harrived, hcipher, forwarded, ⟨hevents, hother⟩, hfront, hresponse, hresult⟩
  next hresponse =>
    refine ⟨harrived, hcipher, forwarded ++ [incoming], ⟨?_, ?_⟩, ?_, ⟨nofun, trivial⟩,
      ⟨hsupplied.pending, hsupplied.opened⟩, trivial⟩
    · simp only [hevents, List.append_assoc]
    · exact List.forall_mem_append.mpr ⟨hother, List.forall_mem_singleton.mpr hresponse⟩
    · rw [hfront, List.append_assoc]
      rfl

/-- A step of the login either deals with the message in its hands or is one of its receive
loop. -/
theorem advance (hflow : LoginFlow codecs start session arriving) {random : Vector UInt8 3}
    (hstep : session.advanceLogin codecs random = some next) :
    LoginFlow codecs start next arriving := by
  unfold advanceLogin at hstep
  split at hstep
  next msg hphase =>
    obtain ⟨_, _, forwarded, _, hposition⟩ := hflow
    rw [hphase] at hposition
    exact absurd rfl hposition.2.1.1
  next msg incoming hphase =>
    cases hstep
    exact hflow.handle hphase
  next msg stage hsending hhanded hphase =>
    split at hstep
    next => cases hstep
    next inner error hadvance =>
      exact absurd rfl ((hflow.loop hphase hhanded hadvance).2.1 _)
    next inner stage' _ hadvance =>
      cases hstep
      exact (hflow.loop hphase hhanded hadvance).1
  next => cases hstep

theorem run (hflow : LoginFlow codecs start session arriving) {moves : List SessionMove}
    (hmoves : ∀ move ∈ moves, LoginMove codecs start move)
    (hrun : (machine codecs).run session moves = some next) :
    LoginFlow codecs start next (arriving ++ arrivals moves) := by
  induction moves generalizing session arriving with
  | nil =>
      obtain rfl := Option.some.inj hrun
      simpa [arrivals] using hflow
  | cons move rest ih =>
      obtain ⟨middle, hstep, hrest⟩ := (machine codecs).run_cons_eq_some.mp hrun
      have hmove := hmoves move List.mem_cons_self
      have htail := fun other hmem => hmoves other (List.mem_cons_of_mem _ hmem)
      cases move with
      | arrive packet =>
          cases hstep
          have hnext := ih (hflow.arrive hmove) htail hrest
          simpa [arrivals] using hnext
      | advanceLogin random => exact ih (hflow.advance hstep) htail hrest
      | encrypt | confirm | login | ownerFails | begin | advance | transportFails | abandon =>
          exact hmove.elim

def Undecided (session : Session) : Prop := ∃ msg stage, session.phase = .loggingIn msg stage

def rank (codecs : SessionCodecs) (session : Session) : Nat :=
  match session.phase with
  | .loggingIn _ stage => session.inner.scanRank codecs.wire stage + 1
  | _ => 0

theorem rank_handleLogin (msg : ClientMsg) (incoming : IncomingMsg) :
    rank codecs (session.handleLogin codecs msg incoming) <
      session.inner.scanRank codecs.wire (.handed incoming) + 1 := by
  have hhanded : (session.inner.unread codecs.wire (.handed incoming)).length =
      (session.inner.unread codecs.wire .polling).length + 1 := rfl
  unfold handleLogin
  split
  · split <;> exact Nat.succ_pos _
  · change 6 * (session.inner.unread codecs.wire .polling).length +
      6 * session.inner.incoming.length + 1 + 1 < _
    simp only [ClientInner.scanRank, hhanded, Stage.weight]
    omega

/-- With a logon response in the stream the login is never blocked, and each of its steps
brings it nearer to the decision. -/
theorem progress (hflow : LoginFlow codecs start session arriving)
    (hresponse : ∃ response ∈ start.loginStream codecs arriving,
      response.emsg = .clientLogOnResponse) (hundecided : Undecided session)
    (random : Vector UInt8 3) :
    ∃ next, session.advanceLogin codecs random = some next ∧
      LoginFlow codecs start next arriving ∧ rank codecs next < rank codecs session := by
  obtain ⟨msg, stage, hphase⟩ := hundecided
  obtain ⟨forwarded, hforwarded, hposition⟩ := hflow.position
  rw [hphase] at hposition
  obtain ⟨hunread, ⟨hsending, hflight⟩, hsupplied, hsound⟩ := hposition
  have hrank : rank codecs session = session.inner.scanRank codecs.wire stage + 1 := by
    unfold rank
    rw [hphase]
  by_cases hhanded : ∃ incoming, stage = .handed incoming
  · obtain ⟨incoming, rfl⟩ := hhanded
    refine ⟨session.handleLogin codecs msg incoming, ?_, hflow.handle hphase,
      hrank ▸ rank_handleLogin msg incoming⟩
    unfold advanceLogin
    rw [hphase]
  · have hnone : ∀ incoming, stage ≠ .handed incoming := fun incoming heq =>
      hhanded ⟨incoming, heq⟩
    have hpacket : stage = .receiving → session.inner.incoming ≠ [] := by
      rintro rfl hempty
      obtain ⟨response, hmem, hemsg⟩ := hresponse
      rw [hunread] at hmem
      have hqueue : session.inner.msgQueue = [] := hsound
      simp only [ClientInner.unread, Stage.held, Stage.inHand, hqueue, hempty,
        List.flatMap_nil, List.append_nil] at hmem
      exact hforwarded.other response hmem hemsg
    obtain ⟨inner, stage', hadvance⟩ := Call.exists_advance hflight hpacket
    obtain ⟨hnext, hrunning, hless⟩ := hflow.loop hphase hnone hadvance
    refine ⟨{ session with inner, phase := .loggingIn msg stage' }, ?_, hnext, ?_⟩
    · unfold advanceLogin
      rw [hphase]
      split
      next heq => exact absurd (SessionPhase.loggingIn.inj heq).2 hsending
      next heq => exact absurd (SessionPhase.loggingIn.inj heq).2 (hnone _)
      next heq =>
        obtain ⟨rfl, rfl⟩ := SessionPhase.loggingIn.inj heq
        rw [hadvance]
        split
        next hfail => cases hfail
        next hfail =>
          cases hfail
          exact absurd rfl (hrunning _)
        next hsome =>
          cases hsome
          rfl
      next hother => exact absurd rfl (hother msg stage)
    · rw [hrank]
      exact Nat.succ_lt_succ hless

end LoginFlow

end Session

end DepotDownloader.Steam
