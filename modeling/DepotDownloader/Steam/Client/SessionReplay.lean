import DepotDownloader.Steam.Client.Posting
import DepotDownloader.Steam.Transport.Capture

/-! # A session against a replay

A step of a session takes packets from the front of those that wait and does not look at
the others, nor at when they came. On the replay transport all packets of the capture
are there from the start, and the session goes as it went when they were captured.
-/

namespace DepotDownloader.Steam

open Foundation

namespace ClientInner

/-- The same client with other packets that wait. -/
def awaiting (inner : ClientInner) (packets : List Bytes) : ClientInner :=
  { inner with incoming := packets }

variable (inner : ClientInner) (packets : List Bytes)

theorem awaiting_self : inner.awaiting inner.incoming = inner := rfl

theorem recvRouted_awaiting (exceptJobId : Option UInt64) (msg : IncomingMsg) :
    (inner.awaiting packets).recvRouted exceptJobId msg =
      ((inner.recvRouted exceptJobId msg).1.awaiting packets,
        (inner.recvRouted exceptJobId msg).2) := by
  unfold recvRouted
  split
  · split
    next => rfl
    next job _ =>
      have hpending : (inner.awaiting packets).pendingJobs = inner.pendingJobs := rfl
      by_cases hroutes : exceptJobId ≠ some job ∧ job ∈ inner.pendingJobs
      · rw [if_pos hroutes, if_pos (hpending ▸ hroutes)]
        rfl
      · rw [if_neg hroutes, if_neg (hpending ▸ hroutes)]
  · rfl

end ClientInner

theorem Call.route_awaiting (call : Call) (inner : ClientInner) (packets : List Bytes)
    (msg : IncomingMsg) :
    call.route (inner.awaiting packets) msg =
      ((call.route inner msg).1.awaiting packets, (call.route inner msg).2) := by
  unfold Call.route
  split <;> exact inner.recvRouted_awaiting packets _ msg

theorem Request.handle_awaiting (codecs : WireCodecs) (request : Request) (jobId : Option UInt64)
    (inner : ClientInner) (packets : List Bytes) (msg : IncomingMsg) :
    request.handle codecs jobId (inner.awaiting packets) msg =
      ((request.handle codecs jobId inner msg).1.awaiting packets,
        (request.handle codecs jobId inner msg).2) := by
  unfold Request.handle
  split
  · split <;> rfl
  · split <;> rfl
  · rfl

theorem SessionRequest.handle_awaiting (codecs : SessionCodecs) (request : SessionRequest)
    (jobId : Option UInt64) (inner : ClientInner) (packets : List Bytes)
    (results : List PicsAppInfo) (msg : IncomingMsg) :
    request.handle codecs jobId (inner.awaiting packets) results msg =
      ((request.handle codecs jobId inner results msg).1.awaiting packets,
        (request.handle codecs jobId inner results msg).2) := by
  unfold SessionRequest.handle
  split
  · split
    · split <;> rfl
    · rfl
  · split
    · split
      · rfl
      · dsimp only
        split <;> rfl
    · rfl
  · split <;> rfl
  · simp only [Request.handle_awaiting]

/-- The packets that a step of the receive loop takes, whatever waits behind them. -/
structure Takes (codecs : WireCodecs) (call : Call) (inner inner' : ClientInner) (stage : Stage)
    (taken : List Bytes) : Prop where
  front : inner.incoming = taken ++ inner'.incoming
  any : ∀ rest, call.advance codecs (inner.awaiting (taken ++ rest)) =
    some (inner'.awaiting rest, stage)

namespace Takes

variable {codecs : WireCodecs} {call : Call} {inner inner' : ClientInner} {stage : Stage}

/-- A step that gives the client back with the packets that waited. -/
theorem nothing (hsame : inner'.incoming = inner.incoming)
    (hany : ∀ rest, call.advance codecs (inner.awaiting rest) =
      some (inner'.awaiting rest, stage)) :
    Takes codecs call inner inner' stage [] where
  front := hsame.symm
  any := hany

theorem advance (hadvance : call.advance codecs inner = some (inner', stage)) :
    ∃ taken, Takes codecs call inner inner' stage taken := by
  have hroute (inner : ClientInner) (msg : IncomingMsg) :
      (call.route inner msg).1.incoming = inner.incoming := by
    have hsame := congrArg Prod.fst (call.route_awaiting inner inner.incoming msg)
    rw [inner.awaiting_self] at hsame
    exact (congrArg ClientInner.incoming hsame).trans rfl
  have hhandle (msg : IncomingMsg) :
      (call.request.handle codecs call.jobId inner msg).1.incoming = inner.incoming := by
    have hsame := congrArg Prod.fst
      (call.request.handle_awaiting codecs call.jobId inner inner.incoming msg)
    rw [inner.awaiting_self] at hsame
    exact (congrArg ClientInner.incoming hsame).trans rfl
  unfold Call.advance at hadvance
  split at hadvance
  next hstage =>
    cases hadvance
    refine ⟨[], nothing rfl fun rest => ?_⟩
    simp only [Call.advance, hstage]
    cases call.request <;> rfl
  next hstage =>
    split at hadvance
    next hqueue =>
      cases hadvance
      refine ⟨[], nothing rfl fun rest => ?_⟩
      simp only [Call.advance, hstage, ClientInner.awaiting, hqueue]
    next msg queue hqueue =>
      cases hadvance
      refine ⟨[], nothing (hroute { inner with msgQueue := queue } msg) fun rest => ?_⟩
      have hsame : (inner.awaiting rest).msgQueue = msg :: queue := hqueue
      simp only [Call.advance, hstage, hsame]
      exact congrArg (fun routed => some (routed.1, Call.afterRoute routed.2))
        (call.route_awaiting { inner with msgQueue := queue } rest msg)
  next hstage =>
    split at hadvance
    next => cases hadvance
    next raw behind hincoming =>
      cases hadvance
      refine ⟨[raw], hincoming, fun rest => ?_⟩
      simp only [Call.advance, hstage]
      rfl
  next raw hstage =>
    have hopen (rest : List Bytes) :
        (inner.awaiting rest).openPacket codecs raw = inner.openPacket codecs raw := rfl
    split at hadvance
    next hfound =>
      cases hadvance
      refine ⟨[], nothing rfl fun rest => ?_⟩
      simp only [Call.advance, hstage, hopen, hfound]
    next hfound =>
      cases hadvance
      refine ⟨[], nothing rfl fun rest => ?_⟩
      simp only [Call.advance, hstage, hopen, hfound]
    next msg hfound =>
      cases hadvance
      refine ⟨[], nothing (hroute inner msg) fun rest => ?_⟩
      simp only [Call.advance, hstage, hopen, hfound]
      exact congrArg (fun routed => some (routed.1, Call.afterRoute routed.2))
        (call.route_awaiting inner rest msg)
  next hstage =>
    cases hadvance
    refine ⟨[], nothing rfl fun rest => ?_⟩
    simp only [Call.advance, hstage]
    rfl
  next msg hstage =>
    obtain ⟨rfl, rfl⟩ := Prod.mk.inj (Option.some.inj hadvance)
    refine ⟨[], nothing (hhandle msg) fun rest => ?_⟩
    simp only [Call.advance, hstage]
    exact congrArg some (Request.handle_awaiting codecs _ _ inner rest msg)
  next => cases hadvance
  next => cases hadvance

end Takes

namespace Session

/-- The session with other packets that wait, and without the history of the arrivals. -/
def awaiting (session : Session) (packets : List Bytes) : Session :=
  { session with inner := session.inner.awaiting packets, arrived := [] }

variable {codecs : SessionCodecs} {session next : Session}

/-- The packets that a step takes, whatever waits behind them. -/
structure StepTakes (codecs : SessionCodecs) (session next : Session) (move : SessionMove)
    (taken : List Bytes) : Prop where
  front : session.inner.incoming = taken ++ next.inner.incoming
  any : ∀ rest, (session.awaiting (taken ++ rest)).step codecs move = some (next.awaiting rest)

theorem StepTakes.nothing {move : SessionMove}
    (hsame : next.inner.incoming = session.inner.incoming)
    (hany : ∀ rest, (session.awaiting rest).step codecs move = some (next.awaiting rest)) :
    StepTakes codecs session next move [] where
  front := hsame.symm
  any := hany

end Session

end DepotDownloader.Steam
