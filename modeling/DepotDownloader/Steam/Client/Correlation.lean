import DepotDownloader.Steam.Client.Posting

/-! # Job ids over a whole session

The service calls before and after the login draw their job ids from one counter. A
service call returns a reply only for a message that names its own job, so no reply
of one call comes from the response to another.
-/

namespace DepotDownloader.Steam

open Foundation

/-- The job ids in the order in which they are given out. -/
def jobIds (count : Nat) : List UInt64 :=
  (List.range count).map fun index => UInt64.ofNat (index + 1)

theorem jobIds_succ (count : Nat) :
    jobIds (count + 1) = jobIds count ++ [UInt64.ofNat (count + 1)] := by
  simp [jobIds, List.range_succ]

theorem nodup_jobIds {count : Nat} (hcount : count < 2 ^ 64) : (jobIds count).Nodup := by
  refine List.Nodup.map_on ?_ List.nodup_range
  intro first hfirst second hsecond heq
  rw [List.mem_range] at hfirst hsecond
  have hnat := congrArg UInt64.toNat heq
  have hsize : UInt64.size = 2 ^ 64 := rfl
  rw [UInt64.toNat_ofNat_of_lt' (by omega), UInt64.toNat_ofNat_of_lt' (by omega)] at hnat
  omega

namespace SessionCall

/-- The message that the call was handed and returned the body of. -/
def RepliesTo (call : SessionCall) (body : Bytes) (job : UInt64) (msg : IncomingMsg) : Prop :=
  msg ∈ call.handed ∧ msg.Answers job ∧ (∀ code ∈ msg.header.eresult, code = 1) ∧ msg.body = body

/-- A service reply comes from a message that names the job of the call. -/
structure Correlates (call : SessionCall) : Prop where
  job : call.request.takesJob = true → call.jobId ≠ none
  handed : ∀ msg, call.stage = .running (.handed msg) → msg ∈ call.handed
  replied : ∀ body, call.stage = .returned (.ok (.client (.service body))) →
    ∃ job msg, call.jobId = some job ∧ call.RepliesTo body job msg

end SessionCall

namespace Session

variable {codecs : SessionCodecs} {session next : Session}

/-- The only reply with a body is that of a service call to its own response. -/
theorem handle_service {request : SessionRequest} {jobId : Option UInt64} {inner : ClientInner}
    {results : List PicsAppInfo} {msg : IncomingMsg} {body : Bytes}
    (hhandle : (request.handle codecs jobId inner results msg).2.2 =
      .returned (.ok (.client (.service body)))) :
    request.takesJob = true ∧ msg.emsg = .serviceMethodResponse ∧
      msg.header.jobidTarget = jobId ∧ (∀ code ∈ msg.header.eresult, code = 1) ∧
      msg.body = body := by
  have hresponse (hreturned : Request.serviceResponse msg = .ok (.service body)) :
      (∀ code ∈ msg.header.eresult, code = 1) ∧ msg.body = body := by
    unfold Request.serviceResponse at hreturned
    split at hreturned
    next hnone =>
      cases hreturned
      exact ⟨by simp [hnone], rfl⟩
    next eresult hsome =>
      split at hreturned
      next => cases hreturned
      next hok =>
        cases hreturned
        refine ⟨fun code hcode => ?_, rfl⟩
        rw [hsome, Option.mem_some_iff] at hcode
        exact hcode ▸ EResultError.fromI32_eq_ok.mp hok
  have hservice {methodName : String} {payload : Bytes}
      (hloop : SessionStage.ofLoop (Request.handle codecs.wire
        (.callServiceMethod methodName payload) jobId inner msg).2 =
          .returned (.ok (.client (.service body)))) :
      msg.emsg = .serviceMethodResponse ∧ msg.header.jobidTarget = jobId ∧
        (∀ code ∈ msg.header.eresult, code = 1) ∧ msg.body = body := by
    unfold Request.handle at hloop
    dsimp only at hloop
    split at hloop
    next hmatch =>
      cases hresult : Request.serviceResponse msg with
      | error error =>
          rw [hresult] at hloop
          cases hloop
      | ok reply =>
          rw [hresult] at hloop
          cases hloop
          exact ⟨hmatch.1, hmatch.2, hresponse hresult⟩
    next => cases hloop
  cases request with
  | client request =>
      cases request with
      | callServiceMethod => exact ⟨rfl, hservice hhandle⟩
      | getDepotDecryptionKey depotId appId =>
          simp only [SessionRequest.handle, SessionRequest.loop, Request.handle] at hhandle
          split at hhandle
          next =>
            cases hkey : Request.depotKeyResponse codecs.wire depotId msg with
            | error error =>
                rw [hkey] at hhandle
                cases hhandle
            | ok reply =>
                rw [hkey] at hhandle
                cases hhandle
                unfold Request.depotKeyResponse at hkey
                repeat' split at hkey
                all_goals cases hkey
          next => cases hhandle
      | recvMsg => cases hhandle
  | callServiceMethodNonAuthed => exact ⟨rfl, hservice hhandle⟩
  | sendMsg | sendHeartbeat => cases hhandle
  | picsGetAccessTokens =>
      simp only [SessionRequest.handle] at hhandle
      repeat' split at hhandle
      all_goals cases hhandle
  | picsGetProductInfo =>
      simp only [SessionRequest.handle] at hhandle
      repeat' split at hhandle
      all_goals cases hhandle
  | checkBetaPassword =>
      simp only [SessionRequest.handle] at hhandle
      split at hhandle
      next =>
        unfold SessionRequest.betaPasswordResponse at hhandle
        repeat' split at hhandle
        all_goals cases hhandle
      next => cases hhandle

theorem ofLoop_running {stage stage' : Stage}
    (hloop : SessionStage.ofLoop stage = .running stage') : stage = stage' := by
  unfold SessionStage.ofLoop at hloop
  split at hloop
  · cases hloop
  · cases hloop
  · exact SessionStage.running.inj hloop

theorem ofLoop_ok {stage : Stage} {reply : SessionReply}
    (hloop : SessionStage.ofLoop stage = .returned (.ok reply)) :
    ∃ inner, stage = .returned (.ok inner) := by
  unfold SessionStage.ofLoop at hloop
  split at hloop
  next inner => exact ⟨inner, rfl⟩
  next => cases hloop
  next => cases hloop

/-- The receive loop by itself returns errors only. -/
theorem loop_ne_ok {inner inner' : ClientInner} {call : Call} {stage : Stage} {reply : Reply}
    (hadvance : call.advance codecs.wire inner = some (inner', stage))
    (hhanded : ∀ msg, call.stage ≠ .handed msg) : stage ≠ .returned (.ok reply) := by
  cases Call.advance_cases hadvance with
  | sends | waits | receives | fails | unpacks | queues => exact nofun
  | takes => exact Call.afterRoute_ne_returned
  | opens => exact Call.afterRoute_ne_returned
  | handles hstage => exact absurd hstage (hhanded _)

/-- Every change of a call keeps it correlated. -/
theorem correlates_change {inner : ClientInner} {call call' : SessionCall}
    (hcorrelates : call.Correlates) (hchange : CallChange codecs inner call call') :
    call'.Correlates := by
  cases hchange with
  | sends =>
      refine ⟨hcorrelates.job, ?_, ?_⟩ <;>
        simp only [SessionRequest.afterSend] <;> intro _ hnext <;> split at hnext <;> cases hnext
  | @handles msg hstage =>
      refine ⟨hcorrelates.job, ?_, ?_⟩
      · intro other hother
        rcases call.request.handle_stage codecs call.jobId inner call.results msg with
          hnext | ⟨result, hnext⟩ <;> rw [hnext] at hother <;> cases hother
      · intro body hreplied
        obtain ⟨htakes, hemsg, htarget, heresult, hbody⟩ := handle_service hreplied
        obtain ⟨job, hjob⟩ := Option.ne_none_iff_exists'.mp (hcorrelates.job htakes)
        exact ⟨job, msg, hjob, hcorrelates.handed msg hstage, ⟨hemsg, htarget.trans hjob⟩,
          heresult, hbody⟩
  | hands =>
      refine ⟨hcorrelates.job, ?_, ?_⟩
      · intro other hother
        cases hother
        exact List.mem_append_right _ (List.mem_singleton_self _)
      · intro body hreplied
        cases hreplied
  | loops _ hhanded hnext hadvance =>
      refine ⟨hcorrelates.job, fun msg hother => absurd (ofLoop_running hother) (hnext msg), ?_⟩
      intro body hreplied
      obtain ⟨reply, hstage'⟩ := ofLoop_ok hreplied
      exact absurd hstage' (loop_ne_ok hadvance hhanded)
  | ends hended =>
      refine ⟨hcorrelates.job, ?_, ?_⟩ <;> intro _ hother <;>
        rcases hended with rfl | ⟨reason, rfl⟩ <;> cases hother

theorem correlates_fresh {call : SessionCall} (hfresh : call.Fresh) : call.Correlates := by
  refine ⟨hfresh.job, ?_, ?_⟩ <;> intro _ hnext <;>
    rcases hfresh.stage with hstage | hstage <;> rw [hstage] at hnext <;> cases hnext

/-- The jobs that were given out. -/
structure Jobs (session : Session) (count : Nat) : Prop where
  given : session.calls.filterMap (·.jobId) = jobIds count
  counter : session.inner.nextJobId = UInt64.ofNat (count + 1)

namespace Jobs

variable {count : Nat}

theorem same (hjobs : session.Jobs count)
    (hcalls : next.calls.filterMap (·.jobId) = session.calls.filterMap (·.jobId))
    (hnext : next.inner.nextJobId = session.inner.nextJobId) : next.Jobs count where
  given := hcalls.trans hjobs.given
  counter := hnext.trans hjobs.counter

theorem start (hjobs : session.Jobs count) (request : SessionRequest) (loggedIn : Bool) :
    ∃ count, (session.start request loggedIn).Jobs count := by
  unfold Session.start
  dsimp only
  split
  next =>
    refine ⟨count + 1, ?_, ?_⟩
    · simp [List.filterMap_append, hjobs.given, hjobs.counter, jobIds_succ]
    · simp only [hjobs.counter, UInt64.ofNat_add]
      rfl
  next => exact ⟨count, by simp [List.filterMap_append, hjobs.given], hjobs.counter⟩

theorem step (hjobs : session.Jobs count) {move : SessionMove}
    (hstep : session.step codecs move = some next) : ∃ count, next.Jobs count := by
  have hsend (session : Session) (random : Vector UInt8 3) (msg : ClientMsg) :
      (session.sendEncrypted codecs random msg).inner.nextJobId = session.inner.nextJobId := by
    unfold sendEncrypted
    split <;> rfl
  cases step_cases hstep with
  | arrives | drops | responds | beginsLogin | forwards | logsIn =>
      exact ⟨count, hjobs.same rfl rfl⟩
  | confirms | sendsLogin =>
      exact ⟨count, hjobs.same (congrArg _ (sendEncrypted_calls _ _)) (hsend _ _ _)⟩
  | loopsLogin _ hsending _ hadvance =>
      exact ⟨count, hjobs.same rfl (InnerFrame.advance hsending hadvance).nextJobId⟩
  | begins => exact hjobs.start _ _
  | sends hcall =>
      refine ⟨count, hjobs.same ?_ (hsend _ _ _)⟩
      rw [sendEncrypted_calls]
      exact filterMap_set_of_eq hcall rfl
  | handles hcall =>
      exact ⟨count, hjobs.same (filterMap_set_of_eq hcall rfl)
        (InnerFrame.sessionHandle ..).nextJobId⟩
  | hands hcall _ hsending _ hadvance =>
      exact ⟨count, hjobs.same (filterMap_set_of_eq hcall rfl)
        (InnerFrame.advance hsending hadvance).nextJobId⟩
  | loops hcall _ hsending _ _ hadvance =>
      exact ⟨count, hjobs.same (filterMap_set_of_eq hcall rfl)
        (InnerFrame.advance hsending hadvance).nextJobId⟩
  | ends hcall => exact ⟨count, hjobs.same (filterMap_set_of_eq hcall rfl) rfl⟩

theorem run {moves : List SessionMove}
    (hrun : (machine codecs).run Session.connect moves = some session) :
    ∃ count, session.Jobs count := by
  have hstep (session : Session) (move : SessionMove) (next : Session)
      (hkept : ∃ count, session.Jobs count) (_ : True)
      (hstep : session.step codecs move = some next) : ∃ count, next.Jobs count := by
    obtain ⟨count, hjobs⟩ := hkept
    exact hjobs.step hstep
  exact (machine codecs).run_invariant hstep (fun _ _ => trivial) ⟨0, rfl, rfl⟩ hrun

end Jobs

/-- Replies belong to their calls, in every state of every run with fewer than 2^64 service
calls, before and after the login taken together: a service call that has returned a body
took it from a successful response that it was handed and that names its own job, and no
other call of the session has that job. -/
theorem replies_correlate {codecs : SessionCodecs} {moves : List SessionMove} {session : Session}
    (hrun : (machine codecs).run connect moves = some session)
    (hfew : (session.calls.filterMap (·.jobId)).length < 2 ^ 64) {index : Nat}
    {call : SessionCall} {body : Bytes} (hcall : session.calls[index]? = some call)
    (hreplied : call.stage = .returned (.ok (.client (.service body)))) :
    ∃ job msg, call.jobId = some job ∧ call.RepliesTo body job msg ∧
      ∀ other otherCall, session.calls[other]? = some otherCall → otherCall.jobId = some job →
        other = index := by
  obtain ⟨count, hjobs⟩ := Jobs.run hrun
  have hcount : count < 2 ^ 64 := by
    rw [hjobs.given] at hfew
    simpa [jobIds] using hfew
  have hnodup : (session.calls.filterMap (·.jobId)).Nodup := hjobs.given ▸ nodup_jobIds hcount
  have hcorrelates := calls_invariant (fun _ => correlates_fresh)
    (fun _ _ _ => correlates_change) hrun call (List.mem_of_getElem? hcall)
  obtain ⟨job, msg, hjob, hreply⟩ := hcorrelates.replied body hreplied
  refine ⟨job, msg, hjob, hreply, fun other otherCall hother hsame => ?_⟩
  exact eq_of_nodup_filterMap hnodup hother hcall hsame hjob

/-- The encrypted response to that call. -/
def answerPacket : Bytes :=
  [25, 99, 203, 163, 210, 89, 163, 253, 26, 223, 228, 104, 219, 148, 54, 16, 135, 240, 241, 217,
   47, 49, 14, 1, 165, 35, 72, 130, 40, 228, 173, 236, 193, 191, 58, 165, 96, 180, 41, 233, 96,
   160, 248, 141, 135, 138, 211, 201]

/-- The handshake and one service call, which is answered before the login. -/
def answeredMoves : List SessionMove :=
  handshakeMoves ++
    [.begin (.callServiceMethodNonAuthed "A.B#1" []), .advance 0 (.replicate 3 22),
      .arrive answerPacket] ++
    List.replicate 4 (.advance 0 (.replicate 3 0))

theorem replies_correlate_sample : ∃ session call,
    (machine sessionCodecs).run connect answeredMoves = some session ∧
      session.calls[0]? = some call ∧ ∃ job msg, call.jobId = some job ∧
        call.RepliesTo [8, 7] job msg := by
  have hany : ((machine sessionCodecs).run connect answeredMoves).any
      (fun session => decide (session.calls.map (·.stage) =
          [.returned (.ok (.client (.service [8, 7])))] ∧
        (session.calls.filterMap (·.jobId)).length < 2 ^ 64)) = true := by
    decide +kernel
  obtain ⟨session, hrun, hfound⟩ := Machine.exists_of_run_any _ hany
  obtain ⟨hstages, hfew⟩ := of_decide_eq_true hfound
  obtain ⟨call, hcalls, hstage⟩ := List.map_eq_singleton_iff.mp hstages
  have hcall : session.calls[0]? = some call := by rw [hcalls]; rfl
  obtain ⟨job, msg, hjob, hreply, _⟩ := replies_correlate hrun hfew hcall hstage
  exact ⟨session, call, hrun, hcall, job, msg, hjob, hreply⟩

end Session

end DepotDownloader.Steam
