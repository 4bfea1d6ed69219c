import DepotDownloader.Steam.Client.CallStep

/-! # Who gets a service response

`pending_jobs` is never filled, so a receive loop returns every message to the
call that runs it. A response reaches its own call when no other call receives
while the response waits, and is stolen otherwise.
-/

namespace DepotDownloader.Steam

open Foundation

variable {codecs : WireCodecs}

/-- The calls in flight that wait for the response of a job. -/
def jobsInFlight (calls : List Call) : List (Nat × UInt64) :=
  calls.zipIdx.filterMap fun entry =>
    if entry.1.InFlight then entry.1.jobId.map fun job => (entry.2, job) else none

theorem mem_jobsInFlight {calls : List Call} {index : Nat} {job : UInt64} :
    (index, job) ∈ jobsInFlight calls ↔
      ∃ call, calls[index]? = some call ∧ call.InFlight ∧ call.jobId = some job := by
  unfold jobsInFlight
  rw [List.mem_filterMap]
  constructor
  · intro hentry
    obtain ⟨⟨call, index'⟩, hmem, hjob⟩ := hentry
    split at hjob
    next hflight =>
      obtain ⟨job', hjob', hpair⟩ := Option.map_eq_some_iff.mp hjob
      cases hpair
      exact ⟨call, List.mem_zipIdx_iff_getElem?.mp hmem, hflight, hjob'⟩
    next => cases hjob
  · intro hcall
    obtain ⟨call, hget, hflight, hjob⟩ := hcall
    refine ⟨(call, index), List.mem_zipIdx_iff_getElem?.mpr hget, ?_⟩
    simp only [if_pos hflight, hjob, Option.map_some]

/-- A response to a call in flight went to that call. -/
def Handing.NotStolen (handing : Handing) : Prop :=
  ∀ waiting ∈ jobsInFlight handing.calls, handing.msg.Answers waiting.2 →
    waiting.1 = handing.call

instance (handing : Handing) : Decidable handing.NotStolen :=
  inferInstanceAs (Decidable (∀ waiting ∈ _, _ → _))

/-- The messages that a call has taken from the transport and not yet passed on. -/
def Stage.inHand (codecs : WireCodecs) (inner : ClientInner) : Stage → List IncomingMsg
  | .received raw => inner.messages codecs raw
  | .unpacked subMessages => ClientInner.parsedMessages codecs subMessages
  | _ => []

/-- The stages of the receive loop. -/
def Stage.Receives (stage : Stage) : Prop :=
  match stage with
  | .polling | .receiving | .received _ | .unpacked _ => True
  | _ => False

instance (stage : Stage) : Decidable stage.Receives := by
  unfold Stage.Receives
  cases stage <;> infer_instance

theorem Stage.Receives.inFlight {call : Call} (hreceives : call.stage.Receives) :
    call.InFlight := by
  unfold Call.InFlight
  unfold Stage.Receives at hreceives
  split at hreceives <;> simp_all

namespace SteamClient

/-- The unread messages that the receive loop of a call can come by: in the
queue, in the transport and in the packet it holds. -/
def withinReach (codecs : WireCodecs) (client : SteamClient) (call : Call) : List IncomingMsg :=
  client.inner.msgQueue ++ client.inner.incoming.flatMap (client.inner.messages codecs) ++
    call.stage.inHand codecs client.inner

/-- A receive loop runs only while no response to another call in flight is
within its reach. -/
def Undisturbed (codecs : WireCodecs) (client : SteamClient) (move : ClientMove) : Prop :=
  match move with
  | .advance index =>
      ∀ call ∈ client.calls[index]?, call.stage.Receives →
        ∀ waiting ∈ jobsInFlight client.calls, waiting.1 ≠ index →
          ∀ msg ∈ client.withinReach codecs call, ¬ msg.Answers waiting.2
  | _ => True

instance (client : SteamClient) (move : ClientMove) :
    Decidable (client.Undisturbed codecs move) := by
  unfold Undisturbed
  cases move <;> infer_instance

/-- A call starts only when no other call is in flight. -/
def Serial (client : SteamClient) (move : ClientMove) : Prop :=
  match move with
  | .begin _ => ∀ call ∈ client.calls, ¬ call.InFlight
  | _ => True

/-- A receive loop returns a message that was within its reach. -/
theorem advance_reach {client : SteamClient} {call : Call} {inner : ClientInner}
    {msg : IncomingMsg} (hadvance : call.advance codecs client.inner = some (inner, .handed msg)) :
    call.stage.Receives ∧ msg ∈ client.withinReach codecs call := by
  unfold withinReach
  obtain ⟨hstage, hqueue⟩ | ⟨raw, hstage, hraw⟩ := Call.advance_handed hadvance
  · rw [hstage]
    exact ⟨trivial, List.mem_append_left _ (List.mem_append_left _ hqueue)⟩
  · rw [hstage]
    exact ⟨trivial, List.mem_append_right _ hraw⟩

/-- Only a step of a call's receive loop returns a message, and the message was
within the reach of the call. -/
theorem step_handings {client next : SteamClient} {move : ClientMove}
    (hstep : client.step codecs move = some next) {handing : Handing}
    (hmem : handing ∈ next.handings) :
    handing ∈ client.handings ∨
      ∃ call, client.calls[handing.call]? = some call ∧ call.stage.Receives ∧
        move = .advance handing.call ∧ handing.calls = client.calls ∧
        handing.msg ∈ client.withinReach codecs call := by
  cases step_cases hstep with
  | begins request => cases request <;> exact .inl hmem
  | arrives | fails | drops => exact .inl hmem
  | @advances index call inner stage hcall hadvance =>
      rcases List.mem_append.mp hmem with hold | hnew
      · exact .inl hold
      · cases stage with
        | handed msg =>
            -- The only stage that leaves a handing behind.
            rw [List.mem_singleton.mp hnew]
            obtain ⟨hreceives, hreach⟩ := advance_reach hadvance
            exact .inr ⟨call, hcall, hreceives, rfl, rfl, hreach⟩
        | _ => cases hnew

/-- In every run whose receive loops are undisturbed, however many calls are in
flight and in whatever order packets arrive, each response to a call in flight
is handed to that call alone. -/
theorem responses_not_stolen (inner : ClientInner) {moves : List ClientMove}
    {client : SteamClient}
    (hrun : (machine codecs).RunWhere (Undisturbed codecs) (loggedIn inner) moves client) :
    ∀ handing ∈ client.handings, handing.NotStolen := by
  have hstep : ∀ (state : SteamClient) (move : ClientMove) (next : SteamClient),
      (∀ handing ∈ state.handings, handing.NotStolen) → state.Undisturbed codecs move →
        state.step codecs move = some next →
          ∀ handing ∈ next.handings, handing.NotStolen := by
    intro state move next hstolen hcondition hstep handing hmem
    obtain hold | ⟨call, hcall, hreceives, rfl, hcalls, hreach⟩ := step_handings hstep hmem
    · exact hstolen handing hold
    · intro waiting hwaiting hanswers
      rw [hcalls] at hwaiting
      by_contra hother
      exact hcondition call hcall hreceives waiting hwaiting hother _ hreach hanswers
  apply Machine.RunWhere.invariant _ hstep ?_ hrun
  intro handing hmem
  cases hmem

/-- AES-256 under the zero key, on the blocks of the two packets below. -/
def sampleBlocks : List (Bytes × Bytes) :=
  [([224, 163, 108, 123, 153, 126, 208, 218, 143, 5, 53, 219, 218, 72, 62, 201],
    [79, 2, 152, 231, 104, 74, 51, 240, 46, 134, 174, 10, 126, 1, 2, 3]),
  ([224, 55, 230, 133, 58, 244, 144, 215, 254, 168, 44, 148, 117, 103, 21, 30],
    [220, 2, 152, 103, 99, 74, 51, 240, 119, 135, 174, 10, 126, 1, 2, 3]),
  ([159, 130, 82, 38, 106, 211, 117, 183, 115, 226, 70, 237, 159, 39, 44, 249],
    [224, 95, 231, 136, 55, 249, 157, 218, 243, 165, 33, 153, 120, 106, 24, 19]),
  ([80, 166, 80, 188, 221, 206, 59, 84, 179, 157, 1, 16, 184, 224, 45, 39],
    [117, 189, 230, 160, 55, 192, 147, 19, 254, 157, 238, 138, 107, 1, 2, 3]),
  ([237, 15, 235, 252, 254, 31, 67, 245, 157, 189, 71, 133, 207, 244, 84, 180],
    [230, 189, 230, 32, 60, 192, 147, 19, 167, 159, 238, 138, 107, 1, 2, 3]),
  ([178, 119, 209, 135, 44, 107, 41, 182, 178, 92, 42, 215, 134, 84, 62, 175],
    [237, 103, 234, 241, 243, 18, 78, 248, 144, 176, 74, 136, 194, 249, 89, 185])]

/-- The codecs of the two packets: responses without a body to the jobs 1 and 2. -/
def sampleCodecs : WireCodecs where
  aes := fun _ block => (sampleBlocks.lookup block).getD []
  hmacSha1 := fun _ message =>
    if message[12]? = some 1 then
      [79, 2, 152, 231, 104, 74, 51, 240, 46, 134, 174, 10, 126, 218, 136, 113, 176, 14, 109,
        159]
    else
      [117, 189, 230, 160, 55, 192, 147, 19, 254, 157, 238, 138, 107, 29, 117, 65, 220, 107,
        137, 60]
  gunzip := fun _ => none
  decodeHeader := fun header =>
    if header = [89, 1, 0, 0, 0, 0, 0, 0, 0, 104, 1] then
      some { jobidTarget := some 1, eresult := some 1 }
    else if header = [89, 2, 0, 0, 0, 0, 0, 0, 0, 104, 1] then
      some { jobidTarget := some 2, eresult := some 1 }
    else none
  decodeMulti := fun _ => none
  decodeDepotKeyResponse := fun _ => none
  encodeDepotKeyRequest := fun _ => []

def answerOne : Bytes :=
  [224, 163, 108, 123, 153, 126, 208, 218, 143, 5, 53, 219, 218, 72, 62, 201, 224, 55, 230, 133,
    58, 244, 144, 215, 254, 168, 44, 148, 117, 103, 21, 30, 159, 130, 82, 38, 106, 211, 117, 183,
    115, 226, 70, 237, 159, 39, 44, 249]

def answerTwo : Bytes :=
  [80, 166, 80, 188, 221, 206, 59, 84, 179, 157, 1, 16, 184, 224, 45, 39, 237, 15, 235, 252,
    254, 31, 67, 245, 157, 189, 71, 133, 207, 244, 84, 180, 178, 119, 209, 135, 44, 107, 41, 182,
    178, 92, 42, 215, 134, 84, 62, 175]

def sampleInner : ClientInner where
  cipher := some ⟨⟨.replicate 32 0⟩⟩
  steamId := 76561198000000000
  sessionId := 1

def sampleCall : Request :=
  .callServiceMethod "ContentServerDirectory.GetManifestRequestCode#1" []

/-- Two calls in flight, each receiving when its response has come. -/
theorem responses_not_stolen_sample :
    ∃ client, (machine sampleCodecs).run (loggedIn sampleInner)
        ([.begin sampleCall, .begin sampleCall, .advance 0, .advance 1, .arrive answerOne] ++
          List.replicate 4 (.advance 0) ++ [.arrive answerTwo] ++
          List.replicate 4 (.advance 1)) = some client ∧
      client.handings.length = 2 ∧ ∀ handing ∈ client.handings, handing.NotStolen := by
  have hany : (((machine sampleCodecs).guarded (Undisturbed sampleCodecs)).run
      (loggedIn sampleInner)
        ([.begin sampleCall, .begin sampleCall, .advance 0, .advance 1, .arrive answerOne] ++
          List.replicate 4 (.advance 0) ++ [.arrive answerTwo] ++
          List.replicate 4 (.advance 1))).any
      (fun client => client.handings.length == 2) = true := by
    decide +kernel
  obtain ⟨client, hrun, hlength⟩ := Machine.exists_of_run_any _ hany
  have hundisturbed := Machine.runWhere_of_guarded _ hrun
  exact ⟨client, hundisturbed.run_eq, by simpa using hlength,
    responses_not_stolen sampleInner hundisturbed⟩

/-- Two calls in flight, and the first receives the response to the second. -/
theorem concurrent_response_stolen :
    ¬ ∀ moves client, (machine sampleCodecs).run (loggedIn sampleInner) moves = some client →
      ∀ handing ∈ client.handings, handing.NotStolen := by
  intro hkept
  have hany : ((machine sampleCodecs).run (loggedIn sampleInner)
      [.begin sampleCall, .begin sampleCall, .advance 0, .advance 1, .arrive answerTwo,
        .advance 0, .advance 0, .advance 0]).any
      (fun client => client.handings.any fun handing => ¬ handing.NotStolen) = true := by
    decide +kernel
  obtain ⟨client, hrun, hstolen⟩ := Machine.exists_of_run_any _ hany
  obtain ⟨handing, hmem, hnot⟩ := List.any_eq_true.mp hstolen
  exact of_decide_eq_true hnot (hkept _ client hrun handing hmem)

/-- No two calls are in flight. -/
def AtMostOne (client : SteamClient) : Prop :=
  ∀ (index index' : Nat) (call call' : Call), client.calls[index]? = some call →
    client.calls[index']? = some call' → call.InFlight → call'.InFlight → index = index'

/-- Moving a call in flight to another stage starts no call. -/
theorem set_inFlight {calls : List Call} {index index' : Nat} {call moved call' : Call}
    (hcall : calls[index]? = some call) (hflight : call.InFlight)
    (hcall' : (calls.set index moved)[index']? = some call') (hflight' : call'.InFlight) :
    ∃ before, calls[index']? = some before ∧ before.InFlight := by
  by_cases heq : index = index'
  · subst heq
    exact ⟨call, hcall, hflight⟩
  · rw [List.getElem?_set_ne heq] at hcall'
    exact ⟨call', hcall', hflight'⟩

/-- A call in flight was in flight before the step, or the step began it. -/
theorem step_inFlight {client next : SteamClient} {move : ClientMove}
    (hstep : client.step codecs move = some next) {index : Nat} {call : Call}
    (hcall : next.calls[index]? = some call) (hflight : call.InFlight) :
    (∃ before, client.calls[index]? = some before ∧ before.InFlight) ∨
      ∃ request, move = .begin request ∧ index = client.calls.length := by
  cases step_cases hstep with
  | begins request =>
      obtain ⟨started, hcalls⟩ : ∃ started, (client.start request).calls =
          client.calls ++ [started] := by
        cases request <;> exact ⟨_, rfl⟩
      rw [hcalls] at hcall
      by_cases hold : index < client.calls.length
      · rw [List.getElem?_append_left hold] at hcall
        exact .inl ⟨call, hcall, hflight⟩
      · obtain ⟨hlength, _⟩ := List.getElem?_eq_some_iff.mp hcall
        rw [List.length_append, List.length_singleton] at hlength
        exact .inr ⟨request, rfl, by omega⟩
  | arrives => exact .inl ⟨call, hcall, hflight⟩
  | advances hacting hadvance =>
      exact .inl (set_inFlight hacting (Call.advance_inFlight hadvance) hcall hflight)
  | fails hacting hacts => exact .inl (set_inFlight hacting hacts hcall hflight)
  | drops hacting hacts => exact .inl (set_inFlight hacting hacts hcall hflight)

/-- Calls that are made one after the other do not disturb each other. -/
theorem serial_undisturbed (inner : ClientInner) {moves : List ClientMove} {client : SteamClient}
    (hrun : (machine codecs).RunWhere Serial (loggedIn inner) moves client) :
    (machine codecs).RunWhere (Undisturbed codecs) (loggedIn inner) moves client := by
  have hone : (loggedIn inner).AtMostOne := by
    intro index index' call call' hcall
    cases hcall
  have hstep : ∀ (state : SteamClient) (move : ClientMove) (next : SteamClient),
      state.AtMostOne → state.Serial move → state.step codecs move = some next →
        next.AtMostOne ∧ state.Undisturbed codecs move := by
    intro state move next hone hserial hstep
    constructor
    · intro index index' call call' hcall hcall' hflight hflight'
      -- a call that is in flight now was so before, or has just begun
      obtain ⟨before, hbefore, hwas⟩ | ⟨request, rfl, hindex⟩ := step_inFlight hstep hcall hflight
      · obtain ⟨before', hbefore', hwas'⟩ | ⟨request, rfl, _⟩ :=
          step_inFlight hstep hcall' hflight'
        · exact hone _ _ _ _ hbefore hbefore' hwas hwas'
        · exact absurd hwas (hserial before (List.mem_of_getElem? hbefore))
      · obtain ⟨before', hbefore', hwas'⟩ | ⟨_, _, hindex'⟩ := step_inFlight hstep hcall' hflight'
        · exact absurd hwas' (hserial before' (List.mem_of_getElem? hbefore'))
        · rw [hindex, hindex']
    · cases move with
      | advance index =>
          intro call hcall hreceives waiting hwaiting hother
          obtain ⟨call', hcall', hflight', _⟩ := mem_jobsInFlight.mp hwaiting
          exact absurd (hone _ _ _ _ hcall' hcall hflight' hreceives.inFlight) hother
      | _ => trivial
  exact Machine.RunWhere.weaken _ hstep hone hrun

/-- No step registers a job. -/
theorem step_pendingJobs {client next : SteamClient} {move : ClientMove}
    (hstep : client.step codecs move = some next) :
    next.inner.pendingJobs.Sublist client.inner.pendingJobs := by
  cases step_cases hstep with
  | begins request => cases request <;> exact List.Sublist.refl _
  | arrives | fails | drops => exact List.Sublist.refl _
  | advances hcall hadvance => exact Call.advance_pendingJobs hadvance

/-- A client on which no job is registered never comes to have one. -/
theorem run_pendingJobs {client final : SteamClient} (hpending : client.inner.pendingJobs = [])
    {moves : List ClientMove} (hrun : (machine codecs).run client moves = some final) :
    final.inner.pendingJobs = [] := by
  have hstep : ∀ (state : SteamClient) (move : ClientMove) (next : SteamClient),
      state.inner.pendingJobs = [] → True → state.step codecs move = some next →
        next.inner.pendingJobs = [] := by
    intro state move next hnone _ hstep
    have hsublist := step_pendingJobs hstep
    rw [hnone] at hsublist
    exact List.sublist_nil.mp hsublist
  exact (machine codecs).run_invariant hstep (fun _ _ => trivial) hpending hrun

/-- The receive loop returns the first message of the queue to whoever runs it. -/
theorem step_polling {client : SteamClient} (hpending : client.inner.pendingJobs = [])
    {index : Nat} {call : Call} (hcall : client.calls[index]? = some call)
    (hstage : call.stage = .polling) {msg : IncomingMsg} {rest : List IncomingMsg}
    (hqueue : client.inner.msgQueue = msg :: rest) :
    client.step codecs (.advance index) = some
      { inner := { client.inner with msgQueue := rest }
        calls := client.calls.set index { call with stage := .handed msg }
        handings := client.handings ++ [⟨index, msg, client.calls⟩] } := by
  have hroute : call.route { client.inner with msgQueue := rest } msg =
      ({ client.inner with msgQueue := rest }, some msg) := by
    apply Call.route_unregistered
    exact hpending
  simp only [step, hcall, Call.advance, hstage, hqueue, hroute, Call.afterRoute, handing]

/-- A service call forwards a message that it does not wait for. -/
theorem step_forward {client : SteamClient} {index : Nat} {call : Call}
    (hcall : client.calls[index]? = some call) {methodName : String} {body : Bytes}
    (hrequest : call.request = .callServiceMethod methodName body) {own : UInt64}
    (hown : call.jobId = some own) {msg : IncomingMsg} (hstage : call.stage = .handed msg)
    (hforeign : ¬ msg.Answers own) :
    client.step codecs (.advance index) = some
      { client with
        inner := { client.inner with events := client.inner.events ++ [msg] }
        calls := client.calls.set index { call with stage := .polling } } := by
  have hhandle : call.request.handle codecs call.jobId client.inner msg =
      ({ client.inner with events := client.inner.events ++ [msg] }, .polling) := by
    rw [hrequest, hown]
    exact if_neg hforeign
  simp only [step, hcall, Call.advance, hstage, hhandle, handing, List.append_nil]

/-- After two steps a service call stands where it stood, one message further. -/
theorem run_scan {client : SteamClient} (hpending : client.inner.pendingJobs = []) {index : Nat}
    {methodName : String} {body : Bytes} {own : UInt64}
    (hcall : client.calls[index]? = some ⟨.callServiceMethod methodName body, some own, .polling⟩)
    {msg : IncomingMsg} {rest : List IncomingMsg} (hqueue : client.inner.msgQueue = msg :: rest)
    (hforeign : ¬ msg.Answers own) :
    ∃ next, (machine codecs).run client (List.replicate 2 (.advance index)) = some next ∧
      next.inner.pendingJobs = [] ∧ next.inner.msgQueue = rest ∧ next.calls = client.calls := by
  obtain ⟨hindex, hself⟩ := List.getElem?_eq_some_iff.mp hcall
  refine ⟨_, (Machine.run_cons_eq_some _).mpr ⟨_, step_polling hpending hcall rfl hqueue,
    (Machine.run_cons_eq_some _).mpr
      ⟨_, step_forward (List.getElem?_set_self hindex) rfl rfl rfl hforeign, rfl⟩⟩,
    hpending, rfl, ?_⟩
  simp only [List.set_set, ← hself, List.set_getElem_self]

/-- A response that waits in the queue is stolen by any other service call that
scans the queue, unless a message before it ends that call. -/
theorem scan_steals {index other : Nat} {own job : UInt64} {methodName : String} {body : Bytes}
    {msg : IncomingMsg} (hother : other ≠ index) (hanswers : msg.Answers job)
    {before after : List IncomingMsg} (hbefore : ∀ earlier ∈ before, ¬ earlier.Answers own)
    {client : SteamClient} (hpending : client.inner.pendingJobs = [])
    (hcall : client.calls[index]? = some ⟨.callServiceMethod methodName body, some own, .polling⟩)
    (hqueue : client.inner.msgQueue = before ++ msg :: after)
    (hwaiting : (other, job) ∈ jobsInFlight client.calls) :
    ∃ final, (machine codecs).run client
        (List.replicate (2 * before.length + 1) (.advance index)) = some final ∧
      ∃ handing ∈ final.handings, ¬ handing.NotStolen := by
  induction before generalizing client with
  | nil =>
      refine ⟨_, (Machine.run_cons_eq_some _).mpr
        ⟨_, step_polling hpending hcall rfl hqueue, rfl⟩,
        _, List.mem_append_right _ List.mem_cons_self, ?_⟩
      intro hkept
      exact hother (hkept _ hwaiting hanswers)
  | cons earlier before ih =>
      obtain ⟨next, hscan, hpending', hqueue', hcalls⟩ :=
        run_scan hpending hcall hqueue (hbefore earlier List.mem_cons_self)
      obtain ⟨final, hrun, hstolen⟩ := ih
        (fun earlier' hmem => hbefore earlier' (List.mem_cons_of_mem _ hmem))
        hpending' (hcalls ▸ hcall) hqueue' (hcalls ▸ hwaiting)
      refine ⟨final, ?_, hstolen⟩
      have hcount : 2 * (earlier :: before).length + 1 = 2 + (2 * before.length + 1) := by
        rw [List.length_cons]
        omega
      rw [hcount, List.replicate_add]
      exact (Machine.run_append_eq_some _).mpr ⟨next, hscan, hrun⟩

end SteamClient

end DepotDownloader.Steam
