import DepotDownloader.Steam.Client.Correlation

/-! # The app queries

The PICS calls and the password check read the messages that the receive loop returns
to them, and pass over those that they do not wait for. Product info comes in several
responses, which are collected until one of them is not followed by another.
-/

namespace DepotDownloader.Steam

open Foundation

namespace SessionRequest

variable (codecs : SessionCodecs)

/-- The app queries, with the number of the message that each waits for. -/
def awaited (request : SessionRequest) : Option EMsg :=
  match request with
  | picsGetAccessTokens _ => some .clientPicsAccessTokenResponse
  | picsGetProductInfo _ => some .clientPicsProductInfoResponse
  | checkBetaPassword _ _ => some .clientCheckAppBetaPasswordResponse
  | _ => none

/-- What a query gains from a message after which it goes on waiting. -/
def gains (request : SessionRequest) (msg : IncomingMsg) : Option (List PicsAppInfo) :=
  if request.awaited = some msg.emsg then
    match request with
    | picsGetProductInfo _ =>
        match codecs.decodeProductInfoResponse msg.body with
        | some body => if body.responsePending.getD false then some body.apps else none
        | none => none
    | _ => none
  else some []

/-- The answer that a query takes from its last message, given the product info collected
before. -/
def answer (request : SessionRequest) (results : List PicsAppInfo) (msg : IncomingMsg) :
    Except SessionError SessionReply :=
  match request with
  | picsGetAccessTokens _ =>
      match codecs.decodeAccessTokenResponse msg.body with
      | none => .error (.client .decode)
      | some entries => .ok (.accessTokens (accessTokens entries))
  | picsGetProductInfo _ =>
      match codecs.decodeProductInfoResponse msg.body with
      | none => .error (.client .decode)
      | some body => .ok (.productInfo (results ++ body.apps))
  | checkBetaPassword appId _ => betaPasswordResponse codecs appId msg
  | _ => .error (.client .decode)

/-- A query goes on with what it gains, or answers. -/
theorem handle_query {request : SessionRequest} (hquery : request.awaited ≠ none)
    (jobId : Option UInt64) (inner : ClientInner) (results : List PicsAppInfo)
    (msg : IncomingMsg) :
    match request.gains codecs msg with
    | some added => request.handle codecs jobId inner results msg =
        (inner, results ++ added, .running .polling)
    | none => (request.handle codecs jobId inner results msg).2.2 =
        .returned (request.answer codecs results msg) := by
  cases request with
  | client | callServiceMethodNonAuthed | sendMsg | sendHeartbeat => exact absurd rfl hquery
  | picsGetAccessTokens =>
      by_cases hemsg : msg.emsg = .clientPicsAccessTokenResponse
      · cases hdecode : codecs.decodeAccessTokenResponse msg.body <;>
          simp [gains, awaited, handle, answer, hemsg, hdecode]
      · simp [gains, awaited, handle, hemsg, Ne.symm hemsg]
  | picsGetProductInfo =>
      by_cases hemsg : msg.emsg = .clientPicsProductInfoResponse
      · cases hdecode : codecs.decodeProductInfoResponse msg.body with
        | none => simp [gains, awaited, handle, answer, hemsg, hdecode]
        | some body =>
            by_cases hpending : body.responsePending.getD false = true <;>
              simp [gains, awaited, handle, answer, hemsg, hdecode, hpending]
      · simp [gains, awaited, handle, hemsg, Ne.symm hemsg]
  | checkBetaPassword =>
      by_cases hemsg : msg.emsg = .clientCheckAppBetaPasswordResponse
      · simp [gains, awaited, handle, answer, hemsg]
      · simp [gains, awaited, handle, hemsg, Ne.symm hemsg]

/-- The messages that a query has read without an answer, and what it has collected. -/
inductive Collects (request : SessionRequest) : List IncomingMsg → List PicsAppInfo → Prop where
  | nil : Collects request [] []
  | snoc {msgs : List IncomingMsg} {results added : List PicsAppInfo} {msg : IncomingMsg}
      (hrest : Collects request msgs results) (hgains : request.gains codecs msg = some added) :
      Collects request (msgs ++ [msg]) (results ++ added)

variable {codecs}

end SessionRequest

namespace SessionCall

/-- A query is a reader of the messages that it was handed: it has collected what they bring,
and it answers at the first that it does not go on after. -/
def Reads (codecs : SessionCodecs) (call : SessionCall) : Prop :=
  match call.stage with
  | .running .abandoned => True
  | .running (.handed msg) => ∃ read, call.handed = read ++ [msg] ∧
      call.request.Collects codecs read call.results
  | .running _ => call.request.Collects codecs call.handed call.results
  | .returned (.ok reply) => ∃ read last results, call.handed = read ++ [last] ∧
      call.request.Collects codecs read results ∧ call.request.gains codecs last = none ∧
      call.request.answer codecs results last = .ok reply
  | .returned (.error _) => True

variable {codecs : SessionCodecs} {inner : ClientInner} {call call' : SessionCall}

theorem reads_fresh (hfresh : call.Fresh) : call.Reads codecs := by
  unfold Reads
  rcases hfresh.stage with hstage | hstage <;> rw [hstage] <;>
    simp only [hfresh.results, hfresh.handed] <;> exact .nil

theorem reads_running {stage : Stage} (hreads : call.Reads codecs)
    (hstage : call.stage = .running stage) (hhanded : ∀ msg, stage ≠ .handed msg)
    (hflight : stage ≠ .abandoned) : call.request.Collects codecs call.handed call.results := by
  unfold Reads at hreads
  rw [hstage] at hreads
  cases stage with
  | handed msg => exact absurd rfl (hhanded msg)
  | abandoned => exact absurd rfl hflight
  | sending | polling | receiving | received | unpacked | returned => exact hreads

/-- A query answers when it handles a message that it does not go on after. -/
theorem reads_handle {msg : IncomingMsg} (hquery : call.request.awaited ≠ none)
    (hreads : call.Reads codecs) (hstage : call.stage = .running (.handed msg)) :
    Reads codecs { call with
      results := (call.request.handle codecs call.jobId inner call.results msg).2.1
      stage := (call.request.handle codecs call.jobId inner call.results msg).2.2 } := by
  unfold Reads at hreads
  rw [hstage] at hreads
  obtain ⟨read, hhanded, hcollects⟩ := hreads
  have hhandle := SessionRequest.handle_query codecs hquery call.jobId inner call.results msg
  cases hgains : call.request.gains codecs msg with
  | some added =>
      rw [hgains] at hhandle
      rw [hhandle]
      exact hhanded ▸ hcollects.snoc hgains
  | none =>
      rw [hgains] at hhandle
      unfold Reads
      simp only [hhandle]
      cases hanswer : call.request.answer codecs call.results msg with
      | error error => trivial
      | ok reply => exact ⟨read, msg, call.results, hhanded, hcollects, hgains, hanswer⟩

theorem reads_change (hreads : call.request.awaited ≠ none → call.Reads codecs)
    (hchange : CallChange codecs inner call call') :
    call'.request.awaited ≠ none → call'.Reads codecs := by
  cases hchange with
  | sends hstage =>
      intro hquery
      have hcollects := reads_running (hreads hquery) hstage nofun nofun
      unfold Reads
      cases hrequest : call.request with
      | client | callServiceMethodNonAuthed | sendMsg | sendHeartbeat =>
          rw [hrequest] at hquery
          exact absurd rfl hquery
      | picsGetAccessTokens | picsGetProductInfo | checkBetaPassword =>
          rw [hrequest] at hcollects
          exact hcollects
  | handles hstage => exact fun hquery => reads_handle hquery (hreads hquery) hstage
  | @hands stage inner' msg hstage hhanded hadvance =>
      intro hquery
      have hflight := Call.advance_inFlight hadvance
      exact ⟨call.handed, rfl, reads_running (hreads hquery) hstage hhanded
        (by rintro rfl; exact hflight)⟩
  | @loops stage stage' inner' hstage hhanded hnext hadvance =>
      intro hquery
      have hflight := Call.advance_inFlight hadvance
      have hcollects := reads_running (hreads hquery) hstage hhanded
        (by rintro rfl; exact hflight)
      cases stage' with
      | handed msg => exact absurd rfl (hnext msg)
      | returned result =>
          cases result with
          | error error => trivial
          | ok reply => exact absurd rfl (Session.loop_ne_ok hadvance hhanded)
      | abandoned => trivial
      | sending | polling | receiving | received | unpacked => exact hcollects
  | ends hended =>
      intro _
      rcases hended with rfl | ⟨reason, rfl⟩ <;> trivial

end SessionCall

namespace Session

/-- The apps that the product info responses among some messages name, in order. -/
def productInfo (codecs : SessionCodecs) (msgs : List IncomingMsg) : List PicsAppInfo :=
  msgs.flatMap fun msg =>
    if msg.emsg = .clientPicsProductInfoResponse then
      (codecs.decodeProductInfoResponse msg.body).elim [] (·.apps)
    else []

/-- The message is a product info response that another one follows. -/
def Pending (codecs : SessionCodecs) (msg : IncomingMsg) : Prop :=
  ∃ body, codecs.decodeProductInfoResponse msg.body = some body ∧ body.responsePending = some true

theorem gains_productInfo {codecs : SessionCodecs} {apps : List AccessToken} {msg : IncomingMsg}
    {added : List PicsAppInfo}
    (hgains : (SessionRequest.picsGetProductInfo apps).gains codecs msg = some added) :
    added = productInfo codecs [msg] ∧
      (msg.emsg = .clientPicsProductInfoResponse → Pending codecs msg) := by
  unfold SessionRequest.gains at hgains
  simp only [SessionRequest.awaited, Option.some.injEq] at hgains
  split at hgains
  next hemsg =>
    split at hgains
    next body hdecode =>
      split at hgains
      next hpending =>
        cases hgains
        refine ⟨by simp [productInfo, ← hemsg, hdecode], fun _ => ⟨body, hdecode, ?_⟩⟩
        cases hcase : body.responsePending with
        | none => simp [hcase] at hpending
        | some pending => simpa [hcase] using hpending
      next => cases hgains
    next => cases hgains
  next hemsg =>
    cases hgains
    exact ⟨by simp [productInfo, Ne.symm hemsg], fun heq => absurd heq.symm hemsg⟩

/-- Product info is complete, in every state of every run and whatever runs beside the call:
when `pics_get_product_info` has returned, it returned the apps of all product info
responses that it was handed, in order; the last message that it was handed is the only one
of these responses that is not followed by another. -/
theorem product_info_exact {codecs : SessionCodecs} {moves : List SessionMove}
    {session : Session} (hrun : (machine codecs).run connect moves = some session)
    {call : SessionCall} (hcall : call ∈ session.calls) {apps : List AccessToken}
    (hrequest : call.request = .picsGetProductInfo apps) {reply : SessionReply}
    (hreturned : call.stage = .returned (.ok reply)) :
    ∃ read last, call.handed = read ++ [last] ∧
      reply = .productInfo (productInfo codecs call.handed) ∧
      (∀ msg ∈ read, msg.emsg = .clientPicsProductInfoResponse → Pending codecs msg) ∧
      last.emsg = .clientPicsProductInfoResponse ∧ ¬ Pending codecs last := by
  have hchange (inner : ClientInner) (call call' : SessionCall)
      (hreads : call.request.awaited ≠ none → call.Reads codecs)
      (hchange : CallChange codecs inner call call') :
      call'.request.awaited ≠ none → call'.Reads codecs := SessionCall.reads_change hreads hchange
  have hreads := calls_invariant (fun call hfresh _ => SessionCall.reads_fresh hfresh) hchange
    hrun call hcall (by rw [hrequest]; exact nofun)
  unfold SessionCall.Reads at hreads
  rw [hreturned, hrequest] at hreads
  obtain ⟨read, last, results, hhanded, hcollects, hlast, hanswer⟩ := hreads
  have hread : results = productInfo codecs read ∧
      ∀ msg ∈ read, msg.emsg = .clientPicsProductInfoResponse → Pending codecs msg := by
    clear hhanded hanswer
    induction hcollects with
    | nil => exact ⟨rfl, nofun⟩
    | snoc _ hgains ih =>
        obtain ⟨hadded, hpending⟩ := gains_productInfo hgains
        refine ⟨?_, List.forall_mem_append.mpr ⟨ih.2, List.forall_mem_singleton.mpr hpending⟩⟩
        rw [ih.1, hadded]
        simp [productInfo]
  have hemsg : last.emsg = .clientPicsProductInfoResponse := by
    by_contra hother
    simp [SessionRequest.gains, SessionRequest.awaited, Ne.symm hother] at hlast
  refine ⟨read, last, hhanded, ?_, hread.2, hemsg, ?_⟩
  · simp only [SessionRequest.answer] at hanswer
    split at hanswer
    next => cases hanswer
    next body hdecode =>
      cases hanswer
      rw [hhanded, hread.1]
      simp [productInfo, hemsg, hdecode]
  · rintro ⟨body, hdecode, hpending⟩
    simp [SessionRequest.gains, SessionRequest.awaited, hemsg, hdecode, hpending] at hlast

/-- The encrypted responses with the product info of two apps. -/
def productInfoPackets : List Bytes :=
  [[209, 189, 92, 48, 119, 187, 218, 127, 149, 188, 189, 176, 7, 161, 131, 60, 9, 177, 190, 47, 0,
    175, 229, 63, 137, 189, 52, 201, 241, 216, 69, 99, 137, 133, 191, 109, 40, 102, 104, 36, 110,
    63, 232, 181, 7, 47, 200, 98],
   [153, 240, 86, 10, 31, 139, 249, 187, 187, 203, 129, 252, 10, 132, 228, 38, 108, 33, 62, 141,
    166, 179, 29, 24, 83, 86, 217, 242, 144, 114, 68, 90]]

/-- A logged-in session that asks for product info and reads both responses. -/
def productInfoMoves : List SessionMove :=
  sessionMoves ++
    [.begin (.picsGetProductInfo [⟨480, 7⟩]), .advance 1 (.replicate 3 13)] ++
    productInfoPackets.map .arrive ++ List.replicate 8 (.advance 1 (.replicate 3 0))

theorem product_info_exact_sample : ∃ session call,
    (machine sessionCodecs).run connect productInfoMoves = some session ∧
      session.calls[1]? = some call ∧ ∃ read last, call.handed = read ++ [last] ∧
        productInfo sessionCodecs call.handed =
          [⟨some 480, some 1, some [0, 8, 8]⟩, ⟨some 481, none, none⟩] := by
  have hany : ((machine sessionCodecs).run connect productInfoMoves).any
      (fun session => (session.calls[1]?).any fun call =>
        decide (call.request = .picsGetProductInfo [⟨480, 7⟩] ∧
          call.stage = .returned (.ok (.productInfo
            [⟨some 480, some 1, some [0, 8, 8]⟩, ⟨some 481, none, none⟩])))) = true := by
    decide +kernel
  obtain ⟨session, hrun, hfound⟩ := Machine.exists_of_run_any _ hany
  obtain ⟨call, hcall, hfound⟩ := (Option.any_eq_true _ _).mp hfound
  obtain ⟨hrequest, hreturned⟩ := of_decide_eq_true hfound
  obtain ⟨read, last, hhanded, hreply, _⟩ :=
    product_info_exact hrun (List.mem_of_getElem? hcall) hrequest hreturned
  exact ⟨session, call, hrun, hcall, read, last, hhanded,
    (SessionReply.productInfo.inj hreply).symm⟩

end Session

end DepotDownloader.Steam
