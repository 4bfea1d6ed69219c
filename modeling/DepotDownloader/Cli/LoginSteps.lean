import DepotDownloader.Cli.Login

/-! # Steps of a login

What one answer of the servers or of the user can lead to.
-/

namespace DepotDownloader.Cli

open Foundation Foundation.LexPath Steam SteamClient
open SteamFfi (GuardType AuthTokens RsaPublicKeyResponse BeginAuthSessionRequest)

namespace LoginState

@[simp] theorem goto_stage (state : LoginState) (stage : LoginStage) :
    (state.goto stage).stage = stage := rfl

@[simp] theorem goto_servers (state : LoginState) (stage : LoginStage) :
    (state.goto stage).servers = state.servers := rfl

@[simp] theorem goto_position (state : LoginState) (stage : LoginStage) :
    (state.goto stage).position = state.position := rfl

@[simp] theorem goto_disk (state : LoginState) (stage : LoginStage) :
    (state.goto stage).disk = state.disk := rfl

@[simp] theorem fail_servers (state : LoginState) (error : LoginError) :
    (state.fail error).servers = state.servers := by
  unfold fail
  split
  · rfl
  · split <;> rfl

@[simp] theorem fail_disk (state : LoginState) (error : LoginError) :
    (state.fail error).disk = state.disk := by
  unfold fail
  split
  · rfl
  · split <;> rfl

end LoginState

namespace LoginStage

/-- The login is on a connection. -/
def connected : LoginStage → Bool
  | .discovering | .connecting | .returned _ => false
  | _ => true

end LoginStage

namespace LoginContext

variable (ctx : LoginContext)

/-- What an answer can lead to, besides the log. -/
inductive LoginMove (state : LoginState) : LoginRequest → LoginAnswer → LoginState → Prop
  | discovered {resp : Option Json} (hstage : state.stage = .discovering) :
      LoginMove state (.fetchCmServers ctx.cellId) (.directory resp)
        { state with servers := discoverServers resp, stage := .connecting }
  | connected {server : CmServer} (hstage : state.stage = .connecting)
      (hserver : state.servers[state.position]? = some server) :
      LoginMove state (.connect server) .ok (state.goto .encrypting)
  | stored {username token : String} (hstage : state.stage = .encrypting)
      (husername : ctx.opts.username = some username)
      (htoken : (ctx.loadTokens state.disk).get username = some token) :
      LoginMove state .encrypt .ok (state.goto (.loggingOn (ctx.userLogon username token)))
  | attempts {username : String} (hstage : state.stage = .encrypting)
      (husername : ctx.opts.username = some username)
      (htoken : (ctx.loadTokens state.disk).get username = none) :
      LoginMove state .encrypt .ok (state.goto (ctx.startAttempt 1))
  | qr (hstage : state.stage = .encrypting) (husername : ctx.opts.username = none) :
      LoginMove state .encrypt .ok (state.goto .beginningQr)
  | anonymous (hstage : state.stage = .encrypting) (husername : ctx.opts.username = none) :
      LoginMove state .encrypt .ok
        (state.goto (.loggingOn
          (ctx.logonMsg none none none SteamFfi.anonUserAccount)))
  | passwordRead {attempt : Nat} {username text : String}
      (hstage : state.stage = .readingPassword attempt) :
      LoginMove state (.readPassword username) (.line text)
        (state.goto (.fetchingKey attempt text))
  | prepared {attempt : Nat} {username password : String} {resp : RsaPublicKeyResponse}
      {random : Bytes} {request : BeginAuthSessionRequest}
      (hstage : state.stage = .fetchingKey attempt password) :
      LoginMove state (.getPasswordRsaPublicKey username) (.rsaKey resp random)
        (state.goto (.beginning attempt request))
  | retried {attempt : Nat} {request : BeginAuthSessionRequest}
      (hstage : state.stage = .beginning attempt request)
      (hattempt : attempt < maxPasswordAttempts) :
      LoginMove state (.beginViaCredentials request)
        (.failed (.client (.serviceMethodFailed .invalidPassword)))
        (state.goto (ctx.startAttempt (attempt + 1)))
  | codeAllowed {attempt : Nat} {request : BeginAuthSessionRequest}
      {resp : BeginAuthSessionResponse} {clientId steamId : UInt64} {requestId : Bytes}
      {kind : GuardType} (hstage : state.stage = .beginning attempt request) :
      LoginMove state (.beginViaCredentials request) (.session resp)
        (state.goto (.readingCode clientId steamId requestId kind))
  | noCode {attempt : Nat} {request : BeginAuthSessionRequest} {resp : BeginAuthSessionResponse}
      {clientId : UInt64} {requestId : Bytes} (hstage : state.stage = .beginning attempt request) :
      LoginMove state (.beginViaCredentials request) (.session resp)
        (state.goto (.polling clientId requestId))
  | codeRead {clientId steamId : UInt64} {requestId : Bytes} {kind : GuardType}
      {text code : String} (hstage : state.stage = .readingCode clientId steamId requestId kind) :
      LoginMove state (.readCode kind) (.line text)
        (state.goto (.submitting clientId steamId requestId kind code))
  | submitted {clientId steamId : UInt64} {requestId : Bytes} {kind : GuardType} {code : String}
      (hstage : state.stage = .submitting clientId steamId requestId kind code) :
      LoginMove state (.submitSteamGuardCode clientId steamId code kind) .ok
        (state.goto (.polling clientId requestId))
  | polled {clientId : UInt64} {requestId : Bytes} {resp : PollResponse}
      {fault : Option WriteFault}
      (hstage : state.stage = .polling clientId requestId ∨
        state.stage = .pollingQr clientId requestId) :
      LoginMove state (.pollAuthSession clientId requestId) (.polled resp fault) state
  | authenticated {clientId : UInt64} {requestId : Bytes} {resp : PollResponse}
      {fault : Option WriteFault} {username token : String}
      (hstage : state.stage = .polling clientId requestId)
      (husername : ctx.opts.username = some username) :
      LoginMove state (.pollAuthSession clientId requestId) (.polled resp fault)
        (ctx.remember state username token fault)
  | qrShown {resp : BeginQrResponse} {clientId : UInt64} {requestId : Bytes}
      (hstage : state.stage = .beginningQr) :
      LoginMove state (.beginViaQr ctx.opts.deviceName 2) (.qrSession resp)
        (state.goto (.pollingQr clientId requestId))
  | qrAuthenticated {clientId : UInt64} {requestId : Bytes} {resp : PollResponse}
      {fault : Option WriteFault} {message : LogonMsg}
      (hstage : state.stage = .pollingQr clientId requestId) :
      LoginMove state (.pollAuthSession clientId requestId) (.polled resp fault)
        (state.goto (.loggingOn message))
  | loggedIn {message : LogonMsg} {server : CmServer} (hstage : state.stage = .loggingOn message)
      (hserver : state.servers[state.position]? = some server) :
      LoginMove state (.logon message) .ok (state.goto (.returned (.ok server)))
  | failed {request : LoginRequest} {answer : LoginAnswer} {error : LoginError}
      (hpending : ctx.pending state = some request)
      (hstage : state.stage = .connecting ∨ state.stage.connected)
      (herror : ∀ failure, answer = .failed failure → error = .steam failure) :
      LoginMove state request answer (state.fail error)

variable {ctx} {state next : LoginState} {answer : LoginAnswer}

theorem authenticate_cases (hstage : state.stage = .encrypting) :
    ctx.LoginMove state .encrypt .ok (ctx.authenticate state) := by
  unfold authenticate
  split
  next username husername =>
    split
    next token htoken => exact .stored hstage husername htoken
    next htoken => exact .attempts hstage husername htoken
  next husername =>
    split
    · exact .qr hstage husername
    · exact .anonymous hstage husername

theorem confirm_cases {attempt : Nat} {request : BeginAuthSessionRequest}
    {resp : BeginAuthSessionResponse} (hstage : state.stage = .beginning attempt request) :
    ctx.LoginMove state (.beginViaCredentials request) (.session resp)
      (confirm state (authSession resp)) := by
  have hfailed (message : String) :
      ctx.LoginMove state (.beginViaCredentials request) (.session resp)
        (state.fail (.other message)) :=
    .failed (by simp only [pending, hstage]) (.inr (by rw [hstage]; rfl)) nofun
  unfold confirm
  split
  · exact hfailed _
  · exact hfailed _
  · exact hfailed _
  · split
    · exact .codeAllowed hstage
    · exact .noCode hstage

theorem showQr_cases {resp : BeginQrResponse} (hstage : state.stage = .beginningQr) :
    ctx.LoginMove state (.beginViaQr ctx.opts.deviceName 2) (.qrSession resp)
      (ctx.showQr state resp) := by
  have hfailed (message : String) :
      ctx.LoginMove state (.beginViaQr ctx.opts.deviceName 2) (.qrSession resp)
        (state.fail (.other message)) :=
    .failed (by simp only [pending, hstage]) (.inr (by rw [hstage]; rfl)) nofun
  unfold showQr
  split
  · exact hfailed _
  · exact hfailed _
  · exact hfailed _
  · split
    · exact hfailed _
    · exact .qrShown hstage

/-- Every answer leads to one of the listed moves. -/
theorem answered_cases {request : LoginRequest} (hpending : ctx.pending state = some request)
    (hanswered : ctx.answered state answer = some next) :
    ctx.LoginMove state request answer next := by
  have hfailed (error : SessionError) (hstage : state.stage = .connecting ∨ state.stage.connected)
      (hnext : some (state.fail (.steam error)) = some next) (hanswer : answer = .failed error) :
      ctx.LoginMove state request answer next := by
    cases hnext
    refine .failed hpending hstage fun failure hfailure => ?_
    obtain rfl := LoginAnswer.failed.inj (hanswer.symm.trans hfailure)
    rfl
  unfold answered at hanswered
  cases hstage : state.stage with
  | discovering =>
      simp only [pending, hstage, Option.some.injEq] at hpending
      cases answer with
      | directory resp =>
          simp only [hstage, if_neg (discoverServers_tcp resp).1] at hanswered
          cases hanswered
          cases hpending
          exact .discovered hstage
      | _ => simp only [hstage] at hanswered; cases hanswered
  | connecting =>
      cases answer with
      | ok =>
          simp only [hstage] at hanswered
          cases hanswered
          simp only [pending, hstage] at hpending
          obtain ⟨server, hserver, rfl⟩ := Option.map_eq_some_iff.mp hpending
          exact .connected hstage hserver
      | failed error =>
          simp only [hstage] at hanswered
          exact hfailed error (.inl hstage) hanswered rfl
      | _ => simp only [hstage] at hanswered; cases hanswered
  | encrypting =>
      cases answer with
      | ok =>
          simp only [hstage] at hanswered
          cases hanswered
          simp only [pending, hstage, Option.some.injEq] at hpending
          subst hpending
          exact authenticate_cases hstage
      | failed error =>
          simp only [hstage] at hanswered
          exact hfailed error (.inr (by rw [hstage]; rfl)) hanswered rfl
      | _ => simp only [hstage] at hanswered; cases hanswered
  | readingPassword attempt =>
      cases answer with
      | line text =>
          simp only [hstage] at hanswered
          cases hanswered
          simp only [pending, hstage] at hpending
          obtain ⟨username, _, rfl⟩ := Option.map_eq_some_iff.mp hpending
          exact .passwordRead hstage
      | unreadable reason =>
          simp only [hstage] at hanswered
          cases hanswered
          exact .failed hpending (.inr (by rw [hstage]; rfl)) nofun
      | _ => simp only [hstage] at hanswered; cases hanswered
  | fetchingKey attempt password =>
      cases answer with
      | rsaKey resp random =>
          simp only [hstage] at hanswered
          obtain ⟨username, husername, rfl⟩ := Option.map_eq_some_iff.mp hanswered
          split
          next => exact .failed hpending (.inr (by rw [hstage]; rfl)) nofun
          next =>
            simp only [pending, hstage, husername, Option.map_some, Option.some.injEq] at hpending
            subst hpending
            exact .prepared hstage
      | failed error =>
          simp only [hstage] at hanswered
          exact hfailed error (.inr (by rw [hstage]; rfl)) hanswered rfl
      | _ => simp only [hstage] at hanswered; cases hanswered
  | beginning attempt begun =>
      cases answer with
      | session resp =>
          simp only [hstage] at hanswered
          cases hanswered
          simp only [pending, hstage, Option.some.injEq] at hpending
          subst hpending
          exact confirm_cases hstage
      | failed error =>
          simp only [hstage] at hanswered
          split at hanswered
          next hretry =>
            cases hanswered
            obtain ⟨rfl, hattempt⟩ := hretry
            simp only [pending, hstage, Option.some.injEq] at hpending
            subst hpending
            exact .retried hstage hattempt
          next => exact hfailed error (.inr (by rw [hstage]; rfl)) hanswered rfl
      | _ => simp only [hstage] at hanswered; cases hanswered
  | readingCode clientId steamId requestId kind =>
      cases answer with
      | line text =>
          simp only [hstage] at hanswered
          cases hanswered
          simp only [pending, hstage, Option.some.injEq] at hpending
          subst hpending
          exact .codeRead hstage
      | unreadable reason =>
          simp only [hstage] at hanswered
          cases hanswered
          exact .failed hpending (.inr (by rw [hstage]; rfl)) nofun
      | _ => simp only [hstage] at hanswered; cases hanswered
  | submitting clientId steamId requestId kind code =>
      cases answer with
      | ok =>
          simp only [hstage] at hanswered
          cases hanswered
          simp only [pending, hstage, Option.some.injEq] at hpending
          subst hpending
          exact .submitted hstage
      | failed error =>
          simp only [hstage] at hanswered
          exact hfailed error (.inr (by rw [hstage]; rfl)) hanswered rfl
      | _ => simp only [hstage] at hanswered; cases hanswered
  | polling clientId requestId =>
      cases answer with
      | polled resp fault =>
          simp only [pending, hstage, Option.some.injEq] at hpending
          subst hpending
          simp only [hstage] at hanswered
          split at hanswered
          next =>
            cases hanswered
            exact .polled (.inl hstage)
          next tokens _ =>
            obtain ⟨username, husername, rfl⟩ := Option.map_eq_some_iff.mp hanswered
            exact .authenticated hstage husername
      | failed error =>
          simp only [hstage] at hanswered
          exact hfailed error (.inr (by rw [hstage]; rfl)) hanswered rfl
      | _ => simp only [hstage] at hanswered; cases hanswered
  | beginningQr =>
      cases answer with
      | qrSession resp =>
          simp only [hstage] at hanswered
          cases hanswered
          simp only [pending, hstage, Option.some.injEq] at hpending
          subst hpending
          exact showQr_cases hstage
      | failed error =>
          simp only [hstage] at hanswered
          exact hfailed error (.inr (by rw [hstage]; rfl)) hanswered rfl
      | _ => simp only [hstage] at hanswered; cases hanswered
  | pollingQr clientId requestId =>
      cases answer with
      | polled resp fault =>
          simp only [pending, hstage, Option.some.injEq] at hpending
          subst hpending
          simp only [hstage] at hanswered
          split at hanswered
          next =>
            cases hanswered
            exact .polled (.inr hstage)
          next tokens _ =>
            cases hanswered
            exact .qrAuthenticated hstage
      | failed error =>
          simp only [hstage] at hanswered
          exact hfailed error (.inr (by rw [hstage]; rfl)) hanswered rfl
      | _ => simp only [hstage] at hanswered; cases hanswered
  | loggingOn message =>
      cases answer with
      | ok =>
          simp only [hstage] at hanswered
          obtain ⟨server, hserver, rfl⟩ := Option.map_eq_some_iff.mp hanswered
          simp only [pending, hstage, Option.some.injEq] at hpending
          subst hpending
          exact .loggedIn hstage hserver
      | failed error =>
          simp only [hstage] at hanswered
          exact hfailed error (.inr (by rw [hstage]; rfl)) hanswered rfl
      | _ => simp only [hstage] at hanswered; cases hanswered
  | returned result => simp only [pending, hstage] at hpending; cases hpending

theorem step_cases (hstep : ctx.step state answer = some next) :
    ∃ request moved, ctx.LoginMove state request answer moved ∧
      next = { moved with log := (request, answer) :: state.log } := by
  unfold step at hstep
  split at hstep
  next request moved hpending hanswered =>
    cases hstep
    exact ⟨request, moved, answered_cases hpending hanswered, rfl⟩
  next => cases hstep

/-- The three ways in which an attempt at a server ends in an error. -/
theorem fail_cases (state : LoginState) (error : LoginError) :
    (error.isAuthError = true ∧ state.fail error = state.goto (.returned (.error error))) ∨
      (error.isAuthError = false ∧ state.position + 1 < state.servers.length ∧
        state.fail error = { state with stage := .connecting, position := state.position + 1 }) ∨
      (error.isAuthError = false ∧ state.servers.length ≤ state.position + 1 ∧
        state.fail error = state.goto (.returned (.error error))) := by
  unfold LoginState.fail
  split
  next hauth => exact .inl ⟨hauth, rfl⟩
  next hauth =>
    rw [Bool.not_eq_true] at hauth
    split
    next hmore => exact .inr (.inl ⟨hauth, hmore, rfl⟩)
    next hmore => exact .inr (.inr ⟨hauth, Nat.le_of_not_lt hmore, rfl⟩)

end LoginContext

end DepotDownloader.Cli
