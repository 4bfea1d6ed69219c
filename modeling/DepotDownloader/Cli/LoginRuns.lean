import DepotDownloader.Cli.LoginSteps

/-! # Runs of a login

However the servers and the user answer, a login tries the servers in order, asks a
bounded number of questions and sends a bounded number of passwords and codes, in all and
to each server.
-/

namespace DepotDownloader.Cli

open Foundation Foundation.LexPath Steam SteamClient
open SteamFfi (GuardType AuthTokens RsaPublicKeyResponse BeginAuthSessionRequest)

/-- The attempt at a password that the login is at. -/
def LoginStage.attempt : LoginStage → Option Nat
  | .readingPassword attempt | .fetchingKey attempt _ | .beginning attempt _ => some attempt
  | _ => none

/-- The stages of the authentication by password. -/
def LoginStage.byPassword : LoginStage → Bool
  | .readingPassword _ | .fetchingKey _ _ | .beginning _ _ | .readingCode _ _ _ _
  | .submitting _ _ _ _ _ | .polling _ _ => true
  | _ => false

def LoginStage.byQr : LoginStage → Bool
  | .beginningQr | .pollingQr _ _ => true
  | _ => false

/-- The servers that have been dialed at a stage, up to the current one. -/
def LoginStage.dials : LoginStage → Nat → Nat
  | .discovering, _ => 0
  | .connecting, position => position
  | _, position => position + 1

def LoginRequest.server : LoginRequest → Option CmServer
  | .connect server => some server
  | _ => none

/-- The servers that have been dialed, the latest last. -/
def dialed (log : List (LoginRequest × LoginAnswer)) : List CmServer :=
  log.reverse.filterMap fun entry => entry.1.server

/-- What has been asked since the last server was dialed. -/
def sinceDial (log : List (LoginRequest × LoginAnswer)) : List (LoginRequest × LoginAnswer) :=
  log.takeWhile fun entry => entry.1.server.isNone

/-- A part of the log in which no server is dialed. -/
structure Undialed (segment log : List (LoginRequest × LoginAnswer)) : Prop where
  within : segment <:+: log
  undialed : ∀ entry ∈ segment, entry.1.server = none

/-- Such a part is in the log from before, or in what has been asked since the last dial. -/
theorem Undialed.of_cons {entry : LoginRequest × LoginAnswer}
    {segment log : List (LoginRequest × LoginAnswer)}
    (hundialed : Undialed segment (entry :: log)) :
    Undialed segment log ∨ segment.Sublist (sinceDial (entry :: log)) := by
  rcases List.infix_cons_iff.mp hundialed.within with ⟨rest, hrest⟩ | hold
  · right
    have hnone : ∀ entry ∈ segment, entry.1.server.isNone = true := fun entry hmem => by
      rw [hundialed.undialed entry hmem]
      rfl
    rw [← hrest, sinceDial, List.takeWhile_append_of_pos hnone]
    exact List.sublist_append_left _ _
  · exact .inl ⟨hold, hundialed.undialed⟩

theorem dialed_cons (entry : LoginRequest × LoginAnswer)
    (log : List (LoginRequest × LoginAnswer)) :
    dialed (entry :: log) = dialed log ++ entry.1.server.toList := by
  unfold dialed
  rw [List.reverse_cons, List.filterMap_append]
  cases hserver : entry.1.server <;> simp [hserver]

namespace LoginContext

/-- What every run of a login keeps. -/
structure LoginShape (ctx : LoginContext) (state : LoginState) : Prop where
  begun : state.stage = .discovering ∧ state.position = 0 ∨
    state.stage ≠ .discovering ∧ state.position < state.servers.length
  attempt : ∀ attempt, state.stage.attempt = some attempt →
    1 ≤ attempt ∧ attempt ≤ maxPasswordAttempts
  username : state.stage.byPassword → ctx.opts.username.isSome
  qr : state.stage.byQr → ctx.opts.username = none
  order : dialed state.log = state.servers.take (state.stage.dials state.position)
  accepted : ∀ server, state.stage = .returned (.ok server) →
    state.servers[state.position]? = some server
  rejected : ∀ error, state.stage = .returned (.error error) →
    error.isAuthError ∨ state.position + 1 = state.servers.length

variable {ctx : LoginContext} {state next : LoginState} {answer : LoginAnswer}

theorem LoginShape.initial (disk : Disk) : LoginShape ctx (.initial disk) where
  begun := .inl ⟨rfl, rfl⟩
  attempt := by simp [LoginState.initial, LoginStage.attempt]
  username := by simp [LoginState.initial, LoginStage.byPassword]
  qr := by simp [LoginState.initial, LoginStage.byQr]
  order := rfl
  accepted := by simp [LoginState.initial]
  rejected := by simp [LoginState.initial]

/-- Where no credentials are asked for only the servers count. -/
theorem LoginShape.unasked (hbegun : state.stage ≠ .discovering)
    (hlt : state.position < state.servers.length) (hattempt : state.stage.attempt = none)
    (hpassword : state.stage.byPassword = false) (hqr : state.stage.byQr = false)
    (horder : dialed state.log = state.servers.take (state.stage.dials state.position))
    (haccepted : ∀ server, state.stage = .returned (.ok server) →
      state.servers[state.position]? = some server)
    (hrejected : ∀ error, state.stage = .returned (.error error) →
      error.isAuthError ∨ state.position + 1 = state.servers.length) :
    LoginShape ctx state where
  begun := .inr ⟨hbegun, hlt⟩
  attempt := by simp [hattempt]
  username := by simp [hpassword]
  qr := by simp [hqr]
  order := horder
  accepted := haccepted
  rejected := hrejected

/-- The login stays on the connection. -/
theorem LoginShape.stay (hshape : LoginShape ctx state) {request : LoginRequest} {disk : Disk}
    {stage : LoginStage} (hstage : state.stage.connected) (hrequest : request.server = none)
    (hnext : stage.connected)
    (hattempt : ∀ attempt, stage.attempt = some attempt →
      1 ≤ attempt ∧ attempt ≤ maxPasswordAttempts)
    (husername : stage.byPassword → ctx.opts.username.isSome)
    (hqr : stage.byQr → ctx.opts.username = none) :
    LoginShape ctx
      { state with stage := stage, disk := disk, log := (request, answer) :: state.log } where
  begun := by
    refine .inr ⟨fun heq => ?_, ?_⟩
    · rw [show stage = .discovering from heq] at hnext
      cases hnext
    · rcases hshape.begun with ⟨hdiscovering, _⟩ | ⟨_, hlt⟩
      · rw [hdiscovering] at hstage
        cases hstage
      · exact hlt
  attempt := hattempt
  username := husername
  qr := hqr
  order := by
    have hdials {stage : LoginStage} (hconnected : stage.connected) :
        stage.dials state.position = state.position + 1 := by
      cases stage <;> first | rfl | cases hconnected
    rw [dialed_cons, hrequest, hshape.order]
    simp only [hdials hstage, hdials hnext, Option.toList_none, List.append_nil]
  accepted server heq := by
    rw [show stage = .returned (.ok server) from heq] at hnext
    cases hnext
  rejected error heq := by
    rw [show stage = .returned (.error error) from heq] at hnext
    cases hnext

theorem LoginShape.stayUnasked (hshape : LoginShape ctx state) {request : LoginRequest}
    {disk : Disk} {stage : LoginStage} (hstage : state.stage.connected)
    (hrequest : request.server = none) (hnext : stage.connected)
    (hattempt : stage.attempt = none) (hpassword : stage.byPassword = false)
    (hqr : stage.byQr = false) :
    LoginShape ctx
      { state with stage := stage, disk := disk, log := (request, answer) :: state.log } :=
  hshape.stay hstage hrequest hnext (by simp [hattempt]) (by simp [hpassword]) (by simp [hqr])

theorem attempt_startAttempt (attempt : Nat) :
    (ctx.startAttempt attempt).attempt = some attempt := by
  unfold startAttempt
  split
  · split <;> rfl
  · rfl

theorem connected_startAttempt (attempt : Nat) : (ctx.startAttempt attempt).connected := by
  unfold startAttempt
  split
  · split <;> rfl
  · rfl

theorem remember_stage (state : LoginState) (username token : String)
    (fault : Option WriteFault) :
    (ctx.remember state username token fault).stage =
      .loggingOn (ctx.userLogon username token) := by
  unfold remember
  split <;> rfl

theorem remember_position (state : LoginState) (username token : String)
    (fault : Option WriteFault) :
    (ctx.remember state username token fault).position = state.position := by
  unfold remember
  split <;> rfl

theorem byQr_startAttempt (attempt : Nat) : (ctx.startAttempt attempt).byQr = false := by
  unfold startAttempt
  split
  · split <;> rfl
  · rfl

/-- An attempt at a server has failed. -/
theorem LoginShape.failed (hshape : LoginShape ctx state) {request : LoginRequest}
    {error : LoginError} (hpending : ctx.pending state = some request)
    (hstage : state.stage = .connecting ∨ state.stage.connected) :
    LoginShape ctx
      { state.fail error with log := (request, answer) :: state.log } := by
  have hlt : state.position < state.servers.length := by
    rcases hshape.begun with ⟨hdiscovering, _⟩ | ⟨_, hlt⟩
    · simp [hdiscovering, LoginStage.connected] at hstage
    · exact hlt
  -- the current server counts as dialed
  have hdialed : dialed ((request, answer) :: state.log) =
      state.servers.take (state.position + 1) := by
    rw [dialed_cons, hshape.order]
    rcases hstage with hconnecting | hconnected
    · simp only [pending, hconnecting] at hpending
      obtain ⟨server, hserver, rfl⟩ := Option.map_eq_some_iff.mp hpending
      rw [hconnecting, List.take_add_one, hserver]
      rfl
    · have hrequest : request.server = none := by
        unfold pending at hpending
        cases hstage : state.stage with
        | discovering | connecting | returned => rw [hstage] at hconnected; cases hconnected
        | readingPassword | fetchingKey =>
            simp only [hstage] at hpending
            obtain ⟨username, _, rfl⟩ := Option.map_eq_some_iff.mp hpending
            rfl
        | _ => simp only [hstage] at hpending; cases hpending; rfl
      rw [hrequest, Option.toList_none, List.append_nil]
      cases hstage : state.stage with
      | discovering | connecting => rw [hstage] at hconnected; cases hconnected
      | _ => rfl
  rcases fail_cases state error with
    ⟨hauth, hfail⟩ | ⟨_, hmore, hfail⟩ | ⟨_, hlast, hfail⟩ <;> rw [hfail]
  · refine .unasked (by simp) hlt rfl rfl rfl hdialed (by simp) fun other heq => ?_
    obtain rfl := Except.error.inj (LoginStage.returned.inj heq)
    exact .inl hauth
  · exact .unasked (by simp) hmore rfl rfl rfl hdialed (by simp) (by simp)
  · exact .unasked (by simp) hlt rfl rfl rfl hdialed (by simp) fun _ _ =>
      .inr (Nat.le_antisymm hlt hlast)

theorem LoginShape.step (hshape : LoginShape ctx state)
    (hstep : ctx.step state answer = some next) :
    LoginShape ctx next := by
  obtain ⟨request, moved, hmove, rfl⟩ := step_cases hstep
  have hconnected {stage : LoginStage} (hstage : state.stage = stage)
      (hconnected : stage.connected = true) : state.stage.connected = true := hstage ▸ hconnected
  have husername {stage : LoginStage} (hstage : state.stage = stage)
      (hpassword : stage.byPassword = true) : ctx.opts.username.isSome :=
    hshape.username (hstage ▸ hpassword)
  have hattempt {stage : LoginStage} {attempt : Nat} (hstage : state.stage = stage)
      (hattempt : stage.attempt = some attempt) : 1 ≤ attempt ∧ attempt ≤ maxPasswordAttempts :=
    hshape.attempt attempt (hstage ▸ hattempt)
  cases hmove with
  | discovered hstage =>
      obtain ⟨_, hposition⟩ | ⟨hnot, _⟩ := hshape.begun
      · refine .unasked (by simp) ?_ rfl rfl rfl ?_ (by simp) (by simp)
        · rw [hposition]
          exact List.length_pos_iff.mpr (discoverServers_tcp _).1
        · rw [dialed_cons, hshape.order, hstage]
          simp [LoginStage.dials, LoginRequest.server, hposition]
      · exact absurd hstage hnot
  | connected hstage hserver =>
      obtain ⟨hdiscovering, _⟩ | ⟨_, hlt⟩ := hshape.begun
      · rw [hstage] at hdiscovering
        cases hdiscovering
      · refine .unasked (by simp) hlt rfl rfl rfl ?_ (by simp) (by simp)
        rw [dialed_cons, hshape.order, hstage]
        simp only [LoginStage.dials, LoginState.goto, LoginRequest.server]
        rw [List.take_add_one, hserver]
  | stored hstage | anonymous hstage =>
      exact hshape.stayUnasked (hconnected hstage rfl) rfl rfl rfl rfl rfl
  | attempts hstage husername =>
      refine hshape.stay (hconnected hstage rfl) rfl (connected_startAttempt 1) ?_ ?_ ?_
      · intro attempt heq
        obtain rfl := Option.some.inj ((attempt_startAttempt 1).symm.trans heq)
        decide
      · rw [husername]
        exact fun _ => rfl
      · simp [byQr_startAttempt]
  | qr hstage hnone =>
      exact hshape.stay (hconnected hstage rfl) rfl rfl (by simp [LoginStage.attempt])
        (by simp [LoginStage.byPassword]) fun _ => hnone
  | passwordRead hstage | prepared hstage =>
      refine hshape.stay (hconnected hstage rfl) rfl rfl ?_ (fun _ => husername hstage rfl)
        (by simp [LoginStage.byQr])
      intro attempt heq
      obtain rfl := Option.some.inj heq
      exact hattempt hstage rfl
  | retried hstage hless =>
      refine hshape.stay (hconnected hstage rfl) rfl (connected_startAttempt _) ?_
        (fun _ => husername hstage rfl) ?_
      · intro attempt heq
        obtain rfl := Option.some.inj ((attempt_startAttempt _).symm.trans heq)
        exact ⟨Nat.succ_pos _, hless⟩
      · simp [byQr_startAttempt]
  | codeAllowed hstage | noCode hstage | codeRead hstage | submitted hstage =>
      exact hshape.stay (hconnected hstage rfl) rfl rfl (by simp [LoginStage.attempt])
        (fun _ => husername hstage rfl) (by simp [LoginStage.byQr])
  | polled hstage =>
      have hpolling : state.stage.connected := by
        rcases hstage with hstage | hstage <;> rw [hstage] <;> rfl
      exact hshape.stay hpolling rfl hpolling hshape.attempt hshape.username hshape.qr
  | authenticated hstage hname =>
      unfold remember
      split <;> exact hshape.stayUnasked (hconnected hstage rfl) rfl rfl rfl rfl rfl
  | qrShown hstage =>
      exact hshape.stay (hconnected hstage rfl) rfl rfl (by simp [LoginStage.attempt])
        (by simp [LoginStage.byPassword]) fun _ => hshape.qr (by rw [hstage]; rfl)
  | qrAuthenticated hstage =>
      exact hshape.stayUnasked (hconnected hstage rfl) rfl rfl rfl rfl rfl
  | loggedIn hstage hserver =>
      obtain ⟨hdiscovering, _⟩ | ⟨_, hlt⟩ := hshape.begun
      · rw [hstage] at hdiscovering
        cases hdiscovering
      · refine .unasked (by simp) hlt rfl rfl rfl ?_ ?_ (by simp)
        · rw [dialed_cons, hshape.order, hstage]
          exact List.append_nil _
        · intro server heq
          obtain rfl := Except.ok.inj (LoginStage.returned.inj heq)
          exact hserver
  | failed hpending hstage => exact hshape.failed hpending hstage

theorem LoginShape.run (hshape : LoginShape ctx state) {answers : List LoginAnswer}
    (hrun : ctx.machine.run state answers = some next) : LoginShape ctx next :=
  ctx.machine.run_invariant (fun _ _ _ hshape (_ : True) hstep => hshape.step hstep)
    (fun _ _ => trivial) hshape hrun

end LoginContext

def LoginAnswer.invalidPassword : LoginAnswer → Bool
  | .failed (.client (.serviceMethodFailed .invalidPassword)) => true
  | _ => false

theorem LoginAnswer.eq_of_invalidPassword {answer : LoginAnswer}
    (hinvalid : answer.invalidPassword = true) :
    answer = .failed (.client (.serviceMethodFailed .invalidPassword)) := by
  unfold invalidPassword at hinvalid
  split at hinvalid
  · rfl
  · cases hinvalid

/-- What is counted: passwords sent, passwords rejected, codes sent, and questions but polls. -/
inductive LoginCharge where
  | passwords
  | rejections
  | codes
  | questions
  deriving DecidableEq

namespace LoginCharge

def counts : LoginCharge → LoginRequest × LoginAnswer → Bool
  | passwords, (.beginViaCredentials _, _) => true
  | rejections, (.beginViaCredentials _, answer) => answer.invalidPassword
  | codes, (.submitSteamGuardCode _ _ _ _, _) => true
  | questions, (.pollAuthSession _ _, _) => false
  | questions, _ => true
  | _, _ => false

/-- The most that a server that has been given up has cost. -/
def perServer : LoginCharge → Nat
  | passwords => 3
  | rejections => 2
  | codes => 1
  | questions => 14

/-- What the last server may cost besides: the question for the list of servers, and the
password whose rejection ends the login. -/
def last : LoginCharge → Nat
  | passwords => 0
  | rejections => 1
  | codes => 0
  | questions => 1

/-- The questions on a connection before the given stage at most, and the one for the list of
servers. -/
def questionCap : LoginStage → Nat
  | .discovering => 0
  | .connecting => 1
  | .encrypting => 2
  | .beginningQr => 3
  | .readingPassword attempt => 3 * attempt
  | .fetchingKey attempt _ => 3 * attempt + 1
  | .beginning attempt _ => 3 * attempt + 2
  | .readingCode _ _ _ _ => 12
  | .submitting _ _ _ _ _ => 13
  | .polling _ _ | .pollingQr _ _ | .loggingOn _ => 14
  | .returned _ => 15

def passwordCap : LoginStage → Nat
  | .discovering | .connecting | .encrypting | .beginningQr => 0
  | .readingPassword attempt | .fetchingKey attempt _ | .beginning attempt _ => attempt - 1
  | _ => 3

def rejectionCap : LoginStage → Nat
  | .discovering | .connecting | .encrypting | .beginningQr => 0
  | .readingPassword attempt | .fetchingKey attempt _ | .beginning attempt _ => attempt - 1
  | .returned _ => 3
  | _ => 2

def codeCap : LoginStage → Nat
  | .polling _ _ | .pollingQr _ _ | .loggingOn _ | .returned _ => 1
  | _ => 0

/-- The most that the current server has cost when the login is at a stage. -/
def cap : LoginCharge → LoginStage → Nat
  | passwords => passwordCap
  | rejections => rejectionCap
  | codes => codeCap
  | questions => questionCap

attribute [simp] cap counts perServer last questionCap passwordCap rejectionCap codeCap

end LoginCharge

namespace LoginContext

variable {ctx : LoginContext} {state next : LoginState} {answer : LoginAnswer}

def spent (charge : LoginCharge) (state : LoginState) : Nat :=
  charge.perServer * state.position + charge.cap state.stage

theorem cap_startAttempt (charge : LoginCharge) (attempt : Nat) :
    charge.cap (.readingPassword attempt) ≤ charge.cap (ctx.startAttempt attempt) := by
  unfold startAttempt
  split
  · split
    · cases charge <;> simp
    · exact Nat.le_refl _
  · exact Nat.le_refl _

/-- What an attempt at a server has cost when it fails: more than a given up server may cost
only if its last password has been rejected, which ends the login. -/
theorem cost_of_failed (charge : LoginCharge) (hshape : LoginShape ctx state)
    {request : LoginRequest} {error : LoginError} (hpending : ctx.pending state = some request)
    (hstage : state.stage = .connecting ∨ state.stage.connected)
    (herror : ∀ failure, answer = .failed failure → error = .steam failure) :
    charge.cap state.stage + (if charge.counts (request, answer) then 1 else 0) ≤
        charge.cap (.returned (.error error)) ∧
      (error.isAuthError = false →
        charge.cap state.stage + (if charge.counts (request, answer) then 1 else 0) ≤
          charge.perServer + charge.cap .connecting) := by
  have hattempt := hshape.attempt
  unfold pending at hpending
  cases hat : state.stage with
  | discovering | returned => simp [hat, LoginStage.connected] at hstage
  | connecting =>
      simp only [hat] at hpending
      obtain ⟨server, _, rfl⟩ := Option.map_eq_some_iff.mp hpending
      cases charge <;> simp
  | readingPassword attempt | fetchingKey attempt password =>
      obtain ⟨hlow, hhigh⟩ := hattempt attempt (by rw [hat]; rfl)
      unfold maxPasswordAttempts at hhigh
      simp only [hat] at hpending
      obtain ⟨username, _, rfl⟩ := Option.map_eq_some_iff.mp hpending
      cases charge <;> simp <;> omega
  | beginning attempt begun =>
      obtain ⟨hlow, hhigh⟩ := hattempt attempt (by rw [hat]; rfl)
      unfold maxPasswordAttempts at hhigh
      simp only [hat, Option.some.injEq] at hpending
      subst hpending
      cases charge with
      | rejections =>
          cases hinvalid : answer.invalidPassword with
          | true =>
              rw [herror _ (answer.eq_of_invalidPassword hinvalid)]
              simp [hinvalid, LoginError.isAuthError]
              omega
          | false =>
              simp [hinvalid]
              omega
      | codes => simp
      | _ => simp; omega
  | _ =>
      simp only [hat, Option.some.injEq] at hpending
      subst hpending
      cases charge <;> simp

/-- A move stays at the server and costs at most what its stages allow, or it gives the
server up. -/
theorem cost_move (charge : LoginCharge) (hshape : LoginShape ctx state)
    {request : LoginRequest} {moved : LoginState}
    (hmove : ctx.LoginMove state request answer moved) :
    moved.position = state.position ∧
        charge.cap state.stage + (if charge.counts (request, answer) then 1 else 0) ≤
          charge.cap moved.stage ∨
      moved.position = state.position + 1 ∧ moved.stage = .connecting ∧
        charge.cap state.stage + (if charge.counts (request, answer) then 1 else 0) ≤
          charge.perServer + charge.cap .connecting := by
  have hattempt {stage : LoginStage} {attempt : Nat} (hstage : state.stage = stage)
      (hattempt : stage.attempt = some attempt) : 1 ≤ attempt ∧ attempt ≤ 3 :=
    hshape.attempt attempt (hstage ▸ hattempt)
  cases hmove with
  | failed hpending hstage herror =>
      obtain ⟨hreturned, hnext⟩ := cost_of_failed charge hshape hpending hstage herror
      rcases fail_cases state _ with ⟨_, hfail⟩ | ⟨hauth, _, hfail⟩ | ⟨_, _, hfail⟩ <;> rw [hfail]
      · exact .inl ⟨rfl, hreturned⟩
      · exact .inr ⟨rfl, rfl, hnext hauth⟩
      · exact .inl ⟨rfl, hreturned⟩
  | discovered hstage | connected hstage | stored hstage | qr hstage | anonymous hstage
  | codeRead hstage | submitted hstage | qrShown hstage | qrAuthenticated hstage
  | loggedIn hstage =>
      refine .inl ⟨rfl, ?_⟩
      cases charge <;> simp [hstage]
  | attempts hstage =>
      have hcap : charge.cap (.readingPassword 1) ≤ charge.cap (ctx.startAttempt 1) :=
        cap_startAttempt charge 1
      have hfirst : charge.cap .encrypting +
          (if charge.counts (.encrypt, .ok) then 1 else 0) ≤ charge.cap (.readingPassword 1) := by
        cases charge <;> simp
      rw [hstage]
      exact .inl ⟨rfl, hfirst.trans hcap⟩
  | passwordRead hstage | prepared hstage =>
      refine .inl ⟨rfl, ?_⟩
      cases charge <;> simp [hstage]
  | @retried attempt begun hstage hless =>
      have hbounds := hattempt hstage rfl
      have hcap : charge.cap (.readingPassword (attempt + 1)) ≤
          charge.cap (ctx.startAttempt (attempt + 1)) := cap_startAttempt charge (attempt + 1)
      have hagain : charge.cap (.beginning attempt begun) + (if charge.counts
          (.beginViaCredentials begun, .failed (.client (.serviceMethodFailed .invalidPassword)))
          then 1 else 0) ≤ charge.cap (.readingPassword (attempt + 1)) := by
        cases charge <;> simp [LoginAnswer.invalidPassword] <;> omega
      rw [hstage]
      exact .inl ⟨rfl, hagain.trans hcap⟩
  | codeAllowed hstage | noCode hstage =>
      have hbounds := hattempt hstage rfl
      refine .inl ⟨rfl, ?_⟩
      cases charge <;> simp [hstage, LoginAnswer.invalidPassword] <;> omega
  | polled hstage =>
      refine .inl ⟨rfl, ?_⟩
      cases charge <;> simp
  | @authenticated _ _ _ fault username token hstage =>
      rw [remember_stage, remember_position, hstage]
      refine .inl ⟨rfl, ?_⟩
      cases charge <;> simp

/-- A move costs at most what its stages allow. -/
theorem spent_move (charge : LoginCharge) (hshape : LoginShape ctx state)
    {request : LoginRequest} {moved : LoginState}
    (hmove : ctx.LoginMove state request answer moved) :
    spent charge state + (if charge.counts (request, answer) then 1 else 0) ≤
      spent charge moved := by
  unfold spent
  rcases cost_move charge hshape hmove with ⟨hposition, hcost⟩ | ⟨hposition, hstage, hcost⟩
  · rw [hposition]
    omega
  · rw [hposition, hstage, Nat.mul_succ]
    omega

/-- The last server may cost one more than one that has been given up. -/
theorem cap_le (charge : LoginCharge) (hshape : LoginShape ctx state) :
    charge.cap state.stage ≤ charge.perServer + charge.last := by
  cases hstage : state.stage with
  | readingPassword attempt | fetchingKey attempt password | beginning attempt request =>
      obtain ⟨hlow, hhigh⟩ := hshape.attempt attempt (by rw [hstage]; rfl)
      unfold maxPasswordAttempts at hhigh
      cases charge <;> simp <;> omega
  | _ => cases charge <;> simp

/-- Only the dial of a server asks for a server. -/
theorem server_of_move {request : LoginRequest} {moved : LoginState}
    (hmove : ctx.LoginMove state request answer moved) :
    request.server.isSome ↔ state.stage = .connecting := by
  cases hmove with
  | failed hpending hstage =>
      unfold pending at hpending
      cases hat : state.stage with
      | connecting =>
          simp only [hat] at hpending
          obtain ⟨server, _, rfl⟩ := Option.map_eq_some_iff.mp hpending
          exact iff_of_true rfl rfl
      | readingPassword | fetchingKey =>
          simp only [hat] at hpending
          obtain ⟨username, _, rfl⟩ := Option.map_eq_some_iff.mp hpending
          simp [LoginRequest.server]
      | returned =>
          simp only [hat] at hpending
          cases hpending
      | _ =>
          simp only [hat] at hpending
          cases hpending
          simp [LoginRequest.server]
  | polled hstage => rcases hstage with hstage | hstage <;> simp [hstage, LoginRequest.server]
  | discovered hstage | connected hstage | stored hstage | attempts hstage | qr hstage
  | anonymous hstage | passwordRead hstage | prepared hstage | retried hstage | codeAllowed hstage
  | noCode hstage | codeRead hstage | submitted hstage | authenticated hstage | qrShown hstage
  | qrAuthenticated hstage | loggedIn hstage => simp [hstage, LoginRequest.server]

/-- What a run has cost so far, in all, at the current server and between any two dials. -/
structure Charged (charge : LoginCharge) (ctx : LoginContext) (state : LoginState) : Prop where
  shape : LoginShape ctx state
  total : state.log.countP charge.counts ≤ spent charge state
  current : state.stage ≠ .connecting →
    (sinceDial state.log).countP charge.counts ≤ charge.cap state.stage
  between : ∀ segment, Undialed segment state.log →
    segment.countP charge.counts ≤ charge.perServer + charge.last

theorem Charged.initial (charge : LoginCharge) (disk : Disk) :
    Charged charge ctx (.initial disk) where
  shape := .initial disk
  total := Nat.zero_le _
  current _ := Nat.zero_le _
  between segment hundialed := by
    rw [List.eq_nil_of_infix_nil hundialed.within]
    exact Nat.zero_le _

theorem Charged.step {charge : LoginCharge} (hcharged : Charged charge ctx state)
    (hstep : ctx.step state answer = some next) : Charged charge ctx next := by
  have hshape := hcharged.shape.step hstep
  obtain ⟨request, moved, hmove, rfl⟩ := step_cases hstep
  have hcost := cost_move charge hcharged.shape hmove
  have hspent : _ ≤ spent charge moved := spent_move charge hcharged.shape hmove
  have hcap := cap_le charge hshape
  have hlast : charge.cap .connecting ≤ charge.last := by cases charge <;> simp
  -- a dial leaves nothing since itself, and every other question adds to what came before
  have hsince : (sinceDial ((request, answer) :: state.log)).countP charge.counts ≤
      charge.cap state.stage + if charge.counts (request, answer) then 1 else 0 := by
    cases hserver : request.server with
    | some server =>
        rw [sinceDial, List.takeWhile_cons_of_neg (by simp [hserver])]
        exact Nat.zero_le _
    | none =>
        have hstage : state.stage ≠ .connecting := by
          rw [Ne, ← server_of_move hmove, hserver]
          simp
        rw [sinceDial, List.takeWhile_cons_of_pos (by simp [hserver]), List.countP_cons]
        exact Nat.add_le_add_right (hcharged.current hstage) _
  refine ⟨hshape, ?_, ?_, ?_⟩
  · rw [List.countP_cons]
    exact (Nat.add_le_add_right hcharged.total _).trans hspent
  · intro hnext
    rcases hcost with ⟨_, hcost⟩ | ⟨_, hconnecting, _⟩
    · exact hsince.trans hcost
    · exact absurd hconnecting hnext
  · intro segment hundialed
    rcases hundialed.of_cons with hold | hnew
    · exact hcharged.between segment hold
    · refine (hnew.countP_le).trans (hsince.trans ?_)
      rcases hcost with ⟨_, hcost⟩ | ⟨_, _, hcost⟩
      · exact hcost.trans hcap
      · exact hcost.trans (Nat.add_le_add_left hlast _)

end LoginContext

/-- The text of a store with one token. -/
def savedTokens : List (TokenStore × Bytes) :=
  [(⟨[("anna", "refresh")]⟩, encodeUtf8
    "\x7b\n  \"tokens\": \x7b\n    \"anna\": \"refresh\"\n  \x7d\n\x7d".toList)]

theorem apart_savedTokens : TableCodec.Apart savedTokens where
  texts := by decide +kernel
  uncounted := by decide +kernel
  nonempty := by decide +kernel

/-- Anna, with the password of the options wrong and a code from the authenticator. -/
def sampleLogin : LoginContext where
  opts :=
    { username := some "anna"
      password := some "old"
      qr := false
      rememberPassword := true
      deviceName := "laptop"
      cellId := none }
  codecs :=
    { Uint := String
      Key := String × String
      fromBeHex := some
      newKey := fun n e => .ok (n, e)
      encrypt := fun _ random data => .ok (random ++ data)
      qrCode := fun _ => .ok ()
      tokens :=
        { toJson := TableCodec.encode savedTokens
          fromJson := TableCodec.decode savedTokens
          fromJson_toJson := fun store =>
            ⟨store, TableCodec.decode_encode apart_savedTokens store, fun _ => rfl⟩
          fromJson_cut := fun store _ hcut =>
            TableCodec.decode_cut apart_savedTokens store hcut } }
  workingDir := ["home"]
  home := none

def sampleLoginAnswers : List LoginAnswer :=
  [.directory none, .failed (.client .io), .ok, .ok, .rsaKey ⟨some "c5", some "010001", some 7⟩ [1],
    .failed (.client (.serviceMethodFailed .invalidPassword)), .line "new",
    .rsaKey ⟨some "c5", some "010001", some 8⟩ [2],
    .session ⟨some 1, some [9], some 3, [some 3, none, some 2]⟩, .line " 2FQ8 ", .ok,
    .polled ⟨none, none, none⟩ none, .polled ⟨some "access", some "refresh", none⟩ none, .ok]

end DepotDownloader.Cli
