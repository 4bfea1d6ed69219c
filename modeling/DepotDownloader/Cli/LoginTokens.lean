import DepotDownloader.Cli.LoginRuns

/-! # Remembered logins

A login with `--remember-password` stores the token it has logged on with. With a stored
token a login asks for no credentials at all.
-/

namespace DepotDownloader.Cli

open Foundation Foundation.LexPath Steam SteamClient
open SteamFfi (GuardType AuthTokens RsaPublicKeyResponse BeginAuthSessionRequest)

/-- No question is put to the user, and no credentials are sent but those of the message. -/
def LoginRequest.Silent (message : LogonMsg) : LoginRequest → Prop
  | .fetchCmServers _ | .connect _ | .encrypt => True
  | .logon sent => sent = message
  | _ => False

/-- The stages of a login that has a token. -/
def LoginStage.Silent (message : LogonMsg) : LoginStage → Prop
  | .discovering | .connecting | .encrypting | .returned _ => True
  | .loggingOn sent => sent = message
  | _ => False

namespace LoginContext

section Tokens

variable {ctx : LoginContext} {state next : LoginState} {answer : LoginAnswer} {disk : Disk}
  {username token : String}

/-- A login with a stored token: the disk is as it was, and nothing else has been asked. -/
structure Silent (ctx : LoginContext) (disk : Disk) (message : LogonMsg) (state : LoginState) :
    Prop where
  stage : state.stage.Silent message
  disk : state.disk = disk
  log : ∀ entry ∈ state.log, entry.1.Silent message

theorem Silent.step (husername : ctx.opts.username = some username)
    (hstored : (ctx.loadTokens disk).get username = some token)
    (hsilent : Silent ctx disk (ctx.userLogon username token) state)
    (hstep : ctx.step state answer = some next) :
    Silent ctx disk (ctx.userLogon username token) next := by
  obtain ⟨request, moved, hmove, rfl⟩ := step_cases hstep
  have hstage := hsilent.stage
  have hlog {request : LoginRequest}
      (hrequest : request.Silent (ctx.userLogon username token)) :
      ∀ entry ∈ (request, answer) :: state.log, entry.1.Silent (ctx.userLogon username token) :=
    List.forall_mem_cons.mpr ⟨hrequest, hsilent.log⟩
  cases hmove with
  | discovered | connected => exact ⟨trivial, hsilent.disk, hlog trivial⟩
  | stored _ hname htoken =>
      obtain rfl := Option.some.inj (husername.symm.trans hname)
      rw [hsilent.disk] at htoken
      obtain rfl := Option.some.inj (hstored.symm.trans htoken)
      exact ⟨rfl, hsilent.disk, hlog trivial⟩
  | attempts _ hname htoken =>
      obtain rfl := Option.some.inj (husername.symm.trans hname)
      rw [hsilent.disk, hstored] at htoken
      cases htoken
  | qr _ hnone | anonymous _ hnone =>
      rw [husername] at hnone
      cases hnone
  | loggedIn hat =>
      rw [hat] at hstage
      exact ⟨trivial, hsilent.disk, hlog hstage⟩
  | failed hpending hat =>
      have hrequest : request.Silent (ctx.userLogon username token) := by
        unfold pending at hpending
        cases hcase : state.stage with
        | discovering | encrypting =>
            simp only [hcase, Option.some.injEq] at hpending
            subst hpending
            trivial
        | connecting =>
            simp only [hcase] at hpending
            obtain ⟨server, _, rfl⟩ := Option.map_eq_some_iff.mp hpending
            trivial
        | loggingOn message =>
            simp only [hcase, Option.some.injEq] at hpending
            subst hpending
            rw [hcase] at hstage
            exact hstage
        | returned result => simp only [hcase] at hpending; cases hpending
        | _ => rw [hcase] at hstage; exact hstage.elim
      refine ⟨?_, (state.fail_disk _).trans hsilent.disk, hlog hrequest⟩
      rcases fail_cases state _ with ⟨_, hfail⟩ | ⟨_, _, hfail⟩ | ⟨_, _, hfail⟩ <;> rw [hfail] <;>
        trivial
  | polled hat => rcases hat with hat | hat <;> rw [hat] at hstage <;> exact hstage.elim
  | passwordRead hat | prepared hat | retried hat | codeAllowed hat | noCode hat | codeRead hat
  | submitted hat | authenticated hat | qrShown hat | qrAuthenticated hat =>
      rw [hat] at hstage
      exact hstage.elim

/-- With a stored token the login is silent, and keeps the token even if it is rejected. -/
theorem silent_run (husername : ctx.opts.username = some username)
    (hstored : (ctx.loadTokens disk).get username = some token) {answers : List LoginAnswer}
    (hrun : ctx.machine.run (.initial disk) answers = some state) :
    Silent ctx disk (ctx.userLogon username token) state :=
  ctx.machine.run_invariant
    (fun _ _ _ hsilent (_ : True) hstep => hsilent.step husername hstored hstep)
    (fun _ _ => trivial) ⟨by trivial, rfl, List.forall_mem_nil _⟩ hrun

/-- What has been saved to the end is loaded again. -/
theorem get_loadTokens_save (store : TokenStore) (disk : Disk) (username : String) :
    (ctx.loadTokens (store.save ctx.codecs.tokens ctx.workingDir disk ctx.tokenPath none)).get
      username = store.get username := by
  obtain ⟨store', hdecode, hsame⟩ := ctx.codecs.tokens.fromJson_toJson store
  unfold loadTokens TokenStore.load TokenStore.save
  rw [read_writeFile]
  simp only [hdecode, Option.getD_some]
  exact hsame username

/-- A login that remembers: the token it logs on with is stored, and the others are kept. -/
structure Remembers (ctx : LoginContext) (disk : Disk) (username : String) (state : LoginState) :
    Prop where
  shape : LoginShape ctx state
  others : ∀ other, other ≠ username →
    (ctx.loadTokens state.disk).get other = (ctx.loadTokens disk).get other
  logging : ∀ message, state.stage = .loggingOn message →
    ∃ token, message = ctx.userLogon username token ∧
      (ctx.loadTokens state.disk).get username = some token
  accepted : ∀ server, state.stage = .returned (.ok server) →
    ∃ token, state.log.head? = some (.logon (ctx.userLogon username token), .ok) ∧
      (ctx.loadTokens state.disk).get username = some token

theorem Remembers.step (husername : ctx.opts.username = some username)
    (hremember : ctx.opts.rememberPassword = true)
    (hremembers : Remembers ctx disk username state)
    (hfault : ∀ resp fault, answer = .polled resp fault → fault = none)
    (hstep : ctx.step state answer = some next) : Remembers ctx disk username next := by
  have hshape := hremembers.shape.step hstep
  have hname {other : String} (hother : ctx.opts.username = some other) : username = other :=
    Option.some.inj (husername.symm.trans hother)
  -- the stages that say nothing about the token
  have hkeep {stage : LoginStage} {servers : List CmServer}
      {log : List (LoginRequest × LoginAnswer)}
      (hshape : LoginShape ctx { state with stage := stage, servers := servers, log := log })
      (hlogging : ∀ message, stage ≠ .loggingOn message)
      (haccepted : ∀ server, stage ≠ .returned (.ok server)) :
      Remembers ctx disk username
        { state with stage := stage, servers := servers, log := log } :=
    ⟨hshape, hremembers.others, fun message heq => absurd heq (hlogging message),
      fun server heq => absurd heq (haccepted server)⟩
  have hstart (attempt : Nat) : (∀ message, ctx.startAttempt attempt ≠ .loggingOn message) ∧
      ∀ server, ctx.startAttempt attempt ≠ .returned (.ok server) := by
    have hattempt := @attempt_startAttempt ctx attempt
    constructor <;> intro _ heq <;> rw [heq] at hattempt <;> cases hattempt
  obtain ⟨request, moved, hmove, rfl⟩ := step_cases hstep
  cases hmove with
  | stored _ hother htoken =>
      obtain rfl := hname hother
      refine ⟨hshape, hremembers.others, fun message heq => ?_, by simp⟩
      obtain rfl := LoginStage.loggingOn.inj heq
      exact ⟨_, rfl, htoken⟩
  | qr _ hnone | anonymous _ hnone =>
      rw [husername] at hnone
      cases hnone
  | @authenticated _ _ _ fault _ token _ hother =>
      obtain rfl := hname hother
      obtain rfl := hfault _ _ rfl
      have hsaved (user : String) :
          (ctx.loadTokens (ctx.remember state username token none).disk).get user =
            ((ctx.loadTokens state.disk).set username token).get user := by
        unfold remember
        rw [if_pos hremember]
        exact get_loadTokens_save _ _ user
      have hstage := @remember_stage ctx state username token none
      refine ⟨hshape, fun user hne => ?_, fun message heq => ?_, fun server heq => ?_⟩
      · rw [hsaved]
        exact ((TokenStore.format ctx.codecs.tokens).get_set_of_ne _ _ _ user hne).trans
          (hremembers.others user hne)
      · obtain rfl := LoginStage.loggingOn.inj (hstage.symm.trans heq)
        refine ⟨token, rfl, ?_⟩
        rw [hsaved]
        exact (TokenStore.format ctx.codecs.tokens).get_set_self _ _ _
      · cases hstage.symm.trans heq
  | qrShown hat | qrAuthenticated hat =>
      have hnone := hremembers.shape.qr (by rw [hat]; rfl)
      rw [husername] at hnone
      cases hnone
  | polled hat =>
      refine ⟨hshape, hremembers.others, hremembers.logging, fun server heq => ?_⟩
      rcases hat with hat | hat <;> cases hat.symm.trans heq
  | loggedIn hat =>
      obtain ⟨token, rfl, htoken⟩ := hremembers.logging _ hat
      exact ⟨hshape, hremembers.others, by simp, fun _ _ => ⟨token, rfl, htoken⟩⟩
  | @failed _ _ error =>
      have hfailed : (∀ message, (state.fail error).stage ≠ .loggingOn message) ∧
          ∀ server, (state.fail error).stage ≠ .returned (.ok server) := by
        rcases fail_cases state error with ⟨_, hfail⟩ | ⟨_, _, hfail⟩ | ⟨_, _, hfail⟩ <;>
          rw [hfail] <;> simp
      refine ⟨hshape, ?_, fun message heq => absurd heq (hfailed.1 message),
        fun server heq => absurd heq (hfailed.2 server)⟩
      simp only [LoginState.fail_disk]
      exact hremembers.others
  | attempts | retried =>
      exact hkeep hshape (hstart _).1 (hstart _).2
  | discovered | connected | passwordRead | prepared | codeAllowed | noCode | codeRead
  | submitted => exact hkeep hshape (by simp) (by simp)

/-- A later invocation, with other options. -/
def withOptions (ctx : LoginContext) (opts : LoginOptions) : LoginContext :=
  { ctx with opts := opts }

/-- A login with `--remember-password` stores the token it has logged on with and keeps those of
other users. From then on every login of the user, whatever its other options and however it
ends, sends this token and nothing else, asks the user nothing, and leaves the tokens alone. -/
theorem token_remembered (husername : ctx.opts.username = some username)
    (hremember : ctx.opts.rememberPassword = true) {answers : List LoginAnswer}
    (hfaults : ∀ answer ∈ answers, ∀ resp fault, answer = .polled resp fault → fault = none)
    (hrun : ctx.machine.run (.initial disk) answers = some state) {server : CmServer}
    (hok : state.stage = .returned (.ok server)) :
    ∃ token, state.log.head? = some (.logon (ctx.userLogon username token), .ok) ∧
      (ctx.loadTokens state.disk).get username = some token ∧
      (∀ other, other ≠ username →
        (ctx.loadTokens state.disk).get other = (ctx.loadTokens disk).get other) ∧
      ∀ (opts : LoginOptions) (later : List LoginAnswer) (last : LoginState),
        opts.username = some username →
          (ctx.withOptions opts).machine.run (.initial state.disk) later = some last →
            last.disk = state.disk ∧
              ∀ entry ∈ last.log, entry.1.Silent ((ctx.withOptions opts).userLogon username token)
    := by
  have hinitial : Remembers ctx disk username (.initial disk) :=
    ⟨.initial disk, fun _ _ => rfl, by simp [LoginState.initial], by simp [LoginState.initial]⟩
  have hremembers := ctx.machine.run_invariant
    (fun _ _ _ hremembers hfault hstep => hremembers.step husername hremember hfault hstep)
    hfaults hinitial hrun
  obtain ⟨token, hlogon, hstored⟩ := hremembers.accepted server hok
  refine ⟨token, hlogon, hstored, hremembers.others, fun opts later last hname hlater => ?_⟩
  have hsilent : Silent (ctx.withOptions opts) state.disk
      ((ctx.withOptions opts).userLogon username token) last := silent_run hname hstored hlater
  exact ⟨hsilent.disk, hsilent.log⟩

end Tokens

end LoginContext

def LoginStage.accepted : LoginStage → Bool
  | .returned (.ok _) => true
  | _ => false

/-- A later login that is rejected leaves the token where it is. -/
theorem token_remembered_sample :
    ∃ state last, sampleLogin.machine.run (.initial .empty) sampleLoginAnswers = some state ∧
      sampleLogin.machine.run (.initial state.disk)
        [.directory none, .ok, .ok, .failed (.logonFailed .accessDenied)] = some last ∧
      last.stage.accepted = false ∧ last.disk = state.disk := by
  have hany : (sampleLogin.machine.run (.initial .empty) sampleLoginAnswers).any (fun state =>
      state.stage.accepted && (sampleLogin.machine.run (.initial state.disk)
        [.directory none, .ok, .ok, .failed (.logonFailed .accessDenied)]).any fun last =>
          !last.stage.accepted) = true := by
    decide +kernel
  obtain ⟨state, hrun, hboth⟩ := Machine.exists_of_run_any _ hany
  obtain ⟨haccepted, hany⟩ := Bool.and_eq_true_iff.mp hboth
  obtain ⟨last, hlater, hrejected⟩ := Machine.exists_of_run_any _ hany
  have hok : ∃ server, state.stage = .returned (.ok server) := by
    unfold LoginStage.accepted at haccepted
    split at haccepted
    next server hstage => exact ⟨server, hstage⟩
    next => cases haccepted
  obtain ⟨server, hstage⟩ := hok
  have hfaults : ∀ answer ∈ sampleLoginAnswers, ∀ resp fault,
      answer = .polled resp fault → fault = none := by
    simp [sampleLoginAnswers]
  obtain ⟨token, _, _, _, hsilent⟩ :=
    LoginContext.token_remembered (by rfl) (by rfl) hfaults hrun hstage
  exact ⟨state, last, hrun, hlater, by simpa using hrejected,
    (hsilent sampleLogin.opts _ last rfl hlater).1⟩

end DepotDownloader.Cli
