import DepotDownloader.SteamFfi.Client

/-! # Sequences of calls on a client object

A login empties the slot before it looks at anything, so a login that is rejected on this
side takes the client with it. Otherwise an object sends one login, and is then logged in or
has lost its client.
-/

namespace DepotDownloader.SteamFfi

open Foundation Steam Steam.Types

theorem fromUtf8_error_iff {bytes : Bytes} :
    (∃ error, fromUtf8 bytes = .error error) ↔ ¬ ValidUtf8 bytes := by
  unfold fromUtf8
  split <;> simp_all

/-- The texts that a login hands over. -/
def FfiCall.loginTexts : FfiCall → Option (List Bytes)
  | .loginAnonymous _ => some []
  | .loginWithToken username accessToken _ => some [username, accessToken]
  | _ => none

inductive Phase where
  | consumed
  | encrypted
  | loggedIn
  deriving DecidableEq, Repr

variable {core : CoreClient}

namespace SteamClient

/-- The object that has lost its client. -/
def consumed : SteamClient core := ⟨none⟩

def phase (client : SteamClient core) : Phase :=
  match client.inner with
  | none => .consumed
  | some (.encrypted _) => .encrypted
  | some (.loggedIn _) => .loggedIn

/-- The login is rejected before anything is sent. -/
def RejectsLogin (client : SteamClient core) (ffiCall : FfiCall) : Prop :=
  ∃ error, client.prepared ffiCall = some (.error error)

/-- The login sends its message. -/
def SendsLogin (client : SteamClient core) (ffiCall : FfiCall) : Prop :=
  ∃ session msg, client.prepared ffiCall = some (.ok (session, msg))

/-- The method returns Ok. -/
def Works (client : SteamClient core) (ffiCall : FfiCall) : Prop :=
  ∃ answer, (client.call ffiCall).2 = .ok answer

/-- A login that still finds a client finds it before its login, and hands over texts that
are UTF-8. -/
def LoginFits (client : SteamClient core) (ffiCall : FfiCall) : Prop :=
  ∀ texts ∈ ffiCall.loginTexts, client.phase ≠ .consumed →
    client.phase = .encrypted ∧ ∀ text ∈ texts, ValidUtf8 text

variable {client next : SteamClient core} {ffiCall : FfiCall}

theorem phase_eq_consumed : client.phase = .consumed ↔ client = consumed := by
  obtain ⟨_ | _ | _⟩ := client <;> simp [phase, consumed]

/-- Every method of an object without a client says so. -/
theorem call_consumed (ffiCall : FfiCall) :
    (consumed : SteamClient core).call ffiCall = (consumed, .error ⟨"client consumed"⟩) := by
  cases ffiCall <;> rfl

/-- An object does not get its client back. -/
theorem run_consumed (calls : List FfiCall) :
    machine.run (consumed : SteamClient core) calls = some consumed := by
  induction calls with
  | nil => rfl
  | cons ffiCall rest ih =>
      have hstep : machine.step (consumed : SteamClient core) ffiCall = some consumed :=
        congrArg (some ∘ Prod.fst) (call_consumed ffiCall)
      exact machine.run_cons_eq_some.mpr ⟨consumed, hstep, ih⟩

section Logins

/-- A login does what becomes of its preparation. -/
theorem call_login {prep : Except FfiError (core.Encrypted × ClientMsg)}
    (hprepared : client.prepared ffiCall = some prep) :
    client.call ffiCall = (login prep).map id (Except.map fun () => .unit) := by
  cases ffiCall <;> cases hprepared <;> rfl

theorem phase_login (prep : Except FfiError (core.Encrypted × ClientMsg)) :
    (login prep).1.phase ≠ .encrypted := by
  unfold login
  split
  · exact nofun
  · split <;> exact nofun

theorem prepareLogin_error_iff {logon : Except FfiError CMsgClientLogon} {steamId : UInt64} :
    (∃ error, client.prepareLogin logon steamId = .error error) ↔
      (client.phase = .encrypted → ∃ error, logon = .error error) := by
  obtain ⟨_ | _ | _⟩ := client <;> cases logon <;> simp [prepareLogin, phase, Except.map]

/-- A login is rejected when there is no client to log in or a text is not UTF-8. -/
theorem rejectsLogin_iff : client.RejectsLogin ffiCall ↔
    ∃ texts, ffiCall.loginTexts = some texts ∧
      (client.phase = .encrypted → ∃ text ∈ texts, ¬ ValidUtf8 text) := by
  unfold RejectsLogin
  cases ffiCall with
  | loginAnonymous cellId =>
      simp only [prepared, prepareAnonymous, Option.some.injEq, prepareLogin_error_iff,
        FfiCall.loginTexts]
      simp
  | loginWithToken username accessToken cellId =>
      have htexts : (∃ error, (do
          let username ← fromUtf8 username
          let token ← fromUtf8 accessToken
          return CMsgClientLogon.mk (some protocolVersion) (some cellId) (some windows11)
            (some "english") (some token) (some username) : Except FfiError _) = .error error) ↔
          ∃ text ∈ [username, accessToken], ¬ ValidUtf8 text := by
        simp only [List.mem_cons, List.not_mem_nil, or_false, exists_eq_or_imp, exists_eq_left,
          ← fromUtf8_error_iff]
        cases fromUtf8 username <;> cases fromUtf8 accessToken <;>
          simp [bind, Except.bind, pure, Except.pure]
      simp only [prepared, prepareWithToken, Option.some.injEq, prepareLogin_error_iff,
        FfiCall.loginTexts, exists_eq_left', htexts]
  | _ => simp [prepared, FfiCall.loginTexts]

/-- A rejected login returns Err and leaves an object without its client. -/
theorem RejectsLogin.call_eq (hrejects : client.RejectsLogin ffiCall) :
    ∃ error, client.call ffiCall = (consumed, .error error) := by
  obtain ⟨error, hprepared⟩ := hrejects
  exact ⟨error, call_login hprepared⟩

end Logins

section Queries

variable {Args Answer : Type} {args : Except FfiError Args}

theorem phase_queryEncrypted
    {send : core.Encrypted → Args → core.Encrypted × Except String Answer} :
    (client.queryEncrypted args send).1.phase = client.phase := by
  obtain ⟨_ | _ | _⟩ := client
  · rfl
  · cases args <;> rfl
  · rfl

theorem phase_queryLoggedIn
    {send : core.LoggedIn → Args → core.LoggedIn × Except String Answer} :
    (client.queryLoggedIn args send).1.phase = client.phase := by
  obtain ⟨_ | _ | _⟩ := client
  · rfl
  · rfl
  · cases args <;> rfl

/-- Queries log nobody in or out. -/
theorem phase_call_query (hquery : client.prepared ffiCall = none) :
    (client.call ffiCall).1.phase = client.phase := by
  cases ffiCall with
  | loginAnonymous | loginWithToken => cases hquery
  | getRsaPublicKey | beginAuthCredentials | pollAuth | submitGuardCode =>
      rw [call, Prod.map_fst]
      exact phase_queryEncrypted
  | getAccessTokens | getProductInfo | getDepotKey | getCdnServers | getManifestRequestCode =>
      rw [call, Prod.map_fst]
      exact phase_queryLoggedIn

end Queries

/-- No call leads back to the state before the login. -/
theorem phase_step_encrypted (hstep : machine.step client ffiCall = some next)
    (hnext : next.phase = .encrypted) :
    client.phase = .encrypted ∧ client.prepared ffiCall = none := by
  obtain rfl := Option.some.inj hstep
  cases hprepared : client.prepared ffiCall with
  | none => exact ⟨phase_call_query hprepared ▸ hnext, rfl⟩
  | some prep =>
      rw [call_login hprepared] at hnext
      exact absurd hnext (phase_login prep)

theorem SendsLogin.encrypted (hsends : client.SendsLogin ffiCall) : client.phase = .encrypted := by
  by_contra hphase
  obtain ⟨session, msg, hprepared⟩ := hsends
  have hrejects : client.RejectsLogin ffiCall := by
    refine rejectsLogin_iff.mpr ?_
    cases ffiCall with
    | loginAnonymous => exact ⟨[], rfl, fun hencrypted => absurd hencrypted hphase⟩
    | loginWithToken username accessToken =>
        exact ⟨[username, accessToken], rfl, fun hencrypted => absurd hencrypted hphase⟩
    | _ => cases hprepared
  obtain ⟨error, herror⟩ := hrejects
  cases hprepared.symm.trans herror

/-- An object sends at most one login, whatever the server answers. -/
theorem login_sent_once {first second : FfiCall} {rest : List FfiCall}
    (hsends : client.SendsLogin first) (hrun : machine.run client (first :: rest) = some next) :
    ¬ next.SendsLogin second := by
  intro hagain
  obtain ⟨middle, hfirst, hrest⟩ := machine.run_cons_eq_some.mp hrun
  have hmiddle : middle.phase ≠ .encrypted := by
    intro hphase
    obtain ⟨session, msg, hprepared⟩ := hsends
    cases hprepared.symm.trans (phase_step_encrypted hfirst hphase).2
  have hkept : ∀ (before : SteamClient core) (move : FfiCall) (after : SteamClient core),
      before.phase ≠ .encrypted → True → machine.step before move = some after →
        after.phase ≠ .encrypted :=
    fun _ _ _ hbefore _ hstep hafter => hbefore (phase_step_encrypted hstep hafter).1
  have hnext := machine.run_invariant hkept (fun _ _ => trivial) hmiddle hrest
  exact hnext hagain.encrypted

/-- A rejected login leaves the object as it was exactly when the object had lost its client
before. -/
theorem rejected_step_iff (hstep : machine.step client ffiCall = some next) :
    (client.RejectsLogin ffiCall →
      next = client ∧ ∀ later, client.Works later → next.Works later) ↔
        client.LoginFits ffiCall := by
  obtain rfl := Option.some.inj hstep
  constructor
  · intro hkept texts htexts hphase
    by_contra hunfit
    have hrejects : client.RejectsLogin ffiCall := by
      refine rejectsLogin_iff.mpr ⟨texts, htexts, fun hencrypted => ?_⟩
      by_contra hnone
      have hvalid : ∀ text ∈ texts, ValidUtf8 text := by
        intro text hmem
        by_contra htext
        exact hnone ⟨text, hmem, htext⟩
      exact hunfit ⟨hencrypted, hvalid⟩
    obtain ⟨error, hcall⟩ := hrejects.call_eq
    have hsame := (hkept hrejects).1
    rw [hcall] at hsame
    exact hphase (phase_eq_consumed.mpr hsame.symm)
  · intro hfits hrejects
    obtain ⟨texts, htexts, hinvalid⟩ := rejectsLogin_iff.mp hrejects
    have hconsumed : client = consumed := by
      by_contra hphase
      obtain ⟨hencrypted, hvalid⟩ := hfits texts htexts (mt phase_eq_consumed.mp hphase)
      obtain ⟨text, hmem, htext⟩ := hinvalid hencrypted
      exact htext (hvalid text hmem)
    have hsame : (client.call ffiCall).1 = client := by
      rw [hconsumed, call_consumed]
    exact ⟨hsame, fun later hworks => hsame.symm ▸ hworks⟩

/-- Every rejected login of a run leaves the object as it was exactly when each login that
still finds a client fits it. -/
theorem rejected_logins_keep_iff {final : SteamClient core} {calls : List FfiCall}
    (hrun : machine.run client calls = some final) :
    (∀ done ffiCall rest before after, calls = done ++ ffiCall :: rest →
      machine.run client done = some before → machine.step before ffiCall = some after →
        before.RejectsLogin ffiCall →
          after = before ∧ ∀ later, before.Works later → after.Works later) ↔
      machine.RunWhere LoginFits client calls final :=
  (machine.runWhere_iff_steps (fun _ _ _ => rejected_step_iff) hrun).symm

section Sample

/-- A server that accepts no anonymous users and grants every depot key. -/
def sampleCore : CoreClient where
  Encrypted := Unit
  LoggedIn := Unit
  encodeLogon _ := []
  base64Encode _ := ""
  login _ msg :=
    if msg.header.steamid = some (steamIdFromParts publicUniverse anonUserAccount 0 0) then
      .error "connection error: logon failed: access denied"
    else .ok ()
  getPasswordRsaPublicKey _ _ := ((), .error "disconnected")
  beginAuthSessionViaCredentials _ _ := ((), .error "disconnected")
  pollAuthSession _ _ := ((), .ok none)
  submitSteamGuardCode _ _ := ((), .ok ())
  picsGetAccessTokens _ _ := ((), .ok [])
  picsGetProductInfo _ _ := ((), .ok [])
  getDepotDecryptionKey _ _ := ((), .ok ⟨.replicate 32 0⟩)
  getCdnServers _ _ := ((), .ok [])
  getManifestRequestCode _ _ := ((), .ok none)

def sampleClient : SteamClient sampleCore := ⟨some (.encrypted ())⟩

/-- The server refuses the first login, so the second one has nothing to lose. -/
theorem rejected_logins_keep_iff_sample :
    ∃ before after : SteamClient sampleCore,
      machine.run sampleClient [.loginAnonymous 0] = some before ∧
        machine.step before (.loginWithToken [0xFF] [] 0) = some after ∧
          before.RejectsLogin (.loginWithToken [0xFF] [] 0) ∧ after = before := by
  have hwhere : machine.RunWhere LoginFits sampleClient
      [.loginAnonymous 0, .loginWithToken [0xFF] [] 0] consumed := by
    refine ⟨?_, consumed, rfl, ?_, consumed, rfl, rfl⟩
    · rintro texts htexts -
      obtain rfl := Option.some.inj htexts
      exact ⟨rfl, nofun⟩
    · rintro texts - hphase
      exact absurd rfl hphase
  have hkept := (rejected_logins_keep_iff hwhere.run_eq).mpr hwhere [.loginAnonymous 0]
    (.loginWithToken [0xFF] [] 0) [] consumed consumed rfl rfl rfl
  exact ⟨consumed, consumed, rfl, rfl, ⟨_, rfl⟩, (hkept ⟨_, rfl⟩).1⟩

/-- A second login is rejected, and the depot key that could be had before it is out of
reach. -/
theorem second_login_consumes :
    ∃ client before after : SteamClient sampleCore,
      connect [()] 0 (fun _ => .ok ()) = .ok client ∧
        machine.run client [.loginWithToken [97] [98] 0] = some before ∧
          machine.step before (.loginAnonymous 0) = some after ∧
            before.RejectsLogin (.loginAnonymous 0) ∧ before.Works (.getDepotKey ⟨1⟩ 10) ∧
              ¬ after.Works (.getDepotKey ⟨1⟩ 10) := by
  refine ⟨sampleClient, ⟨some (.loggedIn ())⟩, consumed, rfl, rfl, rfl, ⟨_, rfl⟩, ⟨_, rfl⟩, ?_⟩
  rintro ⟨answer, hanswer⟩
  cases hanswer

end Sample

end SteamClient

end DepotDownloader.SteamFfi
