/-! # Result codes of the Steam API

Success is code 1 and has no error value. Every other code maps to an error, the
codes without a name of their own to `unknown`.
-/

namespace DepotDownloader.Steam

inductive EResultError where
  | invalid
  | fail
  | noConnection
  | invalidPassword
  | loggedInElsewhere
  | invalidProtocolVer
  | invalidParam
  | fileNotFound
  | busy
  | invalidState
  | invalidName
  | invalidEmail
  | duplicateName
  | accessDenied
  | timeout
  | banned
  | accountNotFound
  | invalidSteamID
  | serviceUnavailable
  | notLoggedOn
  | pending
  | encryptionFailure
  | insufficientPrivilege
  | limitExceeded
  | revoked
  | expired
  | alreadyRedeemed
  | duplicateRequest
  | alreadyOwned
  | ipNotFound
  | persistFailed
  | lockingFailed
  | logonSessionReplaced
  | rateLimitExceeded
  | twoFactorRequired
  | loginDeniedThrottle
  | twoFactorCodeMismatch
  | twoFactorActivationCodeMismatch
  | unknown (code : Int)
  deriving DecidableEq, Repr

/-- Success for code 1, an error for everything else. -/
def EResultError.fromI32 (code : Int) : Except EResultError Unit :=
  match code with
  | 1 => .ok ()
  | 0 => .error .invalid
  | 2 => .error .fail
  | 3 => .error .noConnection
  | 5 => .error .invalidPassword
  | 6 => .error .loggedInElsewhere
  | 7 => .error .invalidProtocolVer
  | 8 => .error .invalidParam
  | 9 => .error .fileNotFound
  | 10 => .error .busy
  | 11 => .error .invalidState
  | 12 => .error .invalidName
  | 13 => .error .invalidEmail
  | 14 => .error .duplicateName
  | 15 => .error .accessDenied
  | 16 => .error .timeout
  | 17 => .error .banned
  | 18 => .error .accountNotFound
  | 19 => .error .invalidSteamID
  | 20 => .error .serviceUnavailable
  | 21 => .error .notLoggedOn
  | 22 => .error .pending
  | 23 => .error .encryptionFailure
  | 24 => .error .insufficientPrivilege
  | 25 => .error .limitExceeded
  | 26 => .error .revoked
  | 27 => .error .expired
  | 28 => .error .alreadyRedeemed
  | 29 => .error .duplicateRequest
  | 30 => .error .alreadyOwned
  | 31 => .error .ipNotFound
  | 32 => .error .persistFailed
  | 33 => .error .lockingFailed
  | 34 => .error .logonSessionReplaced
  | 84 => .error .rateLimitExceeded
  | 85 => .error .twoFactorRequired
  | 87 => .error .loginDeniedThrottle
  | 88 => .error .twoFactorCodeMismatch
  | 89 => .error .twoFactorActivationCodeMismatch
  | other => .error (.unknown other)

/-- The code that the text of an error gives. -/
def EResultError.code : EResultError → Int
  | .invalid => 0
  | .fail => 2
  | .noConnection => 3
  | .invalidPassword => 5
  | .loggedInElsewhere => 6
  | .invalidProtocolVer => 7
  | .invalidParam => 8
  | .fileNotFound => 9
  | .busy => 10
  | .invalidState => 11
  | .invalidName => 12
  | .invalidEmail => 13
  | .duplicateName => 14
  | .accessDenied => 15
  | .timeout => 16
  | .banned => 17
  | .accountNotFound => 18
  | .invalidSteamID => 19
  | .serviceUnavailable => 20
  | .notLoggedOn => 21
  | .pending => 22
  | .encryptionFailure => 23
  | .insufficientPrivilege => 24
  | .limitExceeded => 25
  | .revoked => 26
  | .expired => 27
  | .alreadyRedeemed => 28
  | .duplicateRequest => 29
  | .alreadyOwned => 30
  | .ipNotFound => 31
  | .persistFailed => 32
  | .lockingFailed => 33
  | .logonSessionReplaced => 34
  | .rateLimitExceeded => 84
  | .twoFactorRequired => 85
  | .loginDeniedThrottle => 87
  | .twoFactorCodeMismatch => 88
  | .twoFactorActivationCodeMismatch => 89
  | .unknown code => code

/-- A code other than success is that of its error. -/
theorem EResultError.code_of_fromI32 {code : Int} {error : EResultError}
    (herror : EResultError.fromI32 code = .error error) : code ≠ 1 ∧ error.code = code := by
  refine ⟨?_, ?_⟩
  · rintro rfl
    cases herror
  · unfold EResultError.fromI32 at herror
    split at herror
    · cases herror
    all_goals
      cases herror
      rfl

theorem EResultError.fromI32_eq_ok {code : Int} :
    EResultError.fromI32 code = .ok () ↔ code = 1 := by
  constructor
  · intro hok
    unfold EResultError.fromI32 at hok
    split at hok
    · rfl
    all_goals cases hok
  · intro hcode
    rw [hcode]
    rfl

end DepotDownloader.Steam
