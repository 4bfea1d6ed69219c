import DepotDownloader.Cli.Servers
import DepotDownloader.Foundation.Base64
import DepotDownloader.Steam.Client.Handshake
import DepotDownloader.SteamClient.SavedEntries

/-! # Login

`connect_and_login`: one server after the other, until one accepts the login or rejects
its credentials. On a connection a stored token is used, or the user authenticates by
password, by QR code or not at all. A move is the answer of whoever was asked: a server,
the user at the terminal, or the directory API.
-/

namespace DepotDownloader.Cli

open Foundation Foundation.LexPath Steam SteamClient
open SteamFfi (GuardType AuthTokens RsaPublicKeyResponse DeviceDetails BeginAuthSessionRequest
  CMsgClientLogon steamIdFromParts publicUniverse individualAccount anonUserAccount windows11)

/-- `CliError`, as far as a login meets it. -/
inductive LoginError where
  | steam (error : SessionError)
  | io
  | other (message : String)
  deriving DecidableEq, Repr

namespace LoginError

def isAuthError : LoginError → Bool
  | .steam (.logonFailed _) => true
  | .steam (.client (.serviceMethodFailed _)) => true
  | _ => false

end LoginError

/-- `GuardType::from` a number. -/
def guardType : Int → GuardType
  | 0 => .none
  | 1 => .emailCode
  | 2 => .deviceCode
  | 3 => .deviceConfirmation
  | _ => .none

/-- What is read of the answer to a begun session. The type of a confirmation may be
missing. -/
structure BeginAuthSessionResponse where
  clientId : Option UInt64
  requestId : Option Bytes
  steamid : Option UInt64
  allowedConfirmations : List (Option Int)

/-- Result of beginning an auth session. -/
def authSession (body : BeginAuthSessionResponse) : SteamFfi.AuthSession where
  clientId := body.clientId
  requestId := body.requestId
  allowedConfirmations := body.allowedConfirmations.filterMap fun kind => kind.map guardType
  steamId := body.steamid

structure BeginQrResponse where
  clientId : Option UInt64
  requestId : Option Bytes
  challengeUrl : Option String

structure PollResponse where
  accessToken : Option String
  refreshToken : Option String
  accountName : Option String

/-- Tokens received from an auth poll. -/
def authTokens (body : PollResponse) : Option AuthTokens :=
  match body.accessToken, body.refreshToken with
  | some access, some refresh =>
      if access ≠ "" then some ⟨access, refresh, body.accountName⟩ else none
  | _, _ => none

/-- The options that a login reads. -/
structure LoginOptions where
  username : Option String
  password : Option String
  qr : Bool
  rememberPassword : Bool
  deviceName : String
  cellId : Option UInt32

/-- RSA, QR codes and the JSON of the token store, with the errors as texts. -/
structure LoginCodecs where
  Uint : Type
  Key : Type
  fromBeHex : String → Option Uint
  newKey : Uint → Uint → Except String Key
  encrypt : Key → Bytes → Bytes → Except String Bytes
  qrCode : Bytes → Except String Unit
  tokens : TokenCodecs

/-- The logon message with the two fields of its header. -/
structure LogonMsg where
  logon : CMsgClientLogon
  shouldRememberPassword : Option Bool
  steamid : UInt64
  clientSessionid : Int
  deriving DecidableEq, Repr

/-- What is asked of a server, of the user or of the directory. -/
inductive LoginRequest where
  | fetchCmServers (cellId : UInt32)
  | connect (server : CmServer)
  | encrypt
  | readPassword (username : String)
  | getPasswordRsaPublicKey (username : String)
  | beginViaCredentials (request : BeginAuthSessionRequest)
  | readCode (kind : GuardType)
  | submitSteamGuardCode (clientId steamId : UInt64) (code : String) (kind : GuardType)
  | pollAuthSession (clientId : UInt64) (requestId : Bytes)
  | beginViaQr (deviceName : String) (platformType : Int)
  | logon (message : LogonMsg)

inductive LoginAnswer where
  | directory (resp : Option Json)
  | ok
  | failed (error : SessionError)
  | line (text : String)
  | unreadable (reason : String)
  /-- The key, and the random bytes for the padding. -/
  | rsaKey (resp : RsaPublicKeyResponse) (random : Bytes)
  | session (resp : BeginAuthSessionResponse)
  | qrSession (resp : BeginQrResponse)
  /-- The poll, and how the tokens are saved if there are any. -/
  | polled (resp : PollResponse) (fault : Option WriteFault)

inductive LoginStage where
  | discovering
  | connecting
  | encrypting
  | readingPassword (attempt : Nat)
  | fetchingKey (attempt : Nat) (password : String)
  | beginning (attempt : Nat) (request : BeginAuthSessionRequest)
  | readingCode (clientId steamId : UInt64) (requestId : Bytes) (kind : GuardType)
  | submitting (clientId steamId : UInt64) (requestId : Bytes) (kind : GuardType) (code : String)
  | polling (clientId : UInt64) (requestId : Bytes)
  | beginningQr
  | pollingQr (clientId : UInt64) (requestId : Bytes)
  | loggingOn (message : LogonMsg)
  | returned (result : Except LoginError CmServer)

/-- The login: the server it is at, the disk and what has been asked and answered, the latest
first. -/
structure LoginState where
  stage : LoginStage
  servers : List CmServer
  position : Nat
  disk : Disk
  log : List (LoginRequest × LoginAnswer)

/-- What a login runs on. -/
structure LoginContext where
  opts : LoginOptions
  codecs : LoginCodecs
  workingDir : Place
  home : Option Path

namespace LoginState

def initial (disk : Disk) : LoginState where
  stage := .discovering
  servers := []
  position := 0
  disk := disk
  log := []

def goto (state : LoginState) (stage : LoginStage) : LoginState := { state with stage := stage }

/-- The attempt at the current server has failed. Only credentials that are rejected end the
login at once. -/
def fail (state : LoginState) (error : LoginError) : LoginState :=
  if error.isAuthError then state.goto (.returned (.error error))
  else if state.position + 1 < state.servers.length then
    { state with stage := .connecting, position := state.position + 1 }
  else state.goto (.returned (.error error))

end LoginState

def maxPasswordAttempts : Nat := 3

namespace LoginContext

variable (ctx : LoginContext)

def tokenPath : Path := TokenStore.defaultPath ctx.home

def loadTokens (disk : Disk) : TokenStore :=
  TokenStore.load ctx.codecs.tokens ctx.workingDir disk ctx.tokenPath

def cellId : UInt32 := ctx.opts.cellId.getD 0

def logonMsg (accessToken accountName : Option String) (shouldRememberPassword : Option Bool)
    (accountType : UInt8) : LogonMsg where
  logon :=
    { protocolVersion := some SteamFfi.protocolVersion
      cellId := some ctx.cellId
      clientOsType := some windows11
      clientLanguage := some "english"
      accessToken := accessToken
      accountName := accountName }
  shouldRememberPassword := shouldRememberPassword
  steamid := steamIdFromParts publicUniverse accountType 0 0
  clientSessionid := 0

def userLogon (username accessToken : String) : LogonMsg :=
  ctx.logonMsg (some accessToken) (some username) (some ctx.opts.rememberPassword)
    individualAccount

/-- The next password: that of the options at the first attempt, else one that is read. -/
def startAttempt (attempt : Nat) : LoginStage :=
  match ctx.opts.password with
  | some password =>
      if attempt = 1 then .fetchingKey attempt password else .readingPassword attempt
  | none => .readingPassword attempt

/-- The request that begins a session with a password. -/
def beginRequest (username password : String) (resp : RsaPublicKeyResponse) (random : Bytes) :
    Except LoginError BeginAuthSessionRequest :=
  match resp.publickeyMod, resp.publickeyExp, resp.timestamp with
  | none, _, _ => .error (.other "missing RSA modulus")
  | some _, none, _ => .error (.other "missing RSA exponent")
  | some _, some _, none => .error (.other "missing RSA timestamp")
  | some modulus, some exponent, some timestamp =>
      match ctx.codecs.fromBeHex modulus, ctx.codecs.fromBeHex exponent with
      | none, _ => .error (.other "invalid RSA modulus hex")
      | some _, none => .error (.other "invalid RSA exponent hex")
      | some n, some e =>
          match ctx.codecs.newKey n e with
          | .error reason => .error (.other ("invalid RSA key: " ++ reason))
          | .ok key =>
              match ctx.codecs.encrypt key random (encodeUtf8 password.toList) with
              | .error reason => .error (.other ("RSA encryption failed: " ++ reason))
              | .ok encrypted => .ok
                  { accountName := some username
                    encryptedPassword := some (.ofList (Base64.encode encrypted))
                    encryptionTimestamp := some timestamp
                    persistence := some 1
                    websiteId := some "Client"
                    deviceDetails := some
                      { deviceFriendlyName := some ctx.opts.deviceName
                        platformType := some 1
                        osType := some 203 } }

/-- The encrypted connection stands. -/
def authenticate (state : LoginState) : LoginState :=
  match ctx.opts.username with
  | some username =>
      match (ctx.loadTokens state.disk).get username with
      | some stored => state.goto (.loggingOn (ctx.userLogon username stored))
      | none => state.goto (ctx.startAttempt 1)
  | none =>
      if ctx.opts.qr then state.goto .beginningQr
      else state.goto (.loggingOn (ctx.logonMsg none none none anonUserAccount))

/-- The code that the user is asked for: that of the first confirmation with a code. -/
def codeKind (confirmations : List GuardType) : Option GuardType :=
  confirmations.find? fun kind => kind = .deviceCode ∨ kind = .emailCode

/-- The session has begun: a code if one is allowed, then polls. -/
def confirm (state : LoginState) (session : SteamFfi.AuthSession) : LoginState :=
  match session.clientId, session.requestId, session.steamId with
  | none, _, _ => state.fail (.other "missing client_id in auth session")
  | some _, none, _ => state.fail (.other "missing request_id")
  | some _, some _, none => state.fail (.other "missing steam_id")
  | some clientId, some requestId, some steamId =>
      match codeKind session.allowedConfirmations with
      | some kind => state.goto (.readingCode clientId steamId requestId kind)
      | none => state.goto (.polling clientId requestId)

def showQr (state : LoginState) (resp : BeginQrResponse) : LoginState :=
  match resp.challengeUrl, resp.clientId, resp.requestId with
  | none, _, _ => state.fail (.other "no QR challenge URL")
  | some _, none, _ => state.fail (.other "no client_id")
  | some _, some _, none => state.fail (.other "no request_id")
  | some url, some clientId, some requestId =>
      match ctx.codecs.qrCode (encodeUtf8 url.toList) with
      | .error reason => state.fail (.other ("Failed to generate QR code: " ++ reason))
      | .ok () => state.goto (.pollingQr clientId requestId)

/-- The authentication has succeeded. -/
def remember (state : LoginState) (username token : String) (fault : Option WriteFault) :
    LoginState :=
  let next := state.goto (.loggingOn (ctx.userLogon username token))
  if ctx.opts.rememberPassword then
    { next with
      disk := ((ctx.loadTokens state.disk).set username token).save ctx.codecs.tokens
        ctx.workingDir state.disk ctx.tokenPath fault }
  else next

/-- What the login asks next. -/
def pending (state : LoginState) : Option LoginRequest :=
  match state.stage with
  | .discovering => some (.fetchCmServers ctx.cellId)
  | .connecting => state.servers[state.position]?.map .connect
  | .encrypting => some .encrypt
  | .readingPassword _ => ctx.opts.username.map .readPassword
  | .fetchingKey _ _ => ctx.opts.username.map .getPasswordRsaPublicKey
  | .beginning _ request => some (.beginViaCredentials request)
  | .readingCode _ _ _ kind => some (.readCode kind)
  | .submitting clientId steamId _ kind code =>
      some (.submitSteamGuardCode clientId steamId code kind)
  | .polling clientId requestId => some (.pollAuthSession clientId requestId)
  | .beginningQr => some (.beginViaQr ctx.opts.deviceName 2)
  | .pollingQr clientId requestId => some (.pollAuthSession clientId requestId)
  | .loggingOn message => some (.logon message)
  | .returned _ => none

/-- What the login makes of an answer. An answer of another kind is refused. -/
def answered (state : LoginState) (answer : LoginAnswer) : Option LoginState :=
  match state.stage, answer with
  | .discovering, .directory resp =>
      let next := { state with servers := discoverServers resp }
      if discoverServers resp = [] then
        some (next.goto (.returned (.error (.other "No CM servers available"))))
      else some (next.goto .connecting)
  | .connecting, .ok => some (state.goto .encrypting)
  | .encrypting, .ok => some (ctx.authenticate state)
  | .readingPassword attempt, .line text => some (state.goto (.fetchingKey attempt text))
  | .readingPassword _, .unreadable reason =>
      some (state.fail (.other ("failed to read password: " ++ reason)))
  | .fetchingKey attempt password, .rsaKey resp random =>
      ctx.opts.username.map fun username =>
        match ctx.beginRequest username password resp random with
        | .error error => state.fail error
        | .ok request => state.goto (.beginning attempt request)
  | .beginning _ _, .session resp => some (confirm state (authSession resp))
  | .beginning attempt _, .failed error =>
      if error = .client (.serviceMethodFailed .invalidPassword) ∧ attempt < maxPasswordAttempts
      then some (state.goto (ctx.startAttempt (attempt + 1)))
      else some (state.fail (.steam error))
  | .readingCode clientId steamId requestId kind, .line text =>
      some (state.goto (.submitting clientId steamId requestId kind (.ofList (trim text.toList))))
  | .readingCode _ _ _ _, .unreadable _ => some (state.fail .io)
  | .submitting clientId _ requestId _ _, .ok => some (state.goto (.polling clientId requestId))
  | .polling _ _, .polled resp fault =>
      match authTokens resp with
      | none => some state
      | some tokens =>
          ctx.opts.username.map fun username =>
            ctx.remember state username tokens.refreshToken fault
  | .beginningQr, .qrSession resp => some (ctx.showQr state resp)
  | .pollingQr _ _, .polled resp _ =>
      match authTokens resp with
      | none => some state
      | some tokens =>
          some (state.goto (.loggingOn
            (ctx.logonMsg (some tokens.refreshToken) none none individualAccount)))
  | .loggingOn _, .ok =>
      state.servers[state.position]?.map fun server => state.goto (.returned (.ok server))
  | .connecting, .failed error | .encrypting, .failed error | .fetchingKey _ _, .failed error
  | .submitting _ _ _ _ _, .failed error | .polling _ _, .failed error
  | .beginningQr, .failed error | .pollingQr _ _, .failed error | .loggingOn _, .failed error =>
      some (state.fail (.steam error))
  | _, _ => none

def step (state : LoginState) (answer : LoginAnswer) : Option LoginState :=
  match ctx.pending state, ctx.answered state answer with
  | some request, some next => some { next with log := (request, answer) :: state.log }
  | _, _ => none

/-- A login with the answers it gets. -/
def machine : Machine LoginState LoginAnswer where
  step := ctx.step

end LoginContext

end DepotDownloader.Cli
