import DepotDownloader.Foundation.Machine
import DepotDownloader.Steam.Messages
import DepotDownloader.Steam.Types.BinaryGrammar

/-! # The client object of the foreign interface

The interface keeps the client in a slot and blocks in each call until the server has
answered. The client below it, with its connection and everything that arrives there, is a
parameter: a call changes its state and returns what it will.
-/

namespace DepotDownloader.SteamFfi

open Foundation Steam Steam.Types

/-- What `str::from_utf8` says of bytes that are no text: how many of them are, and how long
the sequence behind these is if it does not run into the end. -/
structure Utf8Error where
  validUpTo : Nat
  errorLen : Option Nat
  deriving DecidableEq, Repr

namespace Utf8Error

/-- The tests of the bytes behind a lead byte. -/
def continuations (lead : UInt8) : Option (List (UInt8 → Bool)) :=
  let between (low high : UInt8) (byte : UInt8) : Bool := low ≤ byte && byte ≤ high
  let last := between 0x80 0xBF
  if lead < 0x80 then some []
  else if between 0xC2 0xDF lead then some [last]
  else if lead == 0xE0 then some [between 0xA0 0xBF, last]
  else if lead == 0xED then some [between 0x80 0x9F, last]
  else if between 0xE1 0xEF lead then some [last, last]
  else if lead == 0xF0 then some [between 0x90 0xBF, last, last]
  else if between 0xF1 0xF3 lead then some [last, last, last]
  else if lead == 0xF4 then some [between 0x80 0x8F, last, last]
  else none

/-- How many bytes pass their tests before one that fails. -/
def failing (passed : Nat) : List (UInt8 → Bool) → Bytes → Option Nat
  | test :: tests, byte :: rest =>
      if test byte then failing (passed + 1) tests rest else some passed
  | _, _ => none

def ofBytes (bytes : Bytes) : Utf8Error :=
  let validUpTo := Nat.findGreatest (fun length => ValidUtf8 (bytes.take length)) bytes.length
  let errorLen :=
    match bytes.drop validUpTo with
    | [] => none
    | lead :: rest =>
        match continuations lead with
        | none => some 1
        | some tests => failing 1 tests rest
  ⟨validUpTo, errorLen⟩

def message (error : Utf8Error) : String :=
  match error.errorLen with
  | some length =>
      "invalid utf-8 sequence of " ++ toString length ++ " bytes from index " ++
        toString error.validUpTo
  | none => "incomplete utf-8 byte sequence from index " ++ toString error.validUpTo

end Utf8Error

structure FfiError where
  message : String
  deriving DecidableEq, Repr

/-- `str::from_utf8`, with its error as the interface passes it on. -/
def fromUtf8 (bytes : Bytes) : Except FfiError String :=
  if ValidUtf8 bytes then .ok (lossyText bytes) else .error ⟨(Utf8Error.ofBytes bytes).message⟩

example : fromUtf8 [0x61, 0xE2, 0x82] = .error ⟨"incomplete utf-8 byte sequence from index 1"⟩ := by
  decide +kernel

/-- A Steam ID packed into a 64-bit integer. -/
def steamIdFromParts (univ accountType : UInt8) (inst accountId : UInt32) : UInt64 :=
  accountId.toUInt64 ||| ((inst.toUInt64 &&& 0xFFFFF) <<< 32) |||
    ((accountType.toUInt64 &&& 0xF) <<< 52) ||| ((univ.toUInt64 &&& 0xF) <<< 56)

def publicUniverse : UInt8 := 1
def individualAccount : UInt8 := 1
def anonUserAccount : UInt8 := 10
def windows11 : UInt32 := 203

/-- Steam client protocol version. -/
def protocolVersion : UInt32 := 65581

def clientLogon : EMsg := ⟨5514⟩

structure CMsgClientLogon where
  protocolVersion : Option UInt32
  cellId : Option UInt32
  clientOsType : Option UInt32
  clientLanguage : Option String
  accessToken : Option String := none
  accountName : Option String := none
  deriving DecidableEq, Repr

inductive GuardType where
  | none
  | emailCode
  | deviceCode
  | deviceConfirmation
  deriving DecidableEq, Repr

/-- Only the two codes have a type of their own. -/
def GuardType.submitted : GuardType → GuardType
  | .emailCode => .emailCode
  | .deviceCode => .deviceCode
  | _ => .none

structure RsaPublicKeyResponse where
  publickeyMod : Option String
  publickeyExp : Option String
  timestamp : Option UInt64

structure RsaPublicKey where
  modulus : String
  exponent : String
  timestamp : UInt64
  deriving DecidableEq, Repr

structure DeviceDetails where
  deviceFriendlyName : Option String
  platformType : Option Int
  osType : Option Int

structure BeginAuthSessionRequest where
  accountName : Option String
  encryptedPassword : Option String
  encryptionTimestamp : Option UInt64
  persistence : Option Int
  websiteId : Option String
  deviceDetails : Option DeviceDetails

structure AuthSession where
  clientId : Option UInt64
  requestId : Option Bytes
  allowedConfirmations : List GuardType
  steamId : Option UInt64
  deriving DecidableEq, Repr

structure AuthTokens where
  accessToken : String
  refreshToken : String
  accountName : Option String
  deriving DecidableEq, Repr

structure AccessToken where
  appId : UInt32
  token : UInt64
  deriving DecidableEq, Repr

structure AppInfo where
  appId : Option UInt32
  changeNumber : Option UInt32
  kvData : Option Bytes
  deriving DecidableEq, Repr

structure CdnServer where
  host : String
  port : UInt16
  https : Bool
  vhost : String
  deriving DecidableEq, Repr

/-- The client of the `steam` crate in the two states that the interface knows. Errors are
their texts. -/
structure CoreClient where
  Encrypted : Type
  LoggedIn : Type
  encodeLogon : CMsgClientLogon → Bytes
  base64Encode : Bytes → String
  login : Encrypted → ClientMsg → Except String LoggedIn
  getPasswordRsaPublicKey : Encrypted → String → Encrypted × Except String RsaPublicKeyResponse
  beginAuthSessionViaCredentials :
    Encrypted → BeginAuthSessionRequest → Encrypted × Except String AuthSession
  pollAuthSession : Encrypted → UInt64 × Bytes → Encrypted × Except String (Option AuthTokens)
  submitSteamGuardCode :
    Encrypted → UInt64 × UInt64 × String × GuardType → Encrypted × Except String Unit
  picsGetAccessTokens : LoggedIn → List UInt32 → LoggedIn × Except String (List AccessToken)
  picsGetProductInfo : LoggedIn → List AccessToken → LoggedIn × Except String (List AppInfo)
  getDepotDecryptionKey : LoggedIn → DepotId × UInt32 → LoggedIn × Except String DepotKey
  getCdnServers : LoggedIn → UInt32 × Option UInt32 → LoggedIn × Except String (List CdnServer)
  getManifestRequestCode :
    LoggedIn → UInt32 × DepotId × ManifestId × Option String × Option String →
      LoggedIn × Except String (Option UInt64)

inductive SteamClientInner (core : CoreClient) where
  | encrypted (session : core.Encrypted)
  | loggedIn (session : core.LoggedIn)

/-- The object behind the interface. -/
structure SteamClient (core : CoreClient) where
  inner : Option (SteamClientInner core)

variable {core : CoreClient}

namespace SteamClientInner

def asEncrypted : SteamClientInner core → Except String core.Encrypted
  | encrypted session => .ok session
  | loggedIn _ => .error "client is already logged in"

def asLoggedIn : SteamClientInner core → Except String core.LoggedIn
  | loggedIn session => .ok session
  | encrypted _ => .error "client is not logged in"

end SteamClientInner

namespace SteamClient

/-- Connect to one of the listed servers and encrypt the connection. -/
def connect {Server : Type} (servers : List Server) (serverIndex : UInt32)
    (dial : Server → Except String core.Encrypted) : Except FfiError (SteamClient core) :=
  match servers[serverIndex.toNat]? with
  | none => .error ⟨"server index out of bounds"⟩
  | some server =>
      match dial server with
      | .error error => .error ⟨error⟩
      | .ok session => .ok ⟨some (.encrypted session)⟩

/-- What a login does before it goes to the server: the session it has taken from the slot,
and its message. -/
def prepareLogin (client : SteamClient core) (logon : Except FfiError CMsgClientLogon)
    (steamId : UInt64) : Except FfiError (core.Encrypted × ClientMsg) :=
  match client.inner with
  | none => .error ⟨"client consumed"⟩
  | some (.loggedIn _) => .error ⟨"must be in encrypted state to login"⟩
  | some (.encrypted session) =>
      logon.map fun logon =>
        (session,
          { emsg := clientLogon
            header := { steamid := some steamId, clientSessionid := some 0 }
            body := core.encodeLogon logon })

/-- The slot is empty from the first statement on, and filled again when the server has
accepted the login. -/
def login (prepared : Except FfiError (core.Encrypted × ClientMsg)) :
    SteamClient core × Except FfiError Unit :=
  match prepared with
  | .error error => (⟨none⟩, .error error)
  | .ok (session, msg) =>
      match core.login session msg with
      | .error error => (⟨none⟩, .error ⟨error⟩)
      | .ok session => (⟨some (.loggedIn session)⟩, .ok ())

section Logins

variable (client : SteamClient core)

def prepareAnonymous (cellId : UInt32) : Except FfiError (core.Encrypted × ClientMsg) :=
  client.prepareLogin
    (.ok
      { protocolVersion := some protocolVersion
        cellId := some cellId
        clientOsType := some windows11
        clientLanguage := some "english" })
    (steamIdFromParts publicUniverse anonUserAccount 0 0)

def loginAnonymous (cellId : UInt32) : SteamClient core × Except FfiError Unit :=
  login (client.prepareAnonymous cellId)

def prepareWithToken (username accessToken : Bytes) (cellId : UInt32) :
    Except FfiError (core.Encrypted × ClientMsg) :=
  client.prepareLogin
    (do
      let username ← fromUtf8 username
      let token ← fromUtf8 accessToken
      return {
        protocolVersion := some protocolVersion
        cellId := some cellId
        clientOsType := some windows11
        clientLanguage := some "english"
        accessToken := some token
        accountName := some username })
    (steamIdFromParts publicUniverse individualAccount 0 0)

def loginWithToken (username accessToken : Bytes) (cellId : UInt32) :
    SteamClient core × Except FfiError Unit :=
  login (client.prepareWithToken username accessToken cellId)

end Logins

/-- A query borrows the session of the state it needs, checks its arguments and goes to the
server. -/
def query {Session Args Answer : Type} (client : SteamClient core)
    (state : SteamClientInner core → Except String Session)
    (put : Session → SteamClientInner core) (args : Except FfiError Args)
    (send : Session → Args → Session × Except String Answer) :
    SteamClient core × Except FfiError Answer :=
  match client.inner with
  | none => (client, .error ⟨"client consumed"⟩)
  | some inner =>
      match state inner with
      | .error error => (client, .error ⟨error⟩)
      | .ok session =>
          match args with
          | .error error => (client, .error error)
          | .ok args =>
              let (session, answer) := send session args
              (⟨some (put session)⟩, answer.mapError FfiError.mk)

section Queries

variable (client : SteamClient core)

/-- A query of the encrypted state. -/
def queryEncrypted {Args Answer : Type} (args : Except FfiError Args)
    (send : core.Encrypted → Args → core.Encrypted × Except String Answer) :
    SteamClient core × Except FfiError Answer :=
  client.query SteamClientInner.asEncrypted .encrypted args send

/-- A query of the logged-in state. -/
def queryLoggedIn {Args Answer : Type} (args : Except FfiError Args)
    (send : core.LoggedIn → Args → core.LoggedIn × Except String Answer) :
    SteamClient core × Except FfiError Answer :=
  client.query SteamClientInner.asLoggedIn .loggedIn args send

def getRsaPublicKey (username : Bytes) : SteamClient core × Except FfiError RsaPublicKey :=
  client.queryEncrypted (fromUtf8 username) fun session username =>
    (core.getPasswordRsaPublicKey session username).map id fun answer => answer.map fun resp =>
      { modulus := resp.publickeyMod.getD ""
        exponent := resp.publickeyExp.getD ""
        timestamp := resp.timestamp.getD 0 }

def beginAuthCredentials (username encryptedPassword : Bytes) (timestamp : UInt64)
    (deviceName : Bytes) : SteamClient core × Except FfiError AuthSession :=
  client.queryEncrypted
    (do
      let username ← fromUtf8 username
      let deviceName ← fromUtf8 deviceName
      return {
        accountName := some username
        encryptedPassword := some (core.base64Encode encryptedPassword)
        encryptionTimestamp := some timestamp
        persistence := some 1
        websiteId := some "Client"
        deviceDetails := some
          { deviceFriendlyName := some deviceName
            platformType := some 1
            osType := some 203 } })
    core.beginAuthSessionViaCredentials

def pollAuth (session : AuthSession) : SteamClient core × Except FfiError AuthTokens :=
  client.queryEncrypted
    (match session.clientId, session.requestId with
      | none, _ => .error ⟨"missing client_id"⟩
      | some _, none => .error ⟨"missing request_id"⟩
      | some clientId, some requestId => .ok (clientId, requestId))
    fun session ids =>
      (core.pollAuthSession session ids).map id fun answer =>
        match answer with
        | .error error => .error error
        | .ok none => .error "auth session pending"
        | .ok (some tokens) => .ok tokens

def submitGuardCode (session : AuthSession) (code : Bytes) (codeType : GuardType) :
    SteamClient core × Except FfiError Unit :=
  client.queryEncrypted
    (match session.clientId, session.steamId with
      | none, _ => .error ⟨"missing client_id"⟩
      | some _, none => .error ⟨"missing steam_id"⟩
      | some clientId, some steamId =>
          (fromUtf8 code).map fun code => (clientId, steamId, code, codeType.submitted))
    core.submitSteamGuardCode

def getAccessTokens (appIds : List UInt32) :
    SteamClient core × Except FfiError (List AccessToken) :=
  client.queryLoggedIn (.ok appIds) core.picsGetAccessTokens

def getProductInfo (tokens : List AccessToken) :
    SteamClient core × Except FfiError (List AppInfo) :=
  client.queryLoggedIn (.ok tokens) core.picsGetProductInfo

def getDepotKey (depotId : DepotId) (appId : UInt32) :
    SteamClient core × Except FfiError DepotKey :=
  client.queryLoggedIn (.ok (depotId, appId)) core.getDepotDecryptionKey

def getCdnServers (cellId : UInt32) : SteamClient core × Except FfiError (List CdnServer) :=
  client.queryLoggedIn (.ok (cellId, none)) core.getCdnServers

/-- No request code is 0. -/
def getManifestRequestCode (appId : UInt32) (depotId : DepotId) (manifestId : ManifestId)
    (branch : Bytes) : SteamClient core × Except FfiError UInt64 :=
  client.queryLoggedIn
    ((fromUtf8 branch).map fun branch => (appId, depotId, manifestId, some branch, none))
    fun session args =>
      (core.getManifestRequestCode session args).map id fun answer =>
        answer.map fun code => code.getD 0

end Queries

end SteamClient

/-- A call on the object, with what the other side hands over. -/
inductive FfiCall where
  | loginAnonymous (cellId : UInt32)
  | loginWithToken (username accessToken : Bytes) (cellId : UInt32)
  | getRsaPublicKey (username : Bytes)
  | beginAuthCredentials (username encryptedPassword : Bytes) (timestamp : UInt64)
      (deviceName : Bytes)
  | pollAuth (session : AuthSession)
  | submitGuardCode (session : AuthSession) (code : Bytes) (codeType : GuardType)
  | getAccessTokens (appIds : List UInt32)
  | getProductInfo (tokens : List AccessToken)
  | getDepotKey (depotId : DepotId) (appId : UInt32)
  | getCdnServers (cellId : UInt32)
  | getManifestRequestCode (appId : UInt32) (depotId : DepotId) (manifestId : ManifestId)
      (branch : Bytes)
  deriving DecidableEq, Repr

inductive FfiAnswer where
  | unit
  | rsaPublicKey (key : RsaPublicKey)
  | authSession (session : AuthSession)
  | authTokens (tokens : AuthTokens)
  | accessTokens (tokens : List AccessToken)
  | appInfos (infos : List AppInfo)
  | depotKey (key : DepotKey)
  | cdnServers (servers : List CdnServer)
  | requestCode (code : UInt64)
  deriving DecidableEq

namespace SteamClient

def call (client : SteamClient core) : FfiCall → SteamClient core × Except FfiError FfiAnswer
  | .loginAnonymous cellId =>
      (client.loginAnonymous cellId).map id (Except.map fun () => .unit)
  | .loginWithToken username accessToken cellId =>
      (client.loginWithToken username accessToken cellId).map id (Except.map fun () => .unit)
  | .getRsaPublicKey username =>
      (client.getRsaPublicKey username).map id (Except.map .rsaPublicKey)
  | .beginAuthCredentials username encryptedPassword timestamp deviceName =>
      (client.beginAuthCredentials username encryptedPassword timestamp deviceName).map id
        (Except.map .authSession)
  | .pollAuth session => (client.pollAuth session).map id (Except.map .authTokens)
  | .submitGuardCode session code codeType =>
      (client.submitGuardCode session code codeType).map id (Except.map fun () => .unit)
  | .getAccessTokens appIds => (client.getAccessTokens appIds).map id (Except.map .accessTokens)
  | .getProductInfo tokens => (client.getProductInfo tokens).map id (Except.map .appInfos)
  | .getDepotKey depotId appId => (client.getDepotKey depotId appId).map id (Except.map .depotKey)
  | .getCdnServers cellId => (client.getCdnServers cellId).map id (Except.map .cdnServers)
  | .getManifestRequestCode appId depotId manifestId branch =>
      (client.getManifestRequestCode appId depotId manifestId branch).map id
        (Except.map .requestCode)

/-- The calls on one object, one after the other. -/
def machine : Machine (SteamClient core) FfiCall where
  step client ffiCall := some (client.call ffiCall).1

/-- What a login hands to the server, or why it does not come to that. -/
def prepared (client : SteamClient core) :
    FfiCall → Option (Except FfiError (core.Encrypted × ClientMsg))
  | .loginAnonymous cellId => some (client.prepareAnonymous cellId)
  | .loginWithToken username accessToken cellId =>
      some (client.prepareWithToken username accessToken cellId)
  | _ => none

end SteamClient

end DepotDownloader.SteamFfi
