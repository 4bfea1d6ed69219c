import DepotDownloader.Steam.Client.CallStep
import DepotDownloader.Steam.Client.Handshake

/-! # A session from the connection to the logged-in client

The types `SteamClient<Connected>`, `SteamClient<Encrypted>` and
`SteamClient<LoggedIn>` are the phases of one session. The handshake and the login
take the client over, so that nothing runs beside them; the methods of an encrypted
and of a logged-in client borrow it and run beside each other.
-/

namespace DepotDownloader.Steam

open Foundation

/-- The part of a logon response that the login reads. -/
structure CMsgClientLogonResponse where
  eresult : Option Int
  deriving DecidableEq, Repr

/-- PICS access token for an app. -/
structure AccessToken where
  appId : UInt32
  token : UInt64
  deriving DecidableEq, Repr

/-- Product info for an app, as returned by PICS. -/
structure PicsAppInfo where
  appId : Option UInt32
  changeNumber : Option UInt32
  kvData : Option Bytes
  deriving DecidableEq, Repr

/-- A beta branch unlocked by a password. -/
structure BetaBranch where
  name : Option String
  password : Option String
  description : Option String
  deriving DecidableEq, Repr

structure CMsgClientPicsProductInfoResponse where
  apps : List PicsAppInfo
  responsePending : Option Bool
  deriving DecidableEq, Repr

structure CMsgClientCheckAppBetaPasswordResponse where
  eresult : Option Int
  betapasswords : List BetaBranch
  deriving DecidableEq, Repr

/-- The libraries of a whole session: those of the receive loop and the handshake, the
encrypting side of AES, and the generated code of the bodies. -/
structure SessionCodecs where
  wire : WireCodecs
  handshake : HandshakeCodecs
  sealBlock : Aes256
  encoder : Messages.HeaderEncoder
  encodeHello : UInt32 → Bytes
  decodeLogonResponse : Bytes → Option CMsgClientLogonResponse
  encodeAccessTokenRequest : List UInt32 → Bytes
  decodeAccessTokenResponse : Bytes → Option (List (Option UInt32 × Option UInt64))
  encodeProductInfoRequest : List AccessToken → Bytes
  decodeProductInfoResponse : Bytes → Option CMsgClientPicsProductInfoResponse
  encodeCheckBetaPassword : UInt32 → String → Bytes
  decodeCheckBetaPasswordResponse : Bytes → Option CMsgClientCheckAppBetaPasswordResponse

/-- The methods that borrow a client. -/
inductive SessionRequest where
  | client (request : Request)
  | callServiceMethodNonAuthed (methodName : String) (body : Bytes)
  | sendMsg (msg : ClientMsg)
  | sendHeartbeat
  | picsGetAccessTokens (appIds : List UInt32)
  | picsGetProductInfo (apps : List AccessToken)
  | checkBetaPassword (appId : UInt32) (password : String)
  deriving DecidableEq, Repr

inductive SessionReply where
  | client (reply : Reply)
  | sent
  | accessTokens (tokens : List AccessToken)
  | productInfo (apps : List PicsAppInfo)
  | betaBranches (branches : List BetaBranch)
  deriving DecidableEq

/-- Where a method stands: inside the receive loop or the send, or returned. -/
inductive SessionStage where
  | running (stage : Stage)
  | returned (result : Except SessionError SessionReply)
  deriving DecidableEq

/-- What the receive loop makes of a stage: its errors end the method. -/
def SessionStage.ofLoop : Stage → SessionStage
  | .returned (.ok reply) => .returned (.ok (.client reply))
  | .returned (.error error) => .returned (.error (.client error))
  | stage => .running stage

/-- One use of a method. `loggedIn` is the type of the client that it borrows, `results`
the product info collected so far, `sentMsg` what it has sent and `handed` the messages that
the receive loop has returned to it. -/
structure SessionCall where
  request : SessionRequest
  loggedIn : Bool
  jobId : Option UInt64
  stage : SessionStage
  results : List PicsAppInfo := []
  sentMsg : Option ClientMsg := none
  handed : List IncomingMsg := []
  deriving DecidableEq

namespace SessionCall

def InFlight (call : SessionCall) : Prop :=
  match call.stage with
  | .running .abandoned => False
  | .running _ => True
  | .returned _ => False

instance (call : SessionCall) : Decidable call.InFlight := by
  unfold InFlight
  split <;> infer_instance

end SessionCall

/-- How far the session is. An error of the handshake or the login drops the client. -/
inductive SessionPhase where
  | connected
  /-- The session key is on its way to the server. -/
  | keySent (sessionKey : DepotKey)
  | encrypted
  | loggingIn (msg : ClientMsg) (stage : Stage)
  | loggedIn (response : IncomingMsg)
  | dropped (error : SessionError)
  /-- The cipher was expected and not there. -/
  | panicked
  deriving DecidableEq

/-- `wire` holds the payloads that the transport has taken, `arrived` all packets that the
server has sent. -/
structure Session where
  phase : SessionPhase := .connected
  inner : ClientInner
  wire : List Bytes := []
  calls : List SessionCall := []
  arrived : List Bytes := []

namespace SessionRequest

variable (codecs : SessionCodecs)

/-- Whether a client of the type has the method. -/
def available (request : SessionRequest) (loggedIn : Bool) : Bool :=
  match request with
  | client .recvMsg => true
  | sendMsg _ => true
  | callServiceMethodNonAuthed _ _ => !loggedIn
  | client _ => loggedIn
  | sendHeartbeat => loggedIn
  | picsGetAccessTokens _ => loggedIn
  | picsGetProductInfo _ => loggedIn
  | checkBetaPassword _ _ => loggedIn

/-- Service calls take a job id. -/
def takesJob (request : SessionRequest) : Bool :=
  match request with
  | client (.callServiceMethod _ _) => true
  | callServiceMethodNonAuthed _ _ => true
  | _ => false

/-- The receive loop that the method drives. -/
def loop (request : SessionRequest) : Request :=
  match request with
  | client request => request
  | callServiceMethodNonAuthed methodName body => .callServiceMethod methodName body
  | _ => .recvMsg

/-- `send_msg` of a logged-in client fills in the identity of the session. -/
def stamp (inner : ClientInner) (msg : ClientMsg) : ClientMsg :=
  { msg with header := { msg.header with
      steamid := some inner.steamId
      clientSessionid := some inner.sessionId } }

/-- The message that a method sends. -/
def message (request : SessionRequest) (loggedIn : Bool) (jobId : Option UInt64)
    (inner : ClientInner) : Option ClientMsg :=
  match request with
  | client request => request.message codecs.wire jobId inner
  | callServiceMethodNonAuthed methodName body =>
      some
        { emsg := .serviceMethodCallFromClientNonAuthed
          header := { jobidSource := jobId, targetJobName := some methodName }
          body }
  | sendMsg msg => some (if loggedIn then stamp inner msg else msg)
  | sendHeartbeat => some ⟨.clientHeartBeat, {}, []⟩
  | picsGetAccessTokens appIds =>
      some (stamp inner
        ⟨.clientPicsAccessTokenRequest, {}, codecs.encodeAccessTokenRequest appIds⟩)
  | picsGetProductInfo apps =>
      some (stamp inner ⟨.clientPicsProductInfoRequest, {}, codecs.encodeProductInfoRequest apps⟩)
  | checkBetaPassword appId password =>
      some (stamp inner
        ⟨.clientCheckAppBetaPassword, {}, codecs.encodeCheckBetaPassword appId password⟩)

/-- Where a method goes once its message is sent. -/
def afterSend (request : SessionRequest) : SessionStage :=
  match request with
  | sendMsg _ => .returned (.ok .sent)
  | sendHeartbeat => .returned (.ok .sent)
  | _ => .running .polling

/-- The entries of an access token response that name both the app and the token. -/
def accessTokens (entries : List (Option UInt32 × Option UInt64)) : List AccessToken :=
  entries.filterMap fun entry =>
    match entry with
    | (some appId, some token) => some ⟨appId, token⟩
    | _ => none

def betaPasswordResponse (appId : UInt32) (msg : IncomingMsg) :
    Except SessionError SessionReply :=
  match codecs.decodeCheckBetaPasswordResponse msg.body with
  | none => .error (.client .decode)
  | some body =>
      match body.eresult with
      | none => .error (.client (.depotAccessDenied ⟨appId⟩ .invalid))
      | some eresult =>
          match EResultError.fromI32 eresult with
          | .error error => .error (.client (.depotAccessDenied ⟨appId⟩ error))
          | .ok () => .ok (.betaBranches body.betapasswords)

/-- What a method does with a message that the receive loop returns to it. The PICS calls
and the password check throw away what they do not wait for. -/
def handle (request : SessionRequest) (jobId : Option UInt64) (inner : ClientInner)
    (results : List PicsAppInfo) (msg : IncomingMsg) :
    ClientInner × List PicsAppInfo × SessionStage :=
  match request with
  | picsGetAccessTokens _ =>
      if msg.emsg = .clientPicsAccessTokenResponse then
        match codecs.decodeAccessTokenResponse msg.body with
        | none => (inner, results, .returned (.error (.client .decode)))
        | some entries => (inner, results, .returned (.ok (.accessTokens (accessTokens entries))))
      else (inner, results, .running .polling)
  | picsGetProductInfo _ =>
      if msg.emsg = .clientPicsProductInfoResponse then
        match codecs.decodeProductInfoResponse msg.body with
        | none => (inner, results, .returned (.error (.client .decode)))
        | some body =>
            let collected := results ++ body.apps
            if body.responsePending.getD false then (inner, collected, .running .polling)
            else (inner, collected, .returned (.ok (.productInfo collected)))
      else (inner, results, .running .polling)
  | checkBetaPassword appId _ =>
      if msg.emsg = .clientCheckAppBetaPasswordResponse then
        (inner, results, .returned (betaPasswordResponse codecs appId msg))
      else (inner, results, .running .polling)
  | request =>
      let handled := request.loop.handle codecs.wire jobId inner msg
      (handled.1, results, .ofLoop handled.2)

end SessionRequest

inductive SessionMove where
  | arrive (packet : Bytes)
  /-- `encrypt()` takes the request and answers it. -/
  | encrypt (sessionKey : DepotKey) (padding : Bytes)
  /-- `encrypt()` takes the result and says hello. -/
  | confirm (random : Vector UInt8 3)
  | login (msg : ClientMsg)
  | advanceLogin (random : Vector UInt8 3)
  /-- Sending or receiving fails in the handshake or the login. -/
  | ownerFails (reason : String)
  | begin (request : SessionRequest)
  | advance (call : Nat) (random : Vector UInt8 3)
  | transportFails (call : Nat) (reason : String)
  | abandon (call : Nat)

namespace Session

/-- The packets that arrive among some moves. -/
def arrivals (moves : List SessionMove) : List Bytes :=
  moves.filterMap fun
    | .arrive packet => some packet
    | _ => none

variable (codecs : SessionCodecs)

/-- `DisconnectedClient::connect`. -/
def connect : Session := { inner := { cipher := none, steamId := 0, sessionId := 0 } }

/-- Every message goes through the cipher. -/
def sendEncrypted (session : Session) (random : Vector UInt8 3) (msg : ClientMsg) : Session :=
  match session.inner.cipher with
  | none => { session with phase := .panicked }
  | some cipher =>
      { session with
        inner := { session.inner with sent := session.inner.sent ++ [msg] }
        wire := session.wire ++ [cipher.encrypt codecs.wire codecs.sealBlock random
          (Messages.ClientMsg.writeTo codecs.encoder msg)] }

/-- The message that opens every encrypted session. -/
def hello : ClientMsg := ⟨.clientHello, {}, codecs.encodeHello protocolVersion⟩

/-- The result code of a logon response: that of the body, else that of the header. -/
def logonResult (incoming : IncomingMsg) : Except SessionError Unit :=
  match codecs.decodeLogonResponse incoming.body with
  | none => .error (.client .decode)
  | some body =>
      match body.eresult.or incoming.header.eresult with
      | none => .error (.logonFailed .invalid)
      | some eresult => (EResultError.fromI32 eresult).mapError .logonFailed

/-- What the login does with a message: the logon response decides, the others go to the
event channel. -/
def handleLogin (session : Session) (msg : ClientMsg) (incoming : IncomingMsg) : Session :=
  if incoming.emsg = .clientLogOnResponse then
    match logonResult codecs incoming with
    | .error error => { session with phase := .dropped error }
    | .ok () =>
        { session with
          phase := .loggedIn incoming
          inner := { session.inner with
            steamId := incoming.header.steamid.getD session.inner.steamId
            sessionId := incoming.header.clientSessionid.getD session.inner.sessionId } }
  else
    { session with
      phase := .loggingIn msg .polling
      inner := { session.inner with events := session.inner.events ++ [incoming] } }

def advanceLogin (session : Session) (random : Vector UInt8 3) : Option Session :=
  match session.phase with
  | .loggingIn msg .sending =>
      some ({ session with phase := .loggingIn msg .polling }.sendEncrypted codecs random msg)
  | .loggingIn msg (.handed incoming) => some (session.handleLogin codecs msg incoming)
  | .loggingIn msg stage =>
      match Call.advance codecs.wire session.inner ⟨.recvMsg, none, stage⟩ with
      | none => none
      | some (inner, .returned (.error error)) =>
          some { session with inner, phase := .dropped (.client error) }
      | some (inner, stage) => some { session with inner, phase := .loggingIn msg stage }
  | _ => none

/-- A method takes the next job id if it needs one. -/
def start (session : Session) (request : SessionRequest) (loggedIn : Bool) : Session :=
  let stage : SessionStage :=
    if request = .client .recvMsg then .running .polling else .running .sending
  if request.takesJob then
    { session with
      inner := { session.inner with nextJobId := session.inner.nextJobId + 1 }
      calls := session.calls ++
        [⟨request, loggedIn, some session.inner.nextJobId, stage, [], none, []⟩] }
  else { session with calls := session.calls ++ [⟨request, loggedIn, none, stage, [], none, []⟩] }

/-- Run a method to its next await. -/
def advanceCall (session : Session) (index : Nat) (call : SessionCall)
    (random : Vector UInt8 3) : Option Session :=
  match call.stage with
  | .returned _ => none
  | .running .sending =>
      match call.request.message codecs call.loggedIn call.jobId session.inner with
      | none => none
      | some msg =>
          some ({ session with
            calls := session.calls.set index
              { call with stage := call.request.afterSend, sentMsg := some msg } }
              |>.sendEncrypted codecs random msg)
  | .running (.handed msg) =>
      let handled := call.request.handle codecs call.jobId session.inner call.results msg
      some { session with
        inner := handled.1
        calls := session.calls.set index
          { call with results := handled.2.1, stage := handled.2.2 } }
  | .running stage =>
      match Call.advance codecs.wire session.inner ⟨call.request.loop, call.jobId, stage⟩ with
      | none => none
      | some (inner, .handed msg) =>
          some { session with
            inner
            calls := session.calls.set index
              { call with stage := .running (.handed msg), handed := call.handed ++ [msg] } }
      | some (inner, stage) =>
          some { session with
            inner
            calls := session.calls.set index { call with stage := .ofLoop stage } }

def setStage (session : Session) (index : Nat) (call : SessionCall) (stage : SessionStage) :
    Session :=
  { session with calls := session.calls.set index { call with stage } }

def step (session : Session) : SessionMove → Option Session
  | .arrive packet =>
      some { session with
        inner := { session.inner with incoming := session.inner.incoming ++ [packet] }
        arrived := session.arrived ++ [packet] }
  | .encrypt sessionKey padding =>
      match session.phase, session.inner.incoming with
      | .connected, packet :: rest =>
          match Handshake.respond codecs.handshake sessionKey padding packet with
          | .error error =>
              some { session with
                phase := .dropped error
                inner := { session.inner with incoming := rest } }
          | .ok response =>
              some { session with
                phase := .keySent sessionKey
                inner := { session.inner with incoming := rest }
                wire := session.wire ++ [response] }
      | _, _ => none
  | .confirm random =>
      match session.phase, session.inner.incoming with
      | .keySent sessionKey, packet :: rest =>
          match Handshake.readResult packet with
          | .error error =>
              some { session with
                phase := .dropped error
                inner := { session.inner with incoming := rest } }
          | .ok () =>
              some ({ session with
                phase := .encrypted
                inner := { session.inner with
                  incoming := rest
                  cipher := some ⟨sessionKey⟩ } }.sendEncrypted codecs random (hello codecs))
      | _, _ => none
  | .login msg =>
      match session.phase with
      | .encrypted =>
          if ∀ call ∈ session.calls, ¬ call.InFlight then
            some { session with phase := .loggingIn msg .sending }
          else none
      | _ => none
  | .advanceLogin random => session.advanceLogin codecs random
  | .ownerFails reason =>
      match session.phase with
      | .connected => some { session with phase := .dropped (.client (.transport reason)) }
      | .keySent _ => some { session with phase := .dropped (.client (.transport reason)) }
      | .loggingIn _ .sending =>
          some { session with phase := .dropped (.client (.transport reason)) }
      | .loggingIn _ .receiving =>
          some { session with phase := .dropped (.client (.transport reason)) }
      | _ => none
  | .begin request =>
      match session.phase with
      | .encrypted => if request.available false then some (session.start request false) else none
      | .loggedIn _ => if request.available true then some (session.start request true) else none
      | _ => none
  | .advance index random =>
      match session.calls[index]? with
      | none => none
      | some call => session.advanceCall codecs index call random
  | .transportFails index reason =>
      match session.calls[index]? with
      | none => none
      | some call =>
          match call.stage with
          | .running .sending => some (session.setStage index call
              (.returned (.error (.client (.transport reason)))))
          | .running .receiving => some (session.setStage index call
              (.returned (.error (.client (.transport reason)))))
          | _ => none
  | .abandon index =>
      match session.calls[index]? with
      | none => none
      | some call =>
          if call.InFlight then some (session.setStage index call (.running .abandoned)) else none

/-- The runs of one session. -/
def machine : Machine Session SessionMove := ⟨step codecs⟩

end Session

end DepotDownloader.Steam
