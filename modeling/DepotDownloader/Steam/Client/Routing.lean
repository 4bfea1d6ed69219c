import DepotDownloader.Foundation.Machine
import DepotDownloader.Steam.Client.Multi
import DepotDownloader.Steam.Client.PacketAgreement
import DepotDownloader.Steam.Connection.Encryption

/-! # The receive loop of a logged-in client

Any number of calls share one connection. Each call drives the same receive
loop: it takes a message from the queue, or else the next packet from the
transport, and returns the message to its caller unless the message belongs to
a job registered as pending. A call can be preempted wherever it awaits, and
its future can be dropped there.
-/

namespace DepotDownloader.Steam

open Foundation

/-- What the calls of one client share. `incoming` holds the packets that the
server has sent and no call has received, `events` what was forwarded to the
event channel and `routed` what was sent to a registered job. -/
structure ClientInner where
  incoming : List Bytes := []
  sent : List ClientMsg := []
  cipher : Option SessionCipher
  steamId : UInt64
  sessionId : Int
  nextJobId : UInt64 := 1
  pendingJobs : List UInt64 := []
  routed : List (UInt64 × IncomingMsg) := []
  events : List IncomingMsg := []
  msgQueue : List IncomingMsg := []

/-- The calls on the client. `recvMsg` is the receive loop alone. -/
inductive Request where
  | callServiceMethod (methodName : String) (body : Bytes)
  | getDepotDecryptionKey (depotId : DepotId) (appId : UInt32)
  | recvMsg
  deriving DecidableEq, Repr

inductive Reply where
  | service (body : Bytes)
  | depotKey (key : DepotKey)
  | message (msg : IncomingMsg)
  deriving DecidableEq

/-- Where a call stands between two awaits. -/
inductive Stage where
  /-- The request is not on the wire yet. -/
  | sending
  /-- About to look into the message queue. -/
  | polling
  /-- Waiting for a packet. -/
  | receiving
  | received (raw : Bytes)
  /-- Waiting to put the messages of a bundle into the queue. -/
  | unpacked (subMessages : List Bytes)
  /-- The receive loop returned a message to the call. -/
  | handed (msg : IncomingMsg)
  | returned (result : Except ClientError Reply)
  | abandoned
  deriving DecidableEq

/-- A call and the job it was given. -/
structure Call where
  request : Request
  jobId : Option UInt64
  stage : Stage
  deriving DecidableEq

namespace Call

def InFlight (call : Call) : Prop :=
  match call.stage with
  | .returned _ => False
  | .abandoned => False
  | _ => True

instance (call : Call) : Decidable call.InFlight := by
  unfold InFlight
  cases call.stage <;> infer_instance

end Call

/-- One message that a receive loop returned: to which call, and the calls at
that moment. -/
structure Handing where
  call : Nat
  msg : IncomingMsg
  calls : List Call

structure SteamClient where
  inner : ClientInner
  calls : List Call := []
  handings : List Handing := []

namespace IncomingMsg

/-- A service method response names its job. -/
def Answers (msg : IncomingMsg) (job : UInt64) : Prop :=
  msg.emsg = .serviceMethodResponse ∧ msg.header.jobidTarget = some job

instance (msg : IncomingMsg) (job : UInt64) : Decidable (msg.Answers job) :=
  inferInstanceAs (Decidable (_ ∧ _))

end IncomingMsg

namespace ClientInner

/-- Send a response to its registered job, or return the message. The excepted
job is not routed: its response passes through to the caller. -/
def recvRouted (inner : ClientInner) (exceptJobId : Option UInt64) (msg : IncomingMsg) :
    ClientInner × Option IncomingMsg :=
  if msg.emsg = .serviceMethodResponse then
    match msg.header.jobidTarget with
    | none => (inner, some msg)
    | some job =>
        if exceptJobId ≠ some job ∧ job ∈ inner.pendingJobs then
          ({ inner with
              pendingJobs := inner.pendingJobs.erase job
              routed := inner.routed ++ [(job, msg)] }, none)
        else (inner, some msg)
  else (inner, some msg)

def recvRoutedMsg (inner : ClientInner) (msg : IncomingMsg) : ClientInner × Option IncomingMsg :=
  inner.recvRouted none msg

def recvRoutedMsgExcept (inner : ClientInner) (exceptJobId : UInt64) (msg : IncomingMsg) :
    ClientInner × Option IncomingMsg :=
  inner.recvRouted (some exceptJobId) msg

/-- A packet after decryption and parsing: one message, or the messages of a
bundle, still unparsed. -/
inductive Packet where
  | single (msg : IncomingMsg)
  | bundle (subMessages : List Bytes)

variable (codecs : WireCodecs)

def decryptPacket (inner : ClientInner) (raw : Bytes) : Except ClientError Bytes :=
  match inner.cipher with
  | none => .ok raw
  | some cipher => (cipher.decrypt codecs raw).mapError .crypto

def openPacket (inner : ClientInner) (raw : Bytes) : Except ClientError Packet :=
  match inner.decryptPacket codecs raw with
  | .error error => .error error
  | .ok payload =>
      match parseIncoming codecs payload with
      | .error error => .error error
      | .ok msg =>
          if msg.emsg = .multi then (unpackMulti codecs msg.body).map .bundle
          else .ok (.single msg)

/-- The messages of a bundle that parse. The others are dropped with a warning. -/
def parsedMessages (subMessages : List Bytes) : List IncomingMsg :=
  subMessages.filterMap fun sub => (parseIncoming codecs sub).toOption

/-- The messages that a packet brings. -/
def messages (inner : ClientInner) (raw : Bytes) : List IncomingMsg :=
  match inner.openPacket codecs raw with
  | .error _ => []
  | .ok (.single msg) => [msg]
  | .ok (.bundle subMessages) => parsedMessages codecs subMessages

end ClientInner

namespace Request

variable (codecs : WireCodecs)

/-- The message that opens a call, with the session's identifiers filled in. -/
def message (request : Request) (jobId : Option UInt64) (inner : ClientInner) :
    Option ClientMsg :=
  match request with
  | callServiceMethod methodName body =>
      some
        { emsg := .serviceMethodCallFromClient
          header :=
            { steamid := some inner.steamId
              clientSessionid := some inner.sessionId
              jobidSource := jobId
              targetJobName := some methodName }
          body }
  | getDepotDecryptionKey depotId appId =>
      some
        { emsg := .clientGetDepotDecryptionKey
          header := { steamid := some inner.steamId, clientSessionid := some inner.sessionId }
          body := codecs.encodeDepotKeyRequest ⟨some depotId, some appId⟩ }
  | recvMsg => none

/-- The result code of a response has to be success where it is present. -/
def serviceResponse (msg : IncomingMsg) : Except ClientError Reply :=
  match msg.header.eresult with
  | none => .ok (.service msg.body)
  | some eresult =>
      match EResultError.fromI32 eresult with
      | .error error => .error (.serviceMethodFailed error)
      | .ok () => .ok (.service msg.body)

/-- What `get_depot_decryption_key` makes of the first key response it sees. -/
def depotKeyResponse (depotId : DepotId) (msg : IncomingMsg) : Except ClientError Reply :=
  match codecs.decodeDepotKeyResponse msg.body with
  | none => .error .decode
  | some body =>
      match body.eresult with
      | none => .error (.depotAccessDenied depotId .invalid)
      | some eresult =>
          match EResultError.fromI32 eresult with
          | .error error => .error (.depotAccessDenied depotId error)
          | .ok () =>
              match body.depotEncryptionKey with
              | none => .error (.crypto (.invalidKeyLength 32 0))
              | some keyBytes =>
                  if hlength : keyBytes.toArray.size = 32 then
                    .ok (.depotKey ⟨⟨keyBytes.toArray, hlength⟩⟩)
                  else .error (.crypto (.invalidKeyLength 32 keyBytes.length))

/-- What a call does with a message it was handed: it returns, or it goes on
waiting. A service call forwards the messages it does not wait for to the event
channel; the depot key call drops them. -/
def handle (request : Request) (jobId : Option UInt64) (inner : ClientInner)
    (msg : IncomingMsg) : ClientInner × Stage :=
  match request with
  | callServiceMethod _ _ =>
      if msg.emsg = .serviceMethodResponse ∧ msg.header.jobidTarget = jobId then
        (inner, .returned (serviceResponse msg))
      else ({ inner with events := inner.events ++ [msg] }, .polling)
  | getDepotDecryptionKey depotId _ =>
      if msg.emsg = .clientGetDepotDecryptionKeyResponse then
        (inner, .returned (depotKeyResponse codecs depotId msg))
      else (inner, .polling)
  | recvMsg => (inner, .returned (.ok (.message msg)))

end Request

namespace Call

variable (codecs : WireCodecs)

/-- The receive loop of a call routes a message: a service call leaves its own
job to itself. -/
def route (call : Call) (inner : ClientInner) (msg : IncomingMsg) :
    ClientInner × Option IncomingMsg :=
  match call.request, call.jobId with
  | .callServiceMethod _ _, some jobId => inner.recvRoutedMsgExcept jobId msg
  | _, _ => inner.recvRoutedMsg msg

/-- Where the receive loop goes after routing. -/
def afterRoute : Option IncomingMsg → Stage
  | some msg => .handed msg
  | none => .polling

/-- Run a call to its next await. A call that waits for a packet is blocked
while the transport is empty. -/
def advance (inner : ClientInner) (call : Call) : Option (ClientInner × Stage) :=
  match call.stage with
  | .sending =>
      some ({ inner with sent := inner.sent ++
        (call.request.message codecs call.jobId inner).toList }, .polling)
  | .polling =>
      match inner.msgQueue with
      | [] => some (inner, .receiving)
      | msg :: rest =>
          let routed := call.route { inner with msgQueue := rest } msg
          some (routed.1, afterRoute routed.2)
  | .receiving =>
      match inner.incoming with
      | [] => none
      | raw :: rest => some ({ inner with incoming := rest }, .received raw)
  | .received raw =>
      match inner.openPacket codecs raw with
      | .error error => some (inner, .returned (.error error))
      | .ok (.bundle subMessages) => some (inner, .unpacked subMessages)
      | .ok (.single msg) =>
          let routed := call.route inner msg
          some (routed.1, afterRoute routed.2)
  | .unpacked subMessages =>
      some ({ inner with msgQueue := inner.msgQueue ++
        ClientInner.parsedMessages codecs subMessages }, .polling)
  | .handed msg => some (call.request.handle codecs call.jobId inner msg)
  | .returned _ => none
  | .abandoned => none

end Call

/-- The moves of the calls, the server and the transport. -/
inductive ClientMove where
  | begin (request : Request)
  | advance (call : Nat)
  /-- Sending or receiving fails. -/
  | transportFails (call : Nat) (reason : String)
  /-- The future of a call is dropped. -/
  | abandon (call : Nat)
  | arrive (packet : Bytes)

namespace SteamClient

variable (codecs : WireCodecs)

/-- A service call takes the next job id; the other calls have none. -/
def start (client : SteamClient) (request : Request) : SteamClient :=
  match request with
  | .callServiceMethod _ _ =>
      { client with
        inner := { client.inner with nextJobId := client.inner.nextJobId + 1 }
        calls := client.calls ++ [⟨request, some client.inner.nextJobId, .sending⟩] }
  | .getDepotDecryptionKey _ _ =>
      { client with calls := client.calls ++ [⟨request, none, .sending⟩] }
  | .recvMsg => { client with calls := client.calls ++ [⟨request, none, .polling⟩] }

def setStage (client : SteamClient) (index : Nat) (call : Call) (stage : Stage) : SteamClient :=
  { client with calls := client.calls.set index { call with stage } }

/-- The handing that a step ends with, if it ends with one. -/
def handing (client : SteamClient) (index : Nat) : Stage → List Handing
  | .handed msg => [⟨index, msg, client.calls⟩]
  | _ => []

def step (client : SteamClient) : ClientMove → Option SteamClient
  | .begin request => some (client.start request)
  | .arrive packet =>
      some { client with inner := { client.inner with
        incoming := client.inner.incoming ++ [packet] } }
  | .advance index =>
      match client.calls[index]? with
      | none => none
      | some call =>
          match call.advance codecs client.inner with
          | none => none
          | some (inner, stage) =>
              some { inner
                     calls := client.calls.set index { call with stage }
                     handings := client.handings ++ client.handing index stage }
  | .transportFails index reason =>
      match client.calls[index]? with
      | none => none
      | some call =>
          match call.stage with
          | .sending => some (client.setStage index call (.returned (.error (.transport reason))))
          | .receiving => some (client.setStage index call (.returned (.error (.transport reason))))
          | _ => none
  | .abandon index =>
      match client.calls[index]? with
      | none => none
      | some call =>
          if call.InFlight then some (client.setStage index call .abandoned) else none

/-- The runs of one client. -/
def machine : Machine SteamClient ClientMove := ⟨step codecs⟩

/-- A client right after the login. The handshake may have left messages in the
queue and used job ids. -/
def loggedIn (inner : ClientInner) : SteamClient := { inner }

end SteamClient

end DepotDownloader.Steam
