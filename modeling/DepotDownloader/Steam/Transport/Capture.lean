import DepotDownloader.Foundation.Base64
import DepotDownloader.Foundation.LenientStore
import DepotDownloader.Steam.LittleEndian

/-! # Capture files and their replay

A capture is a JSON array of the packets received from the server, each with a
sequence number and its payload in base64. The replay transport feeds the packets
of a capture back to its callers.
-/

namespace DepotDownloader.Steam

open Foundation

/-- A single captured incoming packet. -/
structure CapturedPacket where
  seq : UInt32
  /-- Raw EMsg value from the first four bytes, for the reader of the file. -/
  emsg : Option UInt32
  payloadB64 : String
  deriving DecidableEq, Repr

namespace CapturedPacket

def new (seq : UInt32) (payload : Bytes) : CapturedPacket where
  seq := seq
  emsg :=
    if 4 ≤ payload.length then some (UInt32.ofNat (leNat (payload.take 4)) &&& 0x7fffffff)
    else none
  payloadB64 := String.ofList (Base64.encode payload)

def decodePayload (packet : CapturedPacket) : Option Bytes :=
  Base64.decode packet.payloadB64.toList

@[simp] theorem decodePayload_new (seq : UInt32) (payload : Bytes) :
    (new seq payload).decodePayload = some payload := by
  simp [decodePayload, new, Base64.decode_encode]

@[simp] theorem seq_new (seq : UInt32) (payload : Bytes) : (new seq payload).seq = seq := rfl

end CapturedPacket

/-- A full capture of incoming server packets for a session. -/
structure CaptureFile where
  description : String
  packets : List CapturedPacket
  deriving DecidableEq, Repr

/-- JSON for capture files. -/
structure CaptureCodecs where
  toStringPretty : CaptureFile → Bytes
  fromStr : Bytes → Option CaptureFile

/-- What is written is read back. -/
def CaptureCodecs.Lossless (codecs : CaptureCodecs) : Prop :=
  ∀ file, codecs.fromStr (codecs.toStringPretty file) = some file

inductive CaptureError where
  | unreadable
  | invalidData
  | base64
  deriving DecidableEq, Repr

namespace CaptureFile

def new (description : String) : CaptureFile := ⟨description, []⟩

variable (codecs : CaptureCodecs)

/-- Save over what is on the disk at the path. A write may fail before the file is opened
or after a part of the text. -/
def save (capture : CaptureFile) (file : Option Bytes) (fault : Option WriteFault) :
    Option Bytes :=
  match fault with
  | none => some (codecs.toStringPretty capture)
  | some .unopened => file
  | some (.cut written) => some ((codecs.toStringPretty capture).take written)

def load (file : Option Bytes) : Except CaptureError CaptureFile :=
  match file with
  | none => .error .unreadable
  | some json =>
      match codecs.fromStr json with
      | none => .error .invalidData
      | some capture => .ok capture

end CaptureFile

/-- A transport that replays packets from a capture file. -/
structure ReplayTransport where
  packets : List Bytes
  /-- How many receives there have been. -/
  cursor : UInt64
  deriving DecidableEq, Repr

inductive ReplayMove where
  | send (payload : Bytes)
  | recv
  deriving DecidableEq

namespace ReplayTransport

/-- `None` where a payload is not base64. -/
def fromCapture (capture : CaptureFile) : Option ReplayTransport :=
  (capture.packets.mapM CapturedPacket.decodePayload).map fun packets => ⟨packets, 0⟩

def fromFile (codecs : CaptureCodecs) (file : Option Bytes) :
    Except CaptureError ReplayTransport :=
  match CaptureFile.load codecs file with
  | .error error => .error error
  | .ok capture =>
      match fromCapture capture with
      | none => .error .base64
      | some replay => .ok replay

/-- Receives return packets in order. Without a packet the peer counts as disconnected. -/
def recv (replay : ReplayTransport) : ReplayTransport × Option Bytes :=
  ({ replay with cursor := replay.cursor + 1 }, replay.packets[replay.cursor.toNat]?)

/-- What the receives among some calls return, whoever makes them. Sends are discarded. -/
def serve (replay : ReplayTransport) : List ReplayMove → List (Option Bytes)
  | [] => []
  | .send _ :: rest => serve replay rest
  | .recv :: rest => replay.recv.2 :: serve replay.recv.1 rest

/-- The receives of a replay hand out its packets in order, and then nothing. -/
theorem serve_eq {replay : ReplayTransport} {moves : List ReplayMove}
    (hfew : replay.cursor.toNat + (moves.count .recv) < 2 ^ 64) :
    replay.serve moves = (List.range (moves.count .recv)).map fun place =>
      replay.packets[replay.cursor.toNat + place]? := by
  induction moves generalizing replay with
  | nil => rfl
  | cons move rest ih =>
      cases move with
      | send payload =>
          rw [List.count_cons_of_ne (by exact nofun)] at hfew ⊢
          exact ih hfew
      | recv =>
          rw [List.count_cons_self] at hfew ⊢
          have hcursor : (replay.cursor + 1).toNat = replay.cursor.toNat + 1 := by
            rw [UInt64.toNat_add, UInt64.toNat_one, Nat.mod_eq_of_lt (by omega)]
          have htail := @ih replay.recv.1 (by simp only [recv, hcursor]; omega)
          rw [serve, htail, List.range_succ_eq_map, List.map_cons, List.map_map]
          refine List.cons_eq_cons.mpr ⟨by simp [recv], List.map_congr_left fun place _ => ?_⟩
          simp only [recv, hcursor, Function.comp_apply]
          congr 1
          omega

/-- A capture whose payloads are written by the recorder is replayed. -/
theorem fromCapture_of_payloads {capture : CaptureFile} {payloads : List Bytes}
    (hpayloads : capture.packets.map CapturedPacket.decodePayload = payloads.map some) :
    fromCapture capture = some ⟨payloads, 0⟩ := by
  have hall : ∀ (packets : List CapturedPacket) (payloads : List Bytes),
      packets.map CapturedPacket.decodePayload = payloads.map some →
        packets.mapM CapturedPacket.decodePayload = some payloads := by
    intro packets
    induction packets with
    | nil =>
        intro payloads hmap
        obtain rfl : payloads = [] := by simpa using hmap.symm
        rfl
    | cons packet rest ih =>
        intro payloads hmap
        cases payloads with
        | nil => cases hmap
        | cons payload payloads =>
            obtain ⟨hhead, htail⟩ := List.cons.inj hmap
            simp [List.mapM_cons, hhead, ih payloads htail]
  rw [fromCapture, hall _ _ hpayloads, Option.map_some]

end ReplayTransport

end DepotDownloader.Steam
