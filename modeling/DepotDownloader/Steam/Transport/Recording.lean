import DepotDownloader.Foundation.Interleaving
import DepotDownloader.Foundation.Machine
import DepotDownloader.Foundation.TableCodec
import DepotDownloader.Steam.Transport.Capture
import Mathlib.Tactic.DeriveEncodable

/-! # The recording transport

A transport that records all incoming packets passing through it. Several receives
may run at once: a receive takes a packet from the transport below, draws the next
sequence number, and later pushes the packet to the capture under the lock, and other
receives go on between any two of these.
-/

namespace DepotDownloader.Steam

open Foundation

/-- Where a receive stands. The number that a returned one has drawn is history, like what a
dropped one leaves behind. -/
inductive RecvStage where
  | receiving
  | received (payload : Bytes)
  /-- Waiting for the capture. -/
  | numbered (seq : UInt32) (payload : Bytes)
  | returned (seq : UInt32) (payload : Bytes)
  | failed (reason : String)
  | abandoned (lost : Option (UInt32 × Bytes))
  deriving DecidableEq

namespace RecvStage

def InFlight : RecvStage → Prop
  | receiving => True
  | received _ => True
  | numbered _ _ => True
  | _ => False

instance (stage : RecvStage) : Decidable stage.InFlight := by
  cases stage <;> unfold InFlight <;> infer_instance

/-- The packet that a receive has taken. -/
def packet : RecvStage → Option Bytes
  | received payload => some payload
  | numbered _ payload => some payload
  | returned _ payload => some payload
  | abandoned lost => lost.map Prod.snd
  | _ => none

/-- The sequence number that a receive has drawn. -/
def number : RecvStage → Option UInt32
  | numbered seq _ => some seq
  | returned seq _ => some seq
  | abandoned lost => lost.map Prod.fst
  | _ => none

/-- The packet and the number of a receive that has returned. -/
def reply : RecvStage → Option (UInt32 × Bytes)
  | returned seq payload => some (seq, payload)
  | _ => none

theorem number_of_reply {stage : RecvStage} {seq : UInt32} {payload : Bytes}
    (hreply : stage.reply = some (seq, payload)) :
    stage.number = some seq ∧ stage.packet = some payload := by
  cases stage with
  | returned => cases hreply; exact ⟨rfl, rfl⟩
  | receiving | received | numbered | failed | abandoned => cases hreply

theorem packet_of_number {stage : RecvStage} (hnumber : stage.number ≠ none) :
    stage.packet ≠ none := by
  cases stage with
  | abandoned lost => cases lost <;> simp_all [number, packet]
  | receiving | received | numbered | returned | failed => simp_all [number, packet]

end RecvStage

/-- `upstream` holds what the transport below has yet to deliver, `taken` what it has
delivered, and `file` what is on the disk at the output path. -/
structure RecordingTransport where
  upstream : List Bytes := []
  capture : CaptureFile
  seq : UInt32 := 0
  recvs : List RecvStage := []
  file : Option Bytes := none
  dropped : Bool := false
  taken : List Bytes := []

/-- What a receive does next. -/
inductive RecvMove where
  | take
  | fail (reason : String)
  | number
  | push
  /-- The future is dropped where it awaits. -/
  | abandon
  deriving DecidableEq

inductive RecordingMove where
  | arrive (packet : Bytes)
  | begin
  | recv (index : Nat) (move : RecvMove)
  | flush (fault : Option WriteFault)
  | drop (fault : Option WriteFault)
  deriving DecidableEq

namespace RecordingTransport

variable (codecs : CaptureCodecs)

def new (description : String) (file : Option Bytes) : RecordingTransport where
  capture := .new description
  file := file

def withRecv (transport : RecordingTransport) (index : Nat) (stage : RecvStage) :
    RecordingTransport :=
  { transport with recvs := transport.recvs.set index stage }

/-- Push a packet to the capture. -/
def record (transport : RecordingTransport) (seq : UInt32) (payload : Bytes) :
    RecordingTransport :=
  { transport with
    capture := { transport.capture with
      packets := transport.capture.packets ++ [.new seq payload] } }

def flush (transport : RecordingTransport) (fault : Option WriteFault) : RecordingTransport :=
  { transport with file := transport.capture.save codecs transport.file fault }

/-- Dropping the transport flushes what there is. -/
def drop (transport : RecordingTransport) (fault : Option WriteFault) : RecordingTransport :=
  if transport.capture.packets.isEmpty then { transport with dropped := true }
  else { transport.flush codecs fault with dropped := true }

/-- One receive goes on. -/
def advance (transport : RecordingTransport) (index : Nat) (stage : RecvStage)
    (move : RecvMove) : Option RecordingTransport :=
  match stage, move with
  | .receiving, .take =>
      match transport.upstream with
      | [] => none
      | payload :: rest =>
          some { transport.withRecv index (.received payload) with
            upstream := rest
            taken := transport.taken ++ [payload] }
  | .receiving, .fail reason => some (transport.withRecv index (.failed reason))
  | .receiving, .abandon => some (transport.withRecv index (.abandoned none))
  | .received payload, .number =>
      some { transport.withRecv index (.numbered transport.seq payload) with
        seq := transport.seq + 1 }
  | .numbered seq payload, .push =>
      some ((transport.withRecv index (.returned seq payload)).record seq payload)
  | .numbered seq payload, .abandon =>
      some (transport.withRecv index (.abandoned (some (seq, payload))))
  | _, _ => none

def step (transport : RecordingTransport) (move : RecordingMove) : Option RecordingTransport :=
  if transport.dropped then none
  else
    match move with
    | .arrive packet => some { transport with upstream := transport.upstream ++ [packet] }
    | .begin => some { transport with recvs := transport.recvs ++ [.receiving] }
    | .recv index move =>
        match transport.recvs[index]? with
        | none => none
        | some stage => transport.advance index stage move
    | .flush fault => some (transport.flush codecs fault)
    -- the receives borrow the transport
    | .drop fault =>
        if ∃ stage ∈ transport.recvs, stage.InFlight then none
        else some (transport.drop codecs fault)

/-- All interleavings of the receives, the arrivals and the flushes. -/
def machine : Machine RecordingTransport RecordingMove where
  step := step codecs

/-- What a step of one receive makes of it. -/
inductive Advance (transport : RecordingTransport) (index : Nat) :
    RecvStage → RecvMove → RecordingTransport → Prop where
  | takes {payload : Bytes} {rest : List Bytes} (hupstream : transport.upstream = payload :: rest) :
      Advance transport index .receiving .take
        { transport.withRecv index (.received payload) with
          upstream := rest
          taken := transport.taken ++ [payload] }
  | fails (reason : String) :
      Advance transport index .receiving (.fail reason)
        (transport.withRecv index (.failed reason))
  | leaves :
      Advance transport index .receiving .abandon (transport.withRecv index (.abandoned none))
  | numbers (payload : Bytes) :
      Advance transport index (.received payload) .number
        { transport.withRecv index (.numbered transport.seq payload) with
          seq := transport.seq + 1 }
  | pushes (seq : UInt32) (payload : Bytes) :
      Advance transport index (.numbered seq payload) .push
        ((transport.withRecv index (.returned seq payload)).record seq payload)
  | loses (seq : UInt32) (payload : Bytes) :
      Advance transport index (.numbered seq payload) .abandon
        (transport.withRecv index (.abandoned (some (seq, payload))))

variable {codecs} {transport next : RecordingTransport} {index : Nat} {stage : RecvStage}

theorem advance_cases {move : RecvMove}
    (hadvance : transport.advance index stage move = some next) :
    Advance transport index stage move next := by
  unfold advance at hadvance
  split at hadvance
  next =>
    split at hadvance
    next => cases hadvance
    next hupstream => cases hadvance; exact .takes hupstream
  next => cases hadvance; exact .fails _
  next => cases hadvance; exact .leaves
  next => cases hadvance; exact .numbers _
  next => cases hadvance; exact .pushes _ _
  next => cases hadvance; exact .loses _ _
  next => cases hadvance

/-- What a step does to the state besides the file on the disk. -/
inductive Step (transport : RecordingTransport) :
    RecordingMove → RecordingTransport → Prop where
  | arrives (packet : Bytes) :
      Step transport (.arrive packet) { transport with upstream := transport.upstream ++ [packet] }
  | begins : Step transport .begin { transport with recvs := transport.recvs ++ [.receiving] }
  | advances {index : Nat} {stage : RecvStage} {move : RecvMove} {next : RecordingTransport}
      (hstage : transport.recvs[index]? = some stage)
      (hadvance : Advance transport index stage move next) :
      Step transport (.recv index move) next
  | writes {move : RecordingMove} (file : Option Bytes) (dropped : Bool) :
      Step transport move { transport with file, dropped }

theorem step_cases {move : RecordingMove} (hstep : transport.step codecs move = some next) :
    Step transport move next := by
  unfold step at hstep
  split at hstep
  next => cases hstep
  next =>
    cases move with
    | arrive packet => cases hstep; exact .arrives packet
    | begin => cases hstep; exact .begins
    | recv index move =>
        simp only at hstep
        split at hstep
        next => cases hstep
        next hstage => exact .advances hstage (advance_cases hstep)
    | flush fault => cases hstep; exact .writes _ _
    | drop fault =>
        simp only at hstep
        split at hstep
        next => cases hstep
        next =>
          cases hstep
          unfold drop
          split
          · exact .writes _ _
          · exact .writes _ _

/-- The accounts of a recording: every packet that was delivered is with one receive, the
numbers drawn are the first ones, and the capture holds the packets of the receives that have
returned. -/
structure Accounts (transport : RecordingTransport) (count : Nat) : Prop where
  packets : transport.taken.Perm (transport.recvs.filterMap RecvStage.packet)
  numbers : (transport.recvs.filterMap RecvStage.number).Perm
    ((List.range count).map UInt32.ofNat)
  seq : transport.seq = UInt32.ofNat count
  entries : ∃ replies : List (UInt32 × Bytes),
    replies.Perm (transport.recvs.filterMap RecvStage.reply) ∧
      transport.capture.packets = replies.map fun reply => .new reply.1 reply.2

namespace Accounts

variable {count : Nat}

theorem new (description : String) (file : Option Bytes) :
    Accounts (RecordingTransport.new description file) 0 where
  packets := .nil
  numbers := .nil
  seq := rfl
  entries := ⟨[], .nil, rfl⟩

/-- A step of one receive settles its share of each account. -/
theorem advance {move : RecvMove} (haccounts : Accounts transport count)
    (hstage : transport.recvs[index]? = some stage)
    (hadvance : Advance transport index stage move next) : ∃ count, Accounts next count := by
  obtain ⟨hpackets, hnumbers, hseq, replies, hreplies, hcapture⟩ := haccounts
  have hpackets' {stage' : RecvStage} (hsame : stage'.packet = stage.packet) :
      transport.taken.Perm ((transport.recvs.set index stage').filterMap RecvStage.packet) := by
    rw [filterMap_set_of_eq hstage hsame]
    exact hpackets
  have hnumbers' {stage' : RecvStage} (hsame : stage'.number = stage.number) :
      ((transport.recvs.set index stage').filterMap RecvStage.number).Perm
        ((List.range count).map UInt32.ofNat) := by
    rw [filterMap_set_of_eq hstage hsame]
    exact hnumbers
  have hreplies' {stage' : RecvStage} (hsame : stage'.reply = stage.reply) :
      replies.Perm ((transport.recvs.set index stage').filterMap RecvStage.reply) := by
    rw [filterMap_set_of_eq hstage hsame]
    exact hreplies
  cases hadvance with
  | takes hupstream =>
      refine ⟨count, ?_, hnumbers' rfl, hseq, replies, hreplies' rfl, hcapture⟩
      exact (hpackets.append_right _).trans (perm_filterMap_set hstage (by rfl) (by rfl)).symm
  | fails | leaves | loses =>
      exact ⟨count, hpackets' rfl, hnumbers' rfl, hseq, replies, hreplies' rfl, hcapture⟩
  | numbers payload =>
      refine ⟨count + 1, hpackets' rfl, ?_, ?_, replies, hreplies' rfl, hcapture⟩
      · rw [List.range_succ, List.map_append, List.map_singleton, ← hseq]
        exact (perm_filterMap_set hstage (by rfl) (by rfl)).trans (hnumbers.append_right _)
      · simp only [hseq, UInt32.ofNat_add, UInt32.ofNat_one]
  | pushes seq payload =>
      refine ⟨count, hpackets' rfl, hnumbers' rfl, hseq, replies ++ [(seq, payload)], ?_, ?_⟩
      · exact (hreplies.append_right _).trans (perm_filterMap_set hstage (by rfl) (by rfl)).symm
      · simp only [withRecv, record, hcapture, List.map_append, List.map_singleton]

theorem step {move : RecordingMove} (haccounts : Accounts transport count)
    (hstep : Step transport move next) : ∃ count, Accounts next count := by
  cases hstep with
  | arrives | writes =>
      exact ⟨count, haccounts.packets, haccounts.numbers, haccounts.seq, haccounts.entries⟩
  | begins =>
      refine ⟨count, ?_, ?_, haccounts.seq, ?_⟩
      · simp only [filterMap_append_of_none (show RecvStage.packet .receiving = none from rfl)]
        exact haccounts.packets
      · simp only [filterMap_append_of_none (show RecvStage.number .receiving = none from rfl)]
        exact haccounts.numbers
      · simp only [filterMap_append_of_none (show RecvStage.reply .receiving = none from rfl)]
        exact haccounts.entries
  | advances hstage hadvance => exact haccounts.advance hstage hadvance

theorem run {description : String} {file : Option Bytes} {moves : List RecordingMove}
    (hrun : (machine codecs).run (.new description file) moves = some transport) :
    ∃ count, Accounts transport count := by
  have hstep (transport : RecordingTransport) (move : RecordingMove) (next : RecordingTransport)
      (hkept : ∃ count, Accounts transport count) (_ : True)
      (hstep : transport.step codecs move = some next) : ∃ count, Accounts next count := by
    obtain ⟨count, haccounts⟩ := hkept
    exact haccounts.step (step_cases hstep)
  exact (machine codecs).run_invariant hstep (fun _ _ => trivial) ⟨0, .new _ _⟩ hrun

end Accounts

/-- The first numbers are drawn once each, as long as they do not wrap. -/
theorem nodup_range_ofNat {count : Nat} (hcount : count ≤ 2 ^ 32) :
    ((List.range count).map UInt32.ofNat).Nodup := by
  refine (List.nodup_range).map_on fun first hfirst second hsecond heq => ?_
  have hlt {place : Nat} (hplace : place ∈ List.range count) :
      (UInt32.ofNat place).toNat = place := by
    rw [UInt32.toNat_ofNat', Nat.mod_eq_of_lt]
    exact lt_of_lt_of_le (List.mem_range.mp hplace) hcount
  rw [← hlt hfirst, ← hlt hsecond, heq]

/-- A receive that has returned has drawn its number. -/
theorem seqs_sublist (recvs : List RecvStage) :
    ((recvs.filterMap RecvStage.reply).map Prod.fst).Sublist
      (recvs.filterMap RecvStage.number) := by
  induction recvs with
  | nil => exact List.Sublist.slnil
  | cons stage rest ih =>
      cases hreply : stage.reply with
      | some reply =>
          have hnumber := (RecvStage.number_of_reply hreply).1
          simpa [hreply, hnumber] using ih
      | none =>
          cases hnumber : stage.number with
          | some seq => simpa [hreply, hnumber] using ih.cons seq
          | none => simpa [hreply, hnumber] using ih

/-- Numbers are drawn for packets that have been taken. -/
theorem length_numbers_le (recvs : List RecvStage) :
    (recvs.filterMap RecvStage.number).length ≤ (recvs.filterMap RecvStage.packet).length := by
  induction recvs with
  | nil => exact Nat.le_refl 0
  | cons stage rest ih =>
      cases hnumber : stage.number with
      | some seq =>
          obtain ⟨payload, hpacket⟩ := Option.ne_none_iff_exists'.mp
            (RecvStage.packet_of_number (hnumber ▸ Option.some_ne_none seq))
          simpa [hnumber, hpacket] using ih
      | none =>
          cases hpacket : stage.packet with
          | some payload => simpa [hnumber, hpacket] using Nat.le_succ_of_le ih
          | none => simpa [hnumber, hpacket] using ih

/-- When the receives that took a packet have all returned, their packets and numbers are
those of their replies. -/
theorem replies_of_returned {recvs : List RecvStage}
    (hreturned : ∀ stage ∈ recvs, stage.packet ≠ none → stage.reply ≠ none) :
    (recvs.filterMap RecvStage.reply).map Prod.snd = recvs.filterMap RecvStage.packet ∧
      (recvs.filterMap RecvStage.reply).map Prod.fst = recvs.filterMap RecvStage.number := by
  induction recvs with
  | nil => exact ⟨rfl, rfl⟩
  | cons stage rest ih =>
      obtain ⟨hhead, htail⟩ := List.forall_mem_cons.mp hreturned
      obtain ⟨hpackets, hnumbers⟩ := ih htail
      cases hreply : stage.reply with
      | some reply =>
          obtain ⟨hnumber, hpacket⟩ := RecvStage.number_of_reply hreply
          simp [hreply, hnumber, hpacket, hpackets, hnumbers]
      | none =>
          have hpacket : stage.packet = none := by
            by_contra hsome
            exact hhead hsome hreply
          have hnumber : stage.number = none := by
            by_contra hsome
            exact RecvStage.packet_of_number hsome hpacket
          simp [hreply, hnumber, hpacket, hpackets, hnumbers]

/-- The accounts of a recording, in every state of every run of at most 2^32 packets,
whichever receives overlap, fail or are dropped: every packet that was delivered is with one
receive; the capture holds the packets of the receives that have returned, each once, under
numbers that differ; and when no receive holds a packet back, it holds all packets under the
numbers from zero on. -/
theorem recording_exact {codecs : CaptureCodecs} {description : String} {file : Option Bytes}
    {moves : List RecordingMove} {transport : RecordingTransport}
    (hrun : (machine codecs).run (new description file) moves = some transport)
    (hfew : transport.taken.length ≤ 2 ^ 32) :
    transport.taken.Perm (transport.recvs.filterMap RecvStage.packet) ∧
      (transport.capture.packets.map CapturedPacket.seq).Nodup ∧
      (∃ replies : List (UInt32 × Bytes),
        replies.Perm (transport.recvs.filterMap RecvStage.reply) ∧
          transport.capture.packets = replies.map fun reply => .new reply.1 reply.2) ∧
      ((∀ stage ∈ transport.recvs, stage.packet ≠ none → stage.reply ≠ none) →
        (transport.capture.packets.map CapturedPacket.decodePayload).Perm
            (transport.taken.map some) ∧
          (transport.capture.packets.map CapturedPacket.seq).Perm
            ((List.range transport.taken.length).map UInt32.ofNat)) := by
  obtain ⟨count, haccounts⟩ := Accounts.run hrun
  obtain ⟨replies, hreplies, hcapture⟩ := haccounts.entries
  have hcount : count ≤ transport.taken.length := by
    have hlength := length_numbers_le transport.recvs
    rw [haccounts.numbers.length_eq, ← haccounts.packets.length_eq] at hlength
    simpa using hlength
  have hseqs : (transport.capture.packets.map CapturedPacket.seq).Perm
      ((transport.recvs.filterMap RecvStage.reply).map Prod.fst) := by
    have hmap : transport.capture.packets.map CapturedPacket.seq = replies.map Prod.fst := by
      rw [hcapture, List.map_map]
      exact List.map_congr_left fun _ _ => rfl
    exact hmap ▸ hreplies.map Prod.fst
  have hnodup : (transport.recvs.filterMap RecvStage.number).Nodup :=
    haccounts.numbers.nodup_iff.mpr (nodup_range_ofNat (hcount.trans hfew))
  refine ⟨haccounts.packets, ?_, ⟨replies, hreplies, hcapture⟩, fun hreturned => ?_⟩
  · exact hseqs.nodup_iff.mpr (hnodup.sublist (seqs_sublist transport.recvs))
  · obtain ⟨hpackets, hnumbers⟩ := replies_of_returned hreturned
    have hpayloads : transport.capture.packets.map CapturedPacket.decodePayload =
        (replies.map Prod.snd).map some := by
      rw [hcapture, List.map_map, List.map_map]
      exact List.map_congr_left fun _ _ => CapturedPacket.decodePayload_new _ _
    have htaken : (replies.map Prod.snd).Perm transport.taken :=
      (hreplies.map Prod.snd).trans (hpackets ▸ haccounts.packets.symm)
    have hall : (transport.capture.packets.map CapturedPacket.seq).Perm
        ((List.range count).map UInt32.ofNat) := hseqs.trans (hnumbers ▸ haccounts.numbers)
    have hlength : count = transport.taken.length := by
      have hsame := hall.length_eq
      rw [hcapture] at hsame
      simpa [← htaken.length_eq] using hsame.symm
    exact ⟨hpayloads ▸ htaken.map some, hlength ▸ hall⟩

/-- The encryption result and a short packet. -/
def samplePackets : List Bytes :=
  [[25, 5, 0, 0] ++ List.replicate 16 255 ++ [1, 0, 0, 0], [1, 2, 3]]

/-- A capture of both packets, and its JSON. -/
def sampleCapture : CaptureFile :=
  ⟨"capture", samplePackets.mapIdx fun place payload => .new (UInt32.ofNat place) payload⟩

def sampleText : Bytes :=
  [123, 10, 32, 32, 34, 100, 101, 115, 99, 114, 105, 112, 116, 105, 111, 110, 34, 58, 32, 34, 99,
   97, 112, 116, 117, 114, 101, 34, 44, 10, 32, 32, 34, 112, 97, 99, 107, 101, 116, 115, 34, 58,
   32, 91, 10, 32, 32, 32, 32, 123, 10, 32, 32, 32, 32, 32, 32, 34, 115, 101, 113, 34, 58, 32, 48,
   44, 10, 32, 32, 32, 32, 32, 32, 34, 101, 109, 115, 103, 34, 58, 32, 49, 51, 48, 53, 44, 10, 32,
   32, 32, 32, 32, 32, 34, 112, 97, 121, 108, 111, 97, 100, 95, 98, 54, 52, 34, 58, 32, 34, 71, 81,
   85, 65, 65, 80, 47, 47, 47, 47, 47, 47, 47, 47, 47, 47, 47, 47, 47, 47, 47, 47, 47, 47, 47, 47,
   56, 66, 65, 65, 65, 65, 34, 10, 32, 32, 32, 32, 125, 44, 10, 32, 32, 32, 32, 123, 10, 32, 32,
   32, 32, 32, 32, 34, 115, 101, 113, 34, 58, 32, 49, 44, 10, 32, 32, 32, 32, 32, 32, 34, 101, 109,
   115, 103, 34, 58, 32, 110, 117, 108, 108, 44, 10, 32, 32, 32, 32, 32, 32, 34, 112, 97, 121, 108,
   111, 97, 100, 95, 98, 54, 52, 34, 58, 32, 34, 65, 81, 73, 68, 34, 10, 32, 32, 32, 32, 125, 10,
   32, 32, 93, 10, 125]

deriving instance Encodable for CapturedPacket
deriving instance Encodable for CaptureFile

/-- JSON on this capture. -/
def captureCodecs : CaptureCodecs where
  toStringPretty := TableCodec.encode [(sampleCapture, sampleText)]
  fromStr := TableCodec.decode [(sampleCapture, sampleText)]

/-- Two receives that overtake each other. -/
def overlappingMoves : List RecordingMove :=
  samplePackets.map .arrive ++
    [.begin, .begin, .recv 0 .take, .recv 1 .take, .recv 1 .number, .recv 0 .number,
      .recv 0 .push, .recv 1 .push]

theorem recording_exact_sample : ∃ transport,
    (machine captureCodecs).run (new "capture" none) overlappingMoves =
        some transport ∧
      transport.recvs.filterMap RecvStage.reply =
        [(1, [25, 5, 0, 0] ++ List.replicate 16 255 ++ [1, 0, 0, 0]), (0, [1, 2, 3])] ∧
      (transport.capture.packets.map CapturedPacket.seq).Nodup := by
  have hrun : ∃ transport,
      (machine captureCodecs).run (new "capture" none) overlappingMoves =
        some transport ∧ transport.taken.length ≤ 2 ^ 32 ∧
      transport.recvs.filterMap RecvStage.reply =
        [(1, [25, 5, 0, 0] ++ List.replicate 16 255 ++ [1, 0, 0, 0]), (0, [1, 2, 3])] :=
    ⟨_, rfl, by decide, rfl⟩
  obtain ⟨transport, hrun, hfew, hreplies⟩ := hrun
  exact ⟨transport, hrun, hreplies, (recording_exact hrun hfew).2.1⟩

/-- A receive begins when no other is on its way, and is not dropped while it holds a packet. -/
def Alone (transport : RecordingTransport) : RecordingMove → Prop
  | .begin => ∀ stage ∈ transport.recvs, ¬ stage.InFlight
  | .recv index .abandon => transport.recvs[index]? = some .receiving
  | _ => True

instance (transport : RecordingTransport) : DecidablePred transport.Alone := by
  intro move
  cases move with
  | recv index move => cases move <;> unfold Alone <;> infer_instance
  | arrive | begin | flush | drop => unfold Alone; infer_instance

/-- A recording by receives one after the other: all of them but the current one are over, and
the capture holds the packets in the order in which they were delivered, numbered from zero on. -/
structure Ordered (transport : RecordingTransport) (done : List RecvStage)
    (current : Option RecvStage) (payloads : List Bytes) : Prop where
  recvs : transport.recvs = done ++ current.toList
  ended : ∀ stage ∈ done, ¬ stage.InFlight
  running : ∀ stage ∈ current, stage.InFlight
  taken : transport.taken = payloads ++ (current.bind RecvStage.packet).toList
  captured : transport.capture.packets =
    payloads.mapIdx fun place payload => .new (UInt32.ofNat place) payload
  numbered : ∀ seq payload, current = some (.numbered seq payload) →
    seq = UInt32.ofNat payloads.length
  seq : transport.seq =
    UInt32.ofNat (payloads.length + (current.bind RecvStage.number).toList.length)

namespace Ordered

variable {done : List RecvStage} {current : Option RecvStage} {payloads : List Bytes}

theorem new (description : String) (file : Option Bytes) :
    Ordered (RecordingTransport.new description file) [] none [] where
  recvs := rfl
  ended := nofun
  running := nofun
  taken := rfl
  captured := rfl
  numbered := nofun
  seq := rfl

/-- Nothing but the current receive is on its way. -/
theorem current_eq (hordered : Ordered transport done current payloads)
    (hstage : transport.recvs[index]? = some stage) (hflight : stage.InFlight) :
    current = some stage ∧ index = done.length := by
  rw [hordered.recvs, List.getElem?_append] at hstage
  split at hstage
  next hlt =>
    exact absurd hflight (hordered.ended stage (List.mem_of_getElem? hstage))
  next hge =>
    cases hcurrent : current with
    | none => simp [hcurrent] at hstage
    | some found =>
        rw [hcurrent, Option.toList_some, List.getElem?_singleton] at hstage
        split at hstage
        next hzero => exact ⟨congrArg some (Option.some.inj hstage), by omega⟩
        next => cases hstage

theorem idle (hordered : Ordered transport done current payloads)
    (hidle : ∀ stage ∈ transport.recvs, ¬ stage.InFlight) : current = none := by
  rw [hordered.recvs] at hidle
  cases hcurrent : current with
  | none => rfl
  | some stage =>
      refine absurd (hordered.running stage hcurrent) (hidle stage ?_)
      simp [hcurrent]

theorem set_current (hordered : Ordered transport done (some stage) payloads)
    (stage' : RecvStage) : transport.recvs.set done.length stage' = done ++ [stage'] := by
  rw [hordered.recvs, Option.toList_some, List.set_append_right _ _ (Nat.le_refl _), Nat.sub_self,
    List.set_cons_zero]

theorem forall_ended (hordered : Ordered transport done current payloads) {stage' : RecvStage}
    (hended : ¬ stage'.InFlight) : ∀ stage ∈ done ++ [stage'], ¬ stage.InFlight := by
  exact List.forall_mem_append.mpr ⟨hordered.ended, List.forall_mem_singleton.mpr hended⟩

/-- The current receive goes on, or is over. -/
theorem advance {move : RecvMove} (hordered : Ordered transport done current payloads)
    (hstage : transport.recvs[index]? = some stage)
    (hadvance : Advance transport index stage move next)
    (halone : transport.Alone (.recv index move)) :
    ∃ done current payloads, Ordered next done current payloads := by
  have hflight : stage.InFlight := by cases hadvance <;> trivial
  obtain ⟨rfl, rfl⟩ := hordered.current_eq hstage hflight
  have hset := hordered.set_current
  obtain ⟨_, hended, _, htaken, hcaptured, hnumbered, hseq⟩ := id hordered
  cases hadvance with
  | @takes payload rest hupstream =>
      refine ⟨done, some (.received payload), payloads, hset _, hended, ?_, ?_, hcaptured, nofun,
        hseq⟩
      · rintro _ ⟨⟩
        trivial
      · simpa [RecvStage.packet] using htaken
  | fails reason =>
      exact ⟨done ++ [.failed reason], none, payloads, by simpa [withRecv] using hset _,
        hordered.forall_ended (by exact id), nofun, htaken, hcaptured, nofun, hseq⟩
  | leaves =>
      exact ⟨done ++ [.abandoned none], none, payloads, by simpa [withRecv] using hset _,
        hordered.forall_ended (by exact id), nofun, htaken, hcaptured, nofun, hseq⟩
  | numbers payload =>
      refine ⟨done, some (.numbered transport.seq payload), payloads, hset _, hended, ?_, htaken,
        hcaptured, ?_, ?_⟩
      · rintro _ ⟨⟩
        trivial
      · rintro _ _ ⟨⟩
        exact hseq
      · simp only [hseq]
        exact (UInt32.ofNat_add _ _).symm
  | pushes seq payload =>
      refine ⟨done ++ [.returned seq payload], none, payloads ++ [payload],
        by simpa [record, withRecv] using hset _, hordered.forall_ended (by exact id), nofun, ?_,
        ?_, nofun, ?_⟩
      · simpa [RecvStage.packet, record, withRecv] using htaken
      · simp only [record, hcaptured, List.mapIdx_concat, withRecv]
        rw [hnumbered seq payload rfl]
      · simpa [RecvStage.number, record, withRecv] using hseq
  | loses seq payload => cases hstage.symm.trans halone

theorem step {move : RecordingMove} (hordered : Ordered transport done current payloads)
    (hstep : Step transport move next) (halone : transport.Alone move) :
    ∃ done current payloads, Ordered next done current payloads := by
  cases hstep with
  | arrives | writes =>
      exact ⟨done, current, payloads, hordered.recvs, hordered.ended, hordered.running,
        hordered.taken, hordered.captured, hordered.numbered, hordered.seq⟩
  | begins =>
      obtain rfl := hordered.idle halone
      obtain ⟨hrecvs, hended, _, htaken, hcaptured, _, hseq⟩ := hordered
      refine ⟨done, some .receiving, payloads, ?_, hended, ?_, htaken, hcaptured, nofun, hseq⟩
      · rw [hrecvs, Option.toList_none, List.append_nil, Option.toList_some]
      · rintro _ ⟨⟩
        trivial
  | advances hstage hadvance => exact hordered.advance hstage hadvance halone

theorem run {description : String} {file : Option Bytes} {moves : List RecordingMove}
    (hrun : (machine codecs).RunWhere Alone (.new description file) moves transport) :
    ∃ done current payloads, Ordered transport done current payloads := by
  have hstep (transport : RecordingTransport) (move : RecordingMove) (next : RecordingTransport)
      (hkept : ∃ done current payloads, Ordered transport done current payloads)
      (halone : transport.Alone move) (hstep : transport.step codecs move = some next) :
      ∃ done current payloads, Ordered next done current payloads := by
    obtain ⟨done, current, payloads, hordered⟩ := hkept
    exact hordered.step (step_cases hstep) halone
  exact Machine.RunWhere.invariant (machine codecs) hstep ⟨[], none, [], .new _ _⟩ hrun

end Ordered

/-- What is saved is replayed: the payloads of the capture. -/
theorem fromFile_saved (hlossless : codecs.Lossless) {save : RecordingMove}
    (hsave : save = .flush none ∨ save = .drop none ∧ transport.capture.packets ≠ [])
    (hstep : transport.step codecs save = some next) {payloads : List Bytes}
    (hpayloads : transport.capture.packets.map CapturedPacket.decodePayload =
      payloads.map some) :
    ReplayTransport.fromFile codecs next.file = .ok ⟨payloads, 0⟩ := by
  have hfile : next.file = some (codecs.toStringPretty transport.capture) := by
    unfold step at hstep
    split at hstep
    next => cases hstep
    next =>
      rcases hsave with rfl | ⟨rfl, hsome⟩
      · cases hstep
        rfl
      · simp only at hstep
        split at hstep
        next => cases hstep
        next =>
          cases hstep
          rw [drop, if_neg (by simpa using hsome)]
          rfl
  simp only [ReplayTransport.fromFile, hfile, CaptureFile.load, hlossless transport.capture,
    ReplayTransport.fromCapture_of_payloads hpayloads]

/-- What is recorded is replayed: once a capture is saved, by a flush or by dropping the
transport, the replay of the file hands out the packets that the receives returned, each once,
and then nothing, whoever receives and whatever is sent in between. When receives did not
overlap, it hands them out in the order in which they were delivered. -/
theorem replay_exact {codecs : CaptureCodecs} (hlossless : codecs.Lossless)
    {description : String} {file : Option Bytes} {moves : List RecordingMove}
    {transport final : RecordingTransport}
    (hrun : (machine codecs).run (new description file) moves = some transport)
    {save : RecordingMove}
    (hsave : save = .flush none ∨ save = .drop none ∧ transport.capture.packets ≠ [])
    (hstep : transport.step codecs save = some final) :
    ∃ replay, ReplayTransport.fromFile codecs final.file = .ok replay ∧
      replay.packets.Perm ((transport.recvs.filterMap RecvStage.reply).map Prod.snd) ∧
      ((machine codecs).RunWhere Alone (new description file) moves transport →
        replay.packets <+: transport.taken ∧
          ((∀ stage ∈ transport.recvs, ¬ stage.InFlight) → replay.packets = transport.taken)) ∧
      ∀ calls : List ReplayMove, calls.count .recv < 2 ^ 64 →
        replay.serve calls =
          (List.range (calls.count .recv)).map fun place => replay.packets[place]? := by
  obtain ⟨count, haccounts⟩ := Accounts.run hrun
  obtain ⟨replies, hreplies, hcapture⟩ := haccounts.entries
  have hpayloads : transport.capture.packets.map CapturedPacket.decodePayload =
      (replies.map Prod.snd).map some := by
    rw [hcapture, List.map_map, List.map_map]
    exact List.map_congr_left fun _ _ => CapturedPacket.decodePayload_new _ _
  refine ⟨⟨replies.map Prod.snd, 0⟩, fromFile_saved hlossless hsave hstep hpayloads,
    hreplies.map Prod.snd, fun hwhere => ?_, fun calls hfew => ?_⟩
  · obtain ⟨done, current, payloads, hordered⟩ := Ordered.run hwhere
    have hsame : replies.map Prod.snd = payloads := by
      refine List.map_injective_iff.mpr (Option.some_injective Bytes) (hpayloads.symm.trans ?_)
      rw [hordered.captured]
      refine List.ext_getElem? fun place => ?_
      simp only [List.getElem?_map, List.getElem?_mapIdx, Option.map_map]
      exact congrFun (congrArg Option.map (funext fun payload =>
        CapturedPacket.decodePayload_new _ payload)) _
    simp only [hsame]
    refine ⟨hordered.taken ▸ List.prefix_append _ _, fun hidle => ?_⟩
    rw [hordered.taken, hordered.idle hidle]
    simp
  · rw [ReplayTransport.serve_eq (by simpa using hfew)]
    simp

/-- Both packets, one after the other. -/
def recordedMoves : List RecordingMove :=
  samplePackets.map .arrive ++
    [.begin, .recv 0 .take, .recv 0 .number, .recv 0 .push,
      .begin, .recv 1 .take, .recv 1 .number, .recv 1 .push]

theorem replay_exact_sample : ∃ final replay,
    (machine captureCodecs).run (new "capture" none) (recordedMoves ++ [.drop none]) =
        some final ∧
      final.file = some sampleText ∧
      ReplayTransport.fromFile captureCodecs final.file = .ok replay ∧
      replay.serve [.recv, .send [0], .recv, .recv] = samplePackets.map some ++ [none] := by
  have hlossless : captureCodecs.Lossless :=
    TableCodec.decode_encode (TableCodec.apart_single (by decide))
  have hwhere : ∃ transport,
      (machine captureCodecs).RunWhere Alone (new "capture" none) recordedMoves transport ∧
        transport.capture = sampleCapture ∧ transport.taken = samplePackets ∧
        transport.dropped = false ∧
        transport.capture.packets ≠ [] ∧ ∀ stage ∈ transport.recvs, ¬ stage.InFlight := by
    have hrun : ∃ transport,
        ((machine captureCodecs).guarded Alone).run (new "capture" none) recordedMoves =
          some transport ∧
        transport.capture = sampleCapture ∧ transport.taken = samplePackets ∧
        transport.dropped = false ∧
        transport.capture.packets ≠ [] ∧ ∀ stage ∈ transport.recvs, ¬ stage.InFlight :=
      ⟨_, rfl, rfl, rfl, rfl, nofun, by decide⟩
    obtain ⟨transport, hrun, hrest⟩ := hrun
    exact ⟨transport, Machine.runWhere_of_guarded _ hrun, hrest⟩
  obtain ⟨transport, hwhere, hcapture, htaken, hopen, hsome, hidle⟩ := hwhere
  have hrun := Machine.RunWhere.run_eq _ hwhere
  have hstep : transport.step captureCodecs (.drop none) =
      some { transport with file := some sampleText, dropped := true } := by
    have hnone : ¬ ∃ stage ∈ transport.recvs, stage.InFlight := by
      rintro ⟨stage, hmem, hflight⟩
      exact hidle stage hmem hflight
    have htext : captureCodecs.toStringPretty transport.capture = sampleText := by
      rw [hcapture]
      exact TableCodec.encode_given (sampleCapture, sampleText) []
    simp [step, hopen, hnone, drop, hsome, flush, CaptureFile.save, htext]
  obtain ⟨replay, hreplay, _, hordered, hserve⟩ :=
    replay_exact hlossless hrun (.inr ⟨rfl, hsome⟩) hstep
  refine ⟨_, replay, ?_, rfl, hreplay, ?_⟩
  · exact (machine captureCodecs).run_append_eq_some.mpr ⟨transport, hrun,
      (machine captureCodecs).run_cons_eq_some.mpr ⟨_, hstep, rfl⟩⟩
  · rw [hserve _ (by decide), (hordered hwhere).2 hidle, htaken]
    rfl

end RecordingTransport

end DepotDownloader.Steam
