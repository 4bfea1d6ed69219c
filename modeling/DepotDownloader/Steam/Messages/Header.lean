import DepotDownloader.Steam.LittleEndian
import DepotDownloader.Steam.Messages

/-! # Packet headers

A packet starts with one of three headers. The flag bit of the first word tells
protobuf headers apart, and the message number tells the simple headers of the
channel encryption from the extended ones. Parsing and writing are inverse to
each other.
-/

namespace DepotDownloader.Steam.Messages

open Foundation WireInt

inductive ParseError where
  | unexpectedEof
  deriving DecidableEq, Repr

/-- `map_err(|_| ParseError::UnexpectedEof)` of a read. -/
def orEof {α : Type} (found : Option α) : Except ParseError α :=
  found.elim (.error .unexpectedEof) .ok

/-- Standard (non-protobuf) message header. -/
structure MsgHdr where
  emsg : EMsg
  targetJobId : UInt64
  sourceJobId : UInt64
  deriving DecidableEq, Repr

namespace MsgHdr

def size : Nat := 20

def parse (reader : Bytes) : Except ParseError (MsgHdr × Bytes) := do
  let (rawEmsg, reader) ← orEof (u32.read reader)
  let (targetJobId, reader) ← orEof (u64.read reader)
  let (sourceJobId, reader) ← orEof (u64.read reader)
  return (⟨⟨rawEmsg &&& emsgMask⟩, targetJobId, sourceJobId⟩, reader)

def writeTo (header : MsgHdr) : Bytes :=
  u32.write header.emsg.value ++ u64.write header.targetJobId ++ u64.write header.sourceJobId

end MsgHdr

/-- Extended client message header (non-protobuf). -/
structure ExtendedClientMsgHdr where
  emsg : EMsg
  headerSize : UInt8
  headerVersion : UInt16
  targetJobId : UInt64
  sourceJobId : UInt64
  headerCanary : UInt8
  steamId : UInt64
  sessionId : Int32
  deriving DecidableEq

namespace ExtendedClientMsgHdr

def parse (reader : Bytes) : Except ParseError (ExtendedClientMsgHdr × Bytes) := do
  let (rawEmsg, reader) ← orEof (u32.read reader)
  let (headerSize, reader) ← orEof (u8.read reader)
  let (headerVersion, reader) ← orEof (u16.read reader)
  let (targetJobId, reader) ← orEof (u64.read reader)
  let (sourceJobId, reader) ← orEof (u64.read reader)
  let (headerCanary, reader) ← orEof (u8.read reader)
  let (steamId, reader) ← orEof (u64.read reader)
  let (sessionId, reader) ← orEof (i32.read reader)
  return (⟨⟨rawEmsg &&& emsgMask⟩, headerSize, headerVersion, targetJobId, sourceJobId,
    headerCanary, steamId, sessionId⟩, reader)

def writeTo (header : ExtendedClientMsgHdr) : Bytes :=
  u32.write header.emsg.value ++ u8.write header.headerSize ++ u16.write header.headerVersion ++
    u64.write header.targetJobId ++ u64.write header.sourceJobId ++ u8.write header.headerCanary ++
    u64.write header.steamId ++ i32.write header.sessionId

end ExtendedClientMsgHdr

/-- Protobuf message header. -/
structure MsgHdrProtoBuf where
  emsg : EMsg
  isProtobuf : Bool
  headerData : Bytes
  deriving DecidableEq

namespace MsgHdrProtoBuf

def parse (reader : Bytes) : Except ParseError (MsgHdrProtoBuf × Bytes) := do
  let (rawEmsg, reader) ← orEof (u32.read reader)
  let (headerLen, reader) ← orEof (u32.read reader)
  let (headerData, reader) ← orEof (readBytes headerLen.toNat reader)
  return (⟨⟨rawEmsg &&& emsgMask⟩, rawEmsg &&& protoMask ≠ 0, headerData⟩, reader)

def writeTo (header : MsgHdrProtoBuf) (headerData : Bytes) : Bytes :=
  let rawEmsg := if header.isProtobuf then header.emsg.value ||| protoMask else header.emsg.value
  u32.write rawEmsg ++ u32.write (UInt32.ofNat headerData.length) ++ headerData

end MsgHdrProtoBuf

/-- Parsed packet with header variant and remaining body. -/
inductive PacketHeader where
  | simple (header : MsgHdr) (body : Bytes)
  | extended (header : ExtendedClientMsgHdr) (body : Bytes)
  | protobuf (header : MsgHdrProtoBuf) (body : Bytes)
  deriving DecidableEq

/-- Channel encryption messages use the simple header. -/
def isChannelEncrypt (emsg : EMsg) : Bool :=
  emsg.value == 1303 || emsg.value == 1304 || emsg.value == 1305

/-- Dispatch: determine which header type a packet uses. -/
def parsePacketHeader (data : Bytes) : Except ParseError PacketHeader :=
  match u32.read data with
  | none => .error .unexpectedEof
  | some (rawEmsg, _) =>
      if rawEmsg &&& protoMask ≠ 0 then
        (MsgHdrProtoBuf.parse data).map fun found => .protobuf found.1 found.2
      else if isChannelEncrypt ⟨rawEmsg &&& emsgMask⟩ then
        (MsgHdr.parse data).map fun found => .simple found.1 found.2
      else (ExtendedClientMsgHdr.parse data).map fun found => .extended found.1 found.2

namespace PacketHeader

/-- The header written, with the body behind it. -/
def bytes : PacketHeader → Bytes
  | simple header body => header.writeTo ++ body
  | extended header body => header.writeTo ++ body
  | protobuf header body => header.writeTo header.headerData ++ body

def emsg : PacketHeader → EMsg
  | simple header _ => header.emsg
  | extended header _ => header.emsg
  | protobuf header _ => header.emsg

/-- The headers that have an encoding of their own: the message number leaves the
flag bit free, and it and the flag go with the kind of header. -/
def Encodable (packet : PacketHeader) : Prop :=
  packet.emsg.value.toNat < 2 ^ 31 ∧
    match packet with
    | simple header _ => isChannelEncrypt header.emsg = true
    | extended header _ => isChannelEncrypt header.emsg = false
    | protobuf header _ => header.isProtobuf = true ∧ header.headerData.length < 2 ^ 32

end PacketHeader

section FlagBit

theorem and_flag_of_lt {number : Nat} (hlow : number < 2 ^ 31) : number &&& 2 ^ 31 = 0 := by
  apply Nat.eq_of_testBit_eq
  intro index
  rw [Nat.testBit_and, Nat.testBit_two_pow, Nat.zero_testBit, Bool.and_eq_false_iff]
  by_cases hindex : 31 = index
  · left
    rw [← hindex]
    exact Nat.testBit_lt_two_pow hlow
  · right
    exact decide_eq_false hindex

theorem flag_or {number : Nat} (hlow : number < 2 ^ 31) : number ||| 2 ^ 31 = 2 ^ 31 + number := by
  have hsum := Nat.two_pow_add_eq_or_of_lt hlow 1
  rw [Nat.mul_one] at hsum
  rw [Nat.or_comm, hsum]

variable {raw : UInt32}

theorem toNat_emsgMask (raw : UInt32) : (raw &&& emsgMask).toNat = raw.toNat % 2 ^ 31 := by
  rw [UInt32.toNat_and, show emsgMask.toNat = 2 ^ 31 - 1 by decide,
    Nat.and_two_pow_sub_one_eq_mod]

theorem emsgMask_of_lt (hlow : raw.toNat < 2 ^ 31) : raw &&& emsgMask = raw := by
  apply UInt32.toNat_inj.mp
  rw [toNat_emsgMask, Nat.mod_eq_of_lt hlow]

theorem toNat_or_protoMask (hlow : raw.toNat < 2 ^ 31) :
    (raw ||| protoMask).toNat = 2 ^ 31 + raw.toNat := by
  rw [UInt32.toNat_or, show protoMask.toNat = 2 ^ 31 by decide, flag_or hlow]

/-- The flag bit is set in the numbers from 2^31 on. -/
theorem flag_ne_zero (raw : UInt32) : raw &&& protoMask ≠ 0 ↔ 2 ^ 31 ≤ raw.toNat := by
  have hflag : (raw &&& protoMask).toNat = raw.toNat &&& 2 ^ 31 := by
    rw [UInt32.toNat_and, show protoMask.toNat = 2 ^ 31 by decide]
  have hzero : raw &&& protoMask = 0 ↔ raw.toNat &&& 2 ^ 31 = 0 := by
    rw [← hflag, ← UInt32.toNat_inj]
    rfl
  rw [ne_eq, hzero]
  by_cases hlow : raw.toNat < 2 ^ 31
  · simp only [and_flag_of_lt hlow, not_true_eq_false, false_iff]
    omega
  · have hbound : raw.toNat < 2 ^ 32 := raw.toNat_lt
    have hrest : raw.toNat - 2 ^ 31 < 2 ^ 31 := by omega
    have hsplit : raw.toNat = (raw.toNat - 2 ^ 31) ||| 2 ^ 31 := by
      rw [flag_or hrest]
      omega
    rw [hsplit, Nat.and_or_distrib_right, and_flag_of_lt hrest, Nat.zero_or, Nat.and_self]
    omega

theorem flag_of_lt (hlow : raw.toNat < 2 ^ 31) : raw &&& protoMask = 0 := by
  by_contra hset
  have := (flag_ne_zero raw).mp hset
  omega

theorem or_protoMask_flag (hlow : raw.toNat < 2 ^ 31) : (raw ||| protoMask) &&& protoMask ≠ 0 := by
  rw [flag_ne_zero, toNat_or_protoMask hlow]
  omega

theorem or_protoMask_emsgMask (hlow : raw.toNat < 2 ^ 31) :
    (raw ||| protoMask) &&& emsgMask = raw := by
  apply UInt32.toNat_inj.mp
  rw [toNat_emsgMask, toNat_or_protoMask hlow]
  omega

theorem emsgMask_or_protoMask (hset : raw &&& protoMask ≠ 0) :
    raw &&& emsgMask ||| protoMask = raw := by
  have hhigh := (flag_ne_zero raw).mp hset
  have hbound : raw.toNat < 2 ^ 32 := raw.toNat_lt
  have hlow : (raw &&& emsgMask).toNat < 2 ^ 31 := by
    rw [toNat_emsgMask]
    omega
  apply UInt32.toNat_inj.mp
  rw [toNat_or_protoMask hlow, toNat_emsgMask]
  omega

end FlagBit

section Parse

variable {data rest : Bytes}

theorem orEof_bind {α β : Type} {found : Option α} {next : α → Except ParseError β}
    {result : β} :
    (orEof found >>= next) = .ok result ↔
      ∃ value, found = some value ∧ next value = .ok result := by
  cases found with
  | none => simp [orEof, bind, Except.bind]
  | some value => simp [orEof, bind, Except.bind]

/-- What each parser accepts: the bytes that the fields are written as, with a
first word whose flag bit is not looked at. -/
theorem MsgHdr.parse_ok {header : MsgHdr} :
    MsgHdr.parse data = .ok (header, rest) ↔ ∃ raw, header.emsg = ⟨raw &&& emsgMask⟩ ∧
      data = u32.write raw ++ (u64.write header.targetJobId ++
        (u64.write header.sourceJobId ++ rest)) := by
  unfold MsgHdr.parse
  simp only [orEof_bind, read_eq_some, Prod.exists, pure, Except.pure, Except.ok.injEq,
    Prod.mk.injEq]
  constructor
  · rintro ⟨raw, _, rfl, target, _, rfl, source, _, rfl, rfl, rfl⟩
    exact ⟨raw, rfl, rfl⟩
  · rintro ⟨raw, hemsg, rfl⟩
    refine ⟨raw, _, rfl, header.targetJobId, _, rfl, header.sourceJobId, _, rfl, ?_, rfl⟩
    rw [← hemsg]

theorem ExtendedClientMsgHdr.parse_ok {header : ExtendedClientMsgHdr} :
    ExtendedClientMsgHdr.parse data = .ok (header, rest) ↔
      ∃ raw, header.emsg = ⟨raw &&& emsgMask⟩ ∧
        data = u32.write raw ++ (u8.write header.headerSize ++ (u16.write header.headerVersion ++
          (u64.write header.targetJobId ++ (u64.write header.sourceJobId ++
            (u8.write header.headerCanary ++ (u64.write header.steamId ++
              (i32.write header.sessionId ++ rest))))))) := by
  unfold ExtendedClientMsgHdr.parse
  simp only [orEof_bind, read_eq_some, Prod.exists, pure, Except.pure, Except.ok.injEq,
    Prod.mk.injEq]
  constructor
  · rintro ⟨raw, _, rfl, size, _, rfl, version, _, rfl, target, _, rfl, source, _, rfl, canary, _,
      rfl, steamId, _, rfl, sessionId, _, rfl, rfl, rfl⟩
    exact ⟨raw, rfl, rfl⟩
  · rintro ⟨raw, hemsg, rfl⟩
    refine ⟨raw, _, rfl, header.headerSize, _, rfl, header.headerVersion, _, rfl,
      header.targetJobId, _, rfl, header.sourceJobId, _, rfl, header.headerCanary, _, rfl,
      header.steamId, _, rfl, header.sessionId, _, rfl, ?_, rfl⟩
    rw [← hemsg]

theorem MsgHdrProtoBuf.parse_ok {header : MsgHdrProtoBuf} :
    MsgHdrProtoBuf.parse data = .ok (header, rest) ↔
      header.headerData.length < 2 ^ 32 ∧ ∃ raw, header.emsg = ⟨raw &&& emsgMask⟩ ∧
        header.isProtobuf = decide (raw &&& protoMask ≠ 0) ∧
        data = u32.write raw ++ (u32.write (UInt32.ofNat header.headerData.length) ++
          (header.headerData ++ rest)) := by
  unfold MsgHdrProtoBuf.parse
  simp only [orEof_bind, read_eq_some, readBytes_eq_some, Prod.exists, pure, Except.pure,
    Except.ok.injEq, Prod.mk.injEq]
  constructor
  · rintro ⟨raw, _, rfl, len, _, rfl, headerData, _, ⟨hlength, rfl⟩, rfl, rfl⟩
    refine ⟨hlength ▸ len.toNat_lt, raw, rfl, rfl, ?_⟩
    rw [hlength, UInt32.ofNat_toNat]
  · rintro ⟨hlength, raw, hemsg, hflag, rfl⟩
    refine ⟨raw, _, rfl, UInt32.ofNat header.headerData.length, _, rfl, header.headerData, _,
      ⟨(UInt32.toNat_ofNat_of_lt' hlength).symm, rfl⟩, ?_, rfl⟩
    rw [← hemsg, ← hflag]

/-- The dispatch on the first word. -/
theorem parsePacketHeader_write (raw : UInt32) (rest : Bytes) :
    parsePacketHeader (u32.write raw ++ rest) =
      if raw &&& protoMask ≠ 0 then
        (MsgHdrProtoBuf.parse (u32.write raw ++ rest)).map fun found => .protobuf found.1 found.2
      else if isChannelEncrypt ⟨raw &&& emsgMask⟩ then
        (MsgHdr.parse (u32.write raw ++ rest)).map fun found => .simple found.1 found.2
      else (ExtendedClientMsgHdr.parse (u32.write raw ++ rest)).map fun found =>
        .extended found.1 found.2 := by
  simp only [parsePacketHeader, read_append]

theorem map_eq_ok {α β : Type} {parsed : Except ParseError α} {next : α → β} {result : β} :
    parsed.map next = .ok result ↔ ∃ value, parsed = .ok value ∧ next value = result := by
  cases parsed with
  | error error => simp [Except.map]
  | ok value => simp [Except.map]

/-- An encodable header is parsed back, with the body behind it. -/
theorem parsePacketHeader_bytes {packet : PacketHeader} (hpacket : packet.Encodable) :
    parsePacketHeader packet.bytes = .ok packet := by
  obtain ⟨hemsg, hkind⟩ := hpacket
  cases packet with
  | simple header body =>
      have hemsg : header.emsg.value.toNat < 2 ^ 31 := hemsg
      have hmask := emsgMask_of_lt hemsg
      have hdispatch : isChannelEncrypt ⟨header.emsg.value &&& emsgMask⟩ = true := by
        rw [hmask]
        exact hkind
      simp only [PacketHeader.bytes, MsgHdr.writeTo, List.append_assoc]
      rw [parsePacketHeader_write, if_neg (not_not.mpr (flag_of_lt hemsg)), if_pos hdispatch,
        map_eq_ok]
      refine ⟨(header, body), MsgHdr.parse_ok.mpr ⟨_, ?_, rfl⟩, rfl⟩
      rw [hmask]
  | extended header body =>
      have hemsg : header.emsg.value.toNat < 2 ^ 31 := hemsg
      have hmask := emsgMask_of_lt hemsg
      have hdispatch : ¬ isChannelEncrypt ⟨header.emsg.value &&& emsgMask⟩ = true := by
        rw [hmask, Bool.not_eq_true]
        exact hkind
      simp only [PacketHeader.bytes, ExtendedClientMsgHdr.writeTo, List.append_assoc]
      rw [parsePacketHeader_write, if_neg (not_not.mpr (flag_of_lt hemsg)), if_neg hdispatch,
        map_eq_ok]
      refine ⟨(header, body), ExtendedClientMsgHdr.parse_ok.mpr ⟨_, ?_, rfl⟩, rfl⟩
      rw [hmask]
  | protobuf header body =>
      have hemsg : header.emsg.value.toNat < 2 ^ 31 := hemsg
      obtain ⟨hprotobuf, hlength⟩ := hkind
      have hflag := or_protoMask_flag hemsg
      simp only [PacketHeader.bytes, MsgHdrProtoBuf.writeTo, hprotobuf, if_true,
        List.append_assoc]
      rw [parsePacketHeader_write, if_pos hflag, map_eq_ok]
      refine ⟨(header, body), MsgHdrProtoBuf.parse_ok.mpr ⟨hlength, _, ?_, ?_, rfl⟩, rfl⟩
      · rw [or_protoMask_emsgMask hemsg]
      · rw [hprotobuf, decide_eq_true hflag]

theorem toNat_emsgMask_lt (raw : UInt32) : (raw &&& emsgMask).toNat < 2 ^ 31 := by
  rw [toNat_emsgMask]
  omega

/-- Only the encoding of a header, with a body, is parsed as that header. -/
theorem bytes_of_parsePacketHeader {packet : PacketHeader}
    (hparse : parsePacketHeader data = .ok packet) : packet.bytes = data ∧ packet.Encodable := by
  unfold parsePacketHeader at hparse
  split at hparse
  next => cases hparse
  next rawEmsg after hread =>
    -- the word that a parser has read is the one that the dispatch looked at
    have hword {raw : UInt32} {rest : Bytes} (heq : data = u32.write raw ++ rest) :
        raw = rawEmsg := by
      have hsame := u32.read_append raw rest
      rw [← heq, hread, Option.some.injEq, Prod.mk.injEq] at hsame
      exact hsame.1.symm
    split at hparse
    next hset =>
      obtain ⟨⟨header, body⟩, hfound, rfl⟩ := map_eq_ok.mp hparse
      obtain ⟨hlength, raw, hemsg, hflag, hdata⟩ := MsgHdrProtoBuf.parse_ok.mp hfound
      obtain rfl := hword hdata
      have hprotobuf : header.isProtobuf = true := hflag.trans (decide_eq_true hset)
      constructor
      · simp only [PacketHeader.bytes, MsgHdrProtoBuf.writeTo, hprotobuf, if_true, hemsg,
          emsgMask_or_protoMask hset, List.append_assoc]
        exact hdata.symm
      · refine ⟨?_, hprotobuf, hlength⟩
        simp only [PacketHeader.emsg, hemsg]
        exact toNat_emsgMask_lt raw
    next hclear =>
      have hlow : rawEmsg.toNat < 2 ^ 31 := by
        have := (flag_ne_zero rawEmsg).not.mp hclear
        omega
      split at hparse
      next hchannel =>
        obtain ⟨⟨header, body⟩, hfound, rfl⟩ := map_eq_ok.mp hparse
        obtain ⟨raw, hemsg, hdata⟩ := MsgHdr.parse_ok.mp hfound
        obtain rfl := hword hdata
        constructor
        · simp only [PacketHeader.bytes, MsgHdr.writeTo, hemsg, emsgMask_of_lt hlow,
            List.append_assoc]
          exact hdata.symm
        · simp only [PacketHeader.Encodable, PacketHeader.emsg, hemsg]
          exact ⟨toNat_emsgMask_lt raw, hchannel⟩
      next hchannel =>
        obtain ⟨⟨header, body⟩, hfound, rfl⟩ := map_eq_ok.mp hparse
        obtain ⟨raw, hemsg, hdata⟩ := ExtendedClientMsgHdr.parse_ok.mp hfound
        obtain rfl := hword hdata
        constructor
        · simp only [PacketHeader.bytes, ExtendedClientMsgHdr.writeTo, hemsg, emsgMask_of_lt hlow,
            List.append_assoc]
          exact hdata.symm
        · simp only [PacketHeader.Encodable, PacketHeader.emsg, hemsg]
          exact ⟨toNat_emsgMask_lt raw, by simpa using hchannel⟩

end Parse

/-- The protobuf encoder of the message header. -/
structure HeaderEncoder where
  encodeToVec : CMsgProtoBufHeader → Bytes
  encodedLen : CMsgProtoBufHeader → Nat
  encodedLen_eq : ∀ header, encodedLen header = (encodeToVec header).length

namespace ClientMsg

variable (encoder : HeaderEncoder) (msg : ClientMsg)

/-- Exact serialized byte length. -/
def serializedLen : Nat := 8 + encoder.encodedLen msg.header + msg.body.length

/-- Write the full message. -/
def writeTo : Bytes :=
  let headerBytes := encoder.encodeToVec msg.header
  u32.write (msg.emsg.value ||| protoMask) ++ u32.write (UInt32.ofNat headerBytes.length) ++
    headerBytes ++ msg.body

theorem length_writeTo : (writeTo encoder msg).length = serializedLen encoder msg := by
  simp only [writeTo, serializedLen, encoder.encodedLen_eq, List.length_append, length_write,
    u32]

/-- A written message is the encoding of a protobuf header. -/
theorem writeTo_eq_bytes : writeTo encoder msg =
    (PacketHeader.protobuf ⟨msg.emsg, true, encoder.encodeToVec msg.header⟩ msg.body).bytes := by
  simp [writeTo, PacketHeader.bytes, MsgHdrProtoBuf.writeTo]

end ClientMsg

/-- Headers decode and encode as mutual inverses: the encoding of every encodable
header is parsed as that header with its body, only encodings are parsed, and a
client message is written in exactly its length and parsed as its parts. -/
theorem headers_inverse (encoder : HeaderEncoder) :
    (∀ packet : PacketHeader, packet.Encodable → parsePacketHeader packet.bytes = .ok packet) ∧
    (∀ data packet, parsePacketHeader data = .ok packet → packet.bytes = data) ∧
    (∀ msg : ClientMsg,
      (ClientMsg.writeTo encoder msg).length = ClientMsg.serializedLen encoder msg) ∧
    ∀ msg : ClientMsg, msg.emsg.value.toNat < 2 ^ 31 →
      (encoder.encodeToVec msg.header).length < 2 ^ 32 →
        parsePacketHeader (ClientMsg.writeTo encoder msg) =
          .ok (.protobuf ⟨msg.emsg, true, encoder.encodeToVec msg.header⟩ msg.body) := by
  refine ⟨fun packet => parsePacketHeader_bytes,
    fun data packet hparse => (bytes_of_parsePacketHeader hparse).1,
    ClientMsg.length_writeTo encoder, fun msg hemsg hlength => ?_⟩
  rw [ClientMsg.writeTo_eq_bytes]
  exact parsePacketHeader_bytes ⟨hemsg, rfl, hlength⟩

/-- The encoding of the header of a client that has a Steam ID. -/
def steamIdEncoder : HeaderEncoder where
  encodeToVec header := 9 :: u64.write (header.steamid.getD 0)
  encodedLen _ := 9
  encodedLen_eq _ := rfl

theorem headers_inverse_sample :
    parsePacketHeader (PacketHeader.simple ⟨⟨1303⟩, 1, 2⟩ [9]).bytes =
        .ok (.simple ⟨⟨1303⟩, 1, 2⟩ [9]) ∧
      parsePacketHeader
          (ClientMsg.writeTo steamIdEncoder ⟨⟨5514⟩, { steamid := some 1 }, [7]⟩) =
        .ok (.protobuf ⟨⟨5514⟩, true, [9, 1, 0, 0, 0, 0, 0, 0, 0]⟩ [7]) := by
  have hinverse := headers_inverse steamIdEncoder
  exact ⟨hinverse.1 _ ⟨by decide, by decide⟩,
    hinverse.2.2.2 ⟨⟨5514⟩, { steamid := some 1 }, [7]⟩ (by decide) (by decide)⟩

end DepotDownloader.Steam.Messages
