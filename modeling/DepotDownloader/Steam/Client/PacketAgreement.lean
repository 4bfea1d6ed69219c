import DepotDownloader.Steam.Messages.Header

/-! # The two packet parsers

The client parses what it receives with a parser of its own. It knows the protobuf
header and one header of twenty bytes, and so agrees with the dispatch on the header
classes on all packets but those with an extended header.
-/

namespace DepotDownloader.Steam

open Foundation

def parseIncoming (codecs : WireCodecs) (data : Bytes) : Except ClientError IncomingMsg :=
  if data.length < 4 then .error (.packetTooShort 4 data.length)
  else
    let rawEmsg := UInt32.ofNat (leNat (data.take 4))
    let emsg : EMsg := ⟨rawEmsg &&& emsgMask⟩
    if rawEmsg &&& protoMask ≠ 0 then
      match Messages.MsgHdrProtoBuf.parse data with
      | .error _ => .error .unexpectedEof
      | .ok (hdr, body) =>
          match codecs.decodeHeader hdr.headerData with
          | none => .error .decode
          | some header => .ok ⟨emsg, true, header, body⟩
    else if data.length < Messages.MsgHdr.size then
      .error (.packetTooShort Messages.MsgHdr.size data.length)
    else .ok ⟨emsg, false, {}, data.drop Messages.MsgHdr.size⟩

namespace Messages

open WireInt

namespace PacketHeader

def body : PacketHeader → Bytes
  | simple _ body => body
  | extended _ body => body
  | protobuf _ body => body

def isProtobuf : PacketHeader → Bool
  | simple _ _ => false
  | extended _ _ => false
  | protobuf header _ => header.isProtobuf

end PacketHeader

/-- Both parsers report the same message. -/
structure Agrees (msg : IncomingMsg) (packet : PacketHeader) : Prop where
  emsg : msg.emsg = packet.emsg
  isProtobuf : msg.isProtobuf = packet.isProtobuf
  body : msg.body = packet.body

/-- The raw message number of a packet. -/
def rawEmsg (data : Bytes) : UInt32 := UInt32.ofNat (leNat (data.take 4))

variable {codecs : WireCodecs} {msg : IncomingMsg} {data rest : Bytes}

theorem rawEmsg_write (raw : UInt32) (rest : Bytes) : rawEmsg (u32.write raw ++ rest) = raw :=
  (congrArg UInt32.ofNat (leNat_field [] raw rest)).trans UInt32.ofNat_toNat

/-- The client tells the headers apart by the flag bit alone. -/
theorem parseIncoming_write (raw : UInt32) (rest : Bytes) :
    parseIncoming codecs (u32.write raw ++ rest) =
      if raw &&& protoMask ≠ 0 then
        match MsgHdrProtoBuf.parse (u32.write raw ++ rest) with
        | .error _ => .error .unexpectedEof
        | .ok (hdr, body) =>
            match codecs.decodeHeader hdr.headerData with
            | none => .error .decode
            | some header => .ok ⟨⟨raw &&& emsgMask⟩, true, header, body⟩
      else if rest.length < 16 then .error (.packetTooShort MsgHdr.size (rest.length + 4))
      else .ok ⟨⟨raw &&& emsgMask⟩, false, {}, rest.drop 16⟩ := by
  have hlength : (u32.write raw ++ rest).length = rest.length + 4 := by
    rw [List.length_append, length_write]
    exact Nat.add_comm 4 _
  have hdrop : (u32.write raw ++ rest).drop MsgHdr.size = rest.drop 16 := by
    simp [List.drop_append, MsgHdr.size, u32]
  have hraw := rawEmsg_write raw rest
  unfold rawEmsg at hraw
  unfold parseIncoming
  simp only [hlength, hraw]
  rw [if_neg (by omega), hdrop]
  have hshort : rest.length + 4 < MsgHdr.size ↔ rest.length < 16 := by
    unfold MsgHdr.size
    omega
  exact if_congr Iff.rfl rfl (if_congr hshort rfl rfl)

theorem parse_protobuf_write (raw : UInt32) {headerData : Bytes}
    (hheader : headerData.length < 2 ^ 32) (body : Bytes) :
    MsgHdrProtoBuf.parse (u32.write raw ++ (u32.write (UInt32.ofNat headerData.length) ++
      (headerData ++ body))) =
        .ok (⟨⟨raw &&& emsgMask⟩, raw &&& protoMask ≠ 0, headerData⟩, body) :=
  MsgHdrProtoBuf.parse_ok.mpr ⟨hheader, raw, rfl, rfl, rfl⟩

/-- Without the flag bit, twenty bytes are cut off. -/
theorem parseIncoming_unflagged {raw : UInt32} (hlow : raw.toNat < 2 ^ 31)
    (hincoming : parseIncoming codecs (u32.write raw ++ rest) = .ok msg) :
    msg.emsg = ⟨raw⟩ ∧ msg.isProtobuf = false ∧ msg.body = rest.drop 16 := by
  rw [parseIncoming_write, if_neg (not_not.mpr (flag_of_lt hlow)), emsgMask_of_lt hlow] at hincoming
  split at hincoming
  next => cases hincoming
  next =>
    cases hincoming
    exact ⟨rfl, rfl, rfl⟩

/-- With the flag bit, the header data is cut out and the body is what stands behind. -/
theorem parseIncoming_flagged {raw : UInt32} {headerData body : Bytes} (hlow : raw.toNat < 2 ^ 31)
    (hheader : headerData.length < 2 ^ 32)
    (hincoming : parseIncoming codecs (u32.write (raw ||| protoMask) ++
      (u32.write (UInt32.ofNat headerData.length) ++ (headerData ++ body))) = .ok msg) :
    msg.emsg = ⟨raw⟩ ∧ msg.isProtobuf = true ∧ msg.body = body := by
  rw [parseIncoming_write, if_pos (or_protoMask_flag hlow), parse_protobuf_write _ hheader,
    or_protoMask_emsgMask hlow] at hincoming
  simp only at hincoming
  split at hincoming
  next => cases hincoming
  next =>
    cases hincoming
    exact ⟨rfl, rfl, rfl⟩

/-- Two parses of a packet agree exactly when it has a protobuf header or the header of
a channel encryption message: an extended header is cut off after twenty bytes. -/
theorem parsers_agree_iff {packet : PacketHeader} (hincoming : parseIncoming codecs data = .ok msg)
    (hpacket : parsePacketHeader data = .ok packet) :
    Agrees msg packet ↔
      rawEmsg data &&& protoMask ≠ 0 ∨ isChannelEncrypt ⟨rawEmsg data &&& emsgMask⟩ = true := by
  obtain ⟨rfl, hlow, hkind⟩ := bytes_of_parsePacketHeader hpacket
  cases packet with
  | simple header body =>
      have hlow : header.emsg.value.toNat < 2 ^ 31 := hlow
      have hkind : isChannelEncrypt header.emsg = true := hkind
      simp only [PacketHeader.bytes, MsgHdr.writeTo, List.append_assoc] at hincoming ⊢
      obtain ⟨hemsg, hproto, hbody⟩ := parseIncoming_unflagged hlow hincoming
      have hagrees : Agrees msg (.simple header body) :=
        ⟨hemsg, hproto, by rw [hbody]; simp [PacketHeader.body, List.drop_append, u64]⟩
      rw [rawEmsg_write, emsgMask_of_lt hlow]
      exact iff_of_true hagrees (Or.inr hkind)
  | extended header body =>
      have hlow : header.emsg.value.toNat < 2 ^ 31 := hlow
      have hkind : isChannelEncrypt header.emsg = false := hkind
      simp only [PacketHeader.bytes, ExtendedClientMsgHdr.writeTo, List.append_assoc]
        at hincoming ⊢
      obtain ⟨_, _, hbody⟩ := parseIncoming_unflagged hlow hincoming
      have hlonger := congrArg List.length hbody
      rw [List.length_drop] at hlonger
      simp only [List.length_append, length_write, u8, u16, u64, i32] at hlonger
      rw [rawEmsg_write, emsgMask_of_lt hlow, flag_of_lt hlow]
      apply iff_of_false
      · intro hagrees
        have hsame : msg.body = body := hagrees.body
        rw [hsame] at hlonger
        omega
      · simp [hkind]
  | protobuf header body =>
      have hlow : header.emsg.value.toNat < 2 ^ 31 := hlow
      have hkind : header.isProtobuf = true ∧ header.headerData.length < 2 ^ 32 := hkind
      simp only [PacketHeader.bytes, MsgHdrProtoBuf.writeTo, hkind.1, if_true, List.append_assoc]
        at hincoming ⊢
      obtain ⟨hemsg, hproto, hbody⟩ := parseIncoming_flagged hlow hkind.2 hincoming
      rw [rawEmsg_write]
      exact iff_of_true ⟨hemsg, hproto.trans hkind.1.symm, hbody⟩ (Or.inl (or_protoMask_flag hlow))

/-- The decoder of one header, that of a client with a Steam ID. -/
def steamIdCodecs : WireCodecs where
  aes _ block := block
  hmacSha1 _ _ := []
  gunzip _ := none
  decodeHeader data :=
    if data = [9, 1, 0, 0, 0, 0, 0, 0, 0] then some { steamid := some 1 } else none
  decodeMulti _ := none
  decodeDepotKeyResponse _ := none
  encodeDepotKeyRequest _ := []

theorem parsers_agree_iff_sample :
    let data := (PacketHeader.protobuf ⟨⟨751⟩, true, [9, 1, 0, 0, 0, 0, 0, 0, 0]⟩ [7]).bytes
    Agrees ⟨⟨751⟩, true, { steamid := some 1 }, [7]⟩
        (.protobuf ⟨⟨751⟩, true, [9, 1, 0, 0, 0, 0, 0, 0, 0]⟩ [7]) ↔
      rawEmsg data &&& protoMask ≠ 0 ∨ isChannelEncrypt ⟨rawEmsg data &&& emsgMask⟩ = true := by
  intro data
  have hincoming : parseIncoming steamIdCodecs data =
      .ok ⟨⟨751⟩, true, { steamid := some 1 }, [7]⟩ := by decide +kernel
  have hpacket : parsePacketHeader data =
      .ok (.protobuf ⟨⟨751⟩, true, [9, 1, 0, 0, 0, 0, 0, 0, 0]⟩ [7]) := by decide +kernel
  exact parsers_agree_iff hincoming hpacket

/-- A logon response with an extended header: the client takes the last sixteen bytes
of the header for the start of the body. -/
theorem parsers_disagree_extended :
    let packet : PacketHeader := .extended ⟨⟨751⟩, 36, 2, 3, 4, 239, 5, 6⟩ [7]
    parsePacketHeader packet.bytes = .ok packet ∧
      parseIncoming steamIdCodecs packet.bytes =
        .ok ⟨⟨751⟩, false, {}, [0, 0, 0, 239, 5, 0, 0, 0, 0, 0, 0, 0, 6, 0, 0, 0, 7]⟩ := by
  decide +kernel

end Messages

end DepotDownloader.Steam
