import DepotDownloader.Steam.Client.SessionStep
import DepotDownloader.Steam.Transport.Tcp

/-! # The channel of a session

Whatever the methods of a session do and however they interleave, the wire holds the
answer of the handshake and behind it the sent messages, each through the cipher of
the session key that the answer carries. The holder of the private key reads them
back, in order and from the raw bytes of the connection.
-/

namespace DepotDownloader.Steam

open Foundation

/-- The phases in which a cipher has to be there. -/
def SessionPhase.Ready : SessionPhase → Prop
  | .encrypted => True
  | .loggingIn _ _ => True
  | .loggedIn _ => True
  | _ => False

namespace Session

variable (codecs : SessionCodecs)

/-- The packets are the messages, each encrypted under some random bytes. -/
def Sealed (cipher : SessionCipher) (packets : List Bytes) (msgs : List ClientMsg) : Prop :=
  List.Forall₂ (fun packet msg => ∃ random, packet =
    cipher.encrypt codecs.wire codecs.sealBlock random
      (Messages.ClientMsg.writeTo codecs.encoder msg)) packets msgs

/-- The first packet that arrived was answered with a session key. `later` are the packets
that arrived behind it, and `packets` is what the wire holds behind the answer. -/
def Answered (session : Session) (sessionKey : DepotKey) (later packets : List Bytes) : Prop :=
  ∃ padding request response, session.arrived = request :: later ∧
    Handshake.respond codecs.handshake sessionKey padding request = .ok response ∧
    session.wire = response :: packets

/-- What holds of the wire in every state. -/
structure Channel (session : Session) : Prop where
  expected : session.phase ≠ .panicked
  connected : session.phase = .connected →
    session.inner.cipher = none ∧ session.wire = [] ∧ session.arrived = session.inner.incoming
  keySent : ∀ sessionKey, session.phase = .keySent sessionKey →
    session.inner.cipher = none ∧ session.Answered codecs sessionKey session.inner.incoming []
  ready : session.phase.Ready → session.inner.cipher ≠ none
  silent : session.inner.cipher = none → session.calls = [] ∧ session.inner.sent = [] ∧
    (session.wire = [] ∨ ∃ sessionKey later, session.Answered codecs sessionKey later [])
  talking : ∀ cipher, session.inner.cipher = some cipher →
    ∃ result later packets, session.Answered codecs cipher.sessionKey (result :: later) packets ∧
      Handshake.readResult result = .ok () ∧ Sealed codecs cipher packets session.inner.sent

namespace Channel

variable {codecs} {session next : Session}

theorem connect : Channel codecs Session.connect where
  expected := nofun
  connected := fun _ => ⟨rfl, rfl, rfl⟩
  keySent := nofun
  ready := False.elim
  silent := fun _ => ⟨rfl, rfl, .inl rfl⟩
  talking := nofun

/-- A call exists only where there is a cipher. -/
theorem cipher_of_call (hchannel : Channel codecs session) {index : Nat} {call : SessionCall}
    (hcall : session.calls[index]? = some call) : session.inner.cipher ≠ none := by
  intro hnone
  rw [(hchannel.silent hnone).1] at hcall
  cases hcall

/-- A step that sends nothing and sets no cipher keeps the channel. It may change the calls
where there is a cipher, and go to a phase that needs one. -/
theorem of_same (hchannel : Channel codecs session) {inner : ClientInner} {phase : SessionPhase}
    {calls : List SessionCall} (hcipher : inner.cipher = session.inner.cipher)
    (hsent : inner.sent = session.inner.sent)
    (hphase : (∃ error, phase = .dropped error) ∨ phase.Ready)
    (hready : phase.Ready → session.inner.cipher ≠ none)
    (hcalls : session.inner.cipher = none → calls = []) :
    Channel codecs { session with phase, inner, calls } where
  expected := by
    rcases hphase with ⟨error, rfl⟩ | hphase
    · exact nofun
    · rintro rfl
      exact hphase
  connected := by
    rcases hphase with ⟨error, rfl⟩ | hphase
    · exact nofun
    · rintro rfl
      exact hphase.elim
  keySent := by
    rcases hphase with ⟨error, rfl⟩ | hphase
    · exact nofun
    · rintro key rfl
      exact hphase.elim
  ready := fun hphase => hcipher ▸ hready hphase
  silent := by
    intro hnone
    simp only [hcipher] at hnone
    obtain ⟨_, hnothing, hanswer⟩ := hchannel.silent hnone
    exact ⟨hcalls hnone, hsent.trans hnothing, hanswer⟩
  talking := by
    intro cipher hsome
    simp only [hcipher] at hsome
    simp only [hsent]
    exact hchannel.talking cipher hsome

theorem drop (hchannel : Channel codecs session) (error : SessionError)
    (incoming : List Bytes) :
    Channel codecs { session with
      phase := .dropped error
      inner := { session.inner with incoming } } :=
  hchannel.of_same rfl rfl (.inl ⟨error, rfl⟩) False.elim fun hnone => (hchannel.silent hnone).1

/-- Where there is a cipher, the phase is one that needs it, or an error. -/
theorem phase_of_cipher (hchannel : Channel codecs session)
    (hcipher : session.inner.cipher ≠ none) :
    (∃ error, session.phase = .dropped error) ∨ session.phase.Ready := by
  cases hphase : session.phase with
  | connected => exact absurd (hchannel.connected hphase).1 hcipher
  | keySent key => exact absurd (hchannel.keySent key hphase).1 hcipher
  | encrypted | loggingIn | loggedIn => exact .inr trivial
  | dropped error => exact .inl ⟨error, rfl⟩
  | panicked => exact absurd hphase hchannel.expected

/-- The methods change the calls and the shared state. -/
theorem of_frame (hchannel : Channel codecs session) (hcipher : session.inner.cipher ≠ none)
    {inner : ClientInner} (hsame : inner.cipher = session.inner.cipher)
    (hsent : inner.sent = session.inner.sent) (calls : List SessionCall) :
    Channel codecs { session with inner, calls } :=
  hchannel.of_same hsame hsent (hchannel.phase_of_cipher hcipher) (fun _ => hcipher)
    fun hnone => absurd hnone hcipher

/-- The login goes from phase to phase. -/
theorem rephase (hchannel : Channel codecs session) (hcipher : session.inner.cipher ≠ none)
    {inner : ClientInner} (hsame : inner.cipher = session.inner.cipher)
    (hsent : inner.sent = session.inner.sent) {phase : SessionPhase} (hphase : phase.Ready) :
    Channel codecs { session with phase, inner } :=
  hchannel.of_same hsame hsent (.inr hphase) (fun _ => hcipher) fun hnone => absurd hnone hcipher

/-- A message goes through the cipher. -/
theorem send (hchannel : Channel codecs session) (hcipher : session.inner.cipher ≠ none)
    (random : Vector UInt8 3) (msg : ClientMsg) :
    Channel codecs (session.sendEncrypted codecs random msg) := by
  obtain ⟨cipher, hsome⟩ := Option.ne_none_iff_exists'.mp hcipher
  rw [sendEncrypted_some hsome]
  refine ⟨hchannel.expected, ?_, ?_, hchannel.ready, ?_, ?_⟩
  · exact fun hphase => absurd (hchannel.connected hphase).1 hcipher
  · exact fun key hphase => absurd (hchannel.keySent key hphase).1 hcipher
  · exact fun hnone => absurd hnone hcipher
  · intro found hfound
    obtain rfl : cipher = found := Option.some.inj (hsome.symm.trans hfound)
    obtain ⟨result, later, packets, ⟨padding, request, response, harrived, hrespond, hwire⟩,
      hresult, hsealed⟩ := hchannel.talking cipher hsome
    refine ⟨result, later, packets ++ [cipher.encrypt codecs.wire codecs.sealBlock random
      (Messages.ClientMsg.writeTo codecs.encoder msg)], ?_, hresult, ?_⟩
    · exact ⟨padding, request, response, harrived, hrespond, by simp only [hwire,
        List.cons_append]⟩
    · exact List.rel_append hsealed (.cons ⟨random, rfl⟩ .nil)

theorem arrive (hchannel : Channel codecs session) (packet : Bytes) :
    Channel codecs { session with
      inner := { session.inner with incoming := session.inner.incoming ++ [packet] }
      arrived := session.arrived ++ [packet] } := by
  have hanswered {sessionKey : DepotKey} {later packets : List Bytes}
      (h : session.Answered codecs sessionKey later packets) : Answered codecs { session with
        inner := { session.inner with incoming := session.inner.incoming ++ [packet] }
        arrived := session.arrived ++ [packet] } sessionKey (later ++ [packet]) packets := by
    obtain ⟨padding, request, response, harrived, hrespond, hwire⟩ := h
    exact ⟨padding, request, response, by simp only [harrived, List.cons_append], hrespond, hwire⟩
  refine ⟨hchannel.expected, ?_, ?_, hchannel.ready, ?_, ?_⟩
  · intro hphase
    obtain ⟨hcipher, hwire, harrived⟩ := hchannel.connected hphase
    exact ⟨hcipher, hwire, congrArg (· ++ [packet]) harrived⟩
  · intro sessionKey hphase
    obtain ⟨hcipher, hanswer⟩ := hchannel.keySent sessionKey hphase
    exact ⟨hcipher, hanswered hanswer⟩
  · intro hnone
    obtain ⟨hcalls, hsent, hanswer⟩ := hchannel.silent hnone
    refine ⟨hcalls, hsent, hanswer.imp_right ?_⟩
    rintro ⟨sessionKey, later, h⟩
    exact ⟨sessionKey, _, hanswered h⟩
  · intro cipher hsome
    obtain ⟨result, later, packets, hanswer, hresult, hsealed⟩ := hchannel.talking cipher hsome
    exact ⟨result, later ++ [packet], packets, hanswered hanswer, hresult, hsealed⟩

theorem respond (hchannel : Channel codecs session) {sessionKey : DepotKey}
    {padding packet response : Bytes} {rest : List Bytes} (hphase : session.phase = .connected)
    (hincoming : session.inner.incoming = packet :: rest)
    (hrespond : Handshake.respond codecs.handshake sessionKey padding packet = .ok response) :
    Channel codecs { session with
      phase := .keySent sessionKey
      inner := { session.inner with incoming := rest }
      wire := session.wire ++ [response] } := by
  obtain ⟨hcipher, hwire, harrived⟩ := hchannel.connected hphase
  obtain ⟨hcalls, hsent, _⟩ := hchannel.silent hcipher
  have hanswered : Answered codecs { session with
      phase := .keySent sessionKey
      inner := { session.inner with incoming := rest }
      wire := session.wire ++ [response] } sessionKey rest [] :=
    ⟨padding, packet, response, harrived.trans hincoming, hrespond, by simp [hwire]⟩
  refine ⟨nofun, nofun, ?_, False.elim, ?_, ?_⟩
  · intro key hkey
    obtain rfl : sessionKey = key := SessionPhase.keySent.inj hkey
    exact ⟨hcipher, hanswered⟩
  · exact fun _ => ⟨hcalls, hsent, .inr ⟨sessionKey, rest, hanswered⟩⟩
  · intro cipher hsome
    rw [hcipher] at hsome
    cases hsome

theorem confirm (hchannel : Channel codecs session) {sessionKey : DepotKey} {packet : Bytes}
    {rest : List Bytes} (hphase : session.phase = .keySent sessionKey)
    (hincoming : session.inner.incoming = packet :: rest)
    (hresult : Handshake.readResult packet = .ok ()) :
    Channel codecs { session with
      phase := .encrypted
      inner := { session.inner with incoming := rest, cipher := some ⟨sessionKey⟩ } } := by
  obtain ⟨hcipher, hanswer⟩ := hchannel.keySent sessionKey hphase
  obtain ⟨_, hsent, _⟩ := hchannel.silent hcipher
  refine ⟨nofun, nofun, nofun, nofun, nofun, ?_⟩
  intro cipher hsome
  obtain rfl := Option.some.inj hsome
  refine ⟨packet, rest, [], hincoming ▸ hanswer, hresult, ?_⟩
  rw [show Sealed codecs _ [] _ ↔ Sealed codecs ⟨sessionKey⟩ [] session.inner.sent from Iff.rfl,
    hsent]
  exact .nil

/-- Every step keeps the channel. -/
theorem step {move : SessionMove} (hchannel : Channel codecs session)
    (hstep : session.step codecs move = some next) : Channel codecs next := by
  cases step_cases hstep with
  | arrives packet => exact hchannel.arrive packet
  | drops => exact hchannel.drop _ _
  | responds hphase hincoming hrespond => exact hchannel.respond hphase hincoming hrespond
  | confirms hphase hincoming hresult =>
      exact (hchannel.confirm hphase hincoming hresult).send nofun _ _
  | beginsLogin hphase =>
      have hcipher := hchannel.ready (by rw [hphase]; trivial)
      exact hchannel.rephase hcipher (by rfl) (by rfl) (by trivial)
  | @sendsLogin msg random hphase =>
      have hcipher := hchannel.ready (by rw [hphase]; trivial)
      have hpolling : Channel codecs { session with phase := .loggingIn msg .polling } :=
        hchannel.rephase hcipher (by rfl) (by rfl) (by trivial)
      exact hpolling.send hcipher random msg
  | loopsLogin hphase hsending _ hadvance =>
      have hcipher := hchannel.ready (by rw [hphase]; trivial)
      have hframe := InnerFrame.advance hsending hadvance
      exact hchannel.rephase hcipher hframe.cipher hframe.sent (by trivial)
  | forwards hphase =>
      have hcipher := hchannel.ready (by rw [hphase]; trivial)
      exact hchannel.rephase hcipher (by rfl) (by rfl) (by trivial)
  | logsIn hphase =>
      have hcipher := hchannel.ready (by rw [hphase]; trivial)
      exact hchannel.rephase hcipher (by rfl) (by rfl) (by trivial)
  | @begins request loggedIn hphase havailable =>
      have hcipher : session.inner.cipher ≠ none := by
        apply hchannel.ready
        cases hcase : session.phase with
        | encrypted | loggedIn => trivial
        | connected | keySent | loggingIn | dropped | panicked =>
            rw [hcase] at hphase
            cases hphase
      unfold start
      dsimp only
      split <;> exact hchannel.of_frame hcipher (by rfl) (by rfl) _
  | @sends index random call msg hcall =>
      have hcipher := hchannel.cipher_of_call hcall
      have hset := hchannel.of_frame hcipher rfl rfl
        (session.calls.set index
          { call with stage := call.request.afterSend, sentMsg := some msg })
      exact hset.send hcipher random msg
  | @handles index random call msg hcall =>
      have hframe := InnerFrame.sessionHandle codecs call.request call.jobId session.inner
        call.results msg
      exact hchannel.of_frame (hchannel.cipher_of_call hcall) hframe.cipher hframe.sent _
  | hands hcall _ hsending _ hadvance =>
      have hframe := InnerFrame.advance hsending hadvance
      exact hchannel.of_frame (hchannel.cipher_of_call hcall) hframe.cipher hframe.sent _
  | loops hcall _ hsending _ _ hadvance =>
      have hframe := InnerFrame.advance hsending hadvance
      exact hchannel.of_frame (hchannel.cipher_of_call hcall) hframe.cipher hframe.sent _
  | ends hcall => exact hchannel.of_frame (hchannel.cipher_of_call hcall) (by rfl) (by rfl) _

theorem run {moves : List SessionMove}
    (hrun : (machine codecs).run Session.connect moves = some session) : Channel codecs session :=
  (machine codecs).run_invariant (fun _ _ _ hchannel (_ : True) hstep => hchannel.step hstep)
    (fun _ _ => trivial) connect hrun

end Channel

section Reading

variable {codecs : SessionCodecs}

/-- A sent message as the other side sees it. -/
def received (msg : ClientMsg) : IncomingMsg := ⟨msg.emsg, true, msg.header, msg.body⟩

/-- One packet behind the answer. -/
def readPacket (codecs : SessionCodecs) (cipher : SessionCipher) (packet : Bytes) :
    Option IncomingMsg := do
  let payload ← (cipher.decrypt codecs.wire packet).toOption
  (parseIncoming codecs.wire payload).toOption

/-- What the holder of the private key reads on the wire: the session key, the challenge and
the messages. -/
def serverReads (codecs : SessionCodecs) (decryptKey : Bytes → Option Bytes) :
    List Bytes → Option (DepotKey × Bytes × List IncomingMsg)
  | [] => none
  | response :: packets => do
      let (sessionKey, challenge) ← Handshake.openResponse codecs.handshake decryptKey response
      let msgs ← packets.mapM (readPacket codecs ⟨sessionKey⟩)
      return (sessionKey, challenge, msgs)

/-- The libraries keep what they promise. -/
structure Sound (codecs : SessionCodecs) (decryptKey : Bytes → Option Bytes) : Prop where
  rsa : Handshake.RsaInverse codecs.handshake decryptKey
  aes : AesInverse codecs.sealBlock codecs.wire.aes
  hmac : ∀ key data, (codecs.wire.hmacSha1 key data).length = 20

/-- A message that a frame can carry: its number leaves the flag bit free, the library reads
back the header that it wrote, and the length of the packet is below 2^32. -/
structure FitsFrame (codecs : SessionCodecs) (msg : ClientMsg) : Prop where
  emsg : msg.emsg.value.toNat < 2 ^ 31
  header : codecs.wire.decodeHeader (codecs.encoder.encodeToVec msg.header) = some msg.header
  length : (Messages.ClientMsg.writeTo codecs.encoder msg).length + 32 < 2 ^ 32

theorem length_header_lt {msg : ClientMsg} (hfits : FitsFrame codecs msg) :
    (codecs.encoder.encodeToVec msg.header).length < 2 ^ 32 := by
  have hlength := hfits.length
  rw [Messages.ClientMsg.length_writeTo, Messages.ClientMsg.serializedLen,
    codecs.encoder.encodedLen_eq] at hlength
  omega

theorem parseIncoming_writeTo {msg : ClientMsg} (hfits : FitsFrame codecs msg) :
    parseIncoming codecs.wire (Messages.ClientMsg.writeTo codecs.encoder msg) =
      .ok (received msg) := by
  unfold Messages.ClientMsg.writeTo
  simp only [List.append_assoc]
  rw [Messages.parseIncoming_write, if_pos (Messages.or_protoMask_flag hfits.emsg),
    Messages.parse_protobuf_write _ (length_header_lt hfits),
    Messages.or_protoMask_emsgMask hfits.emsg]
  simp only [hfits.header]
  rfl

variable {decryptKey : Bytes → Option Bytes}

theorem readPacket_encrypt (hsound : Sound codecs decryptKey) {msg : ClientMsg}
    (hfits : FitsFrame codecs msg) (cipher : SessionCipher) (random : Vector UInt8 3) :
    readPacket codecs cipher (cipher.encrypt codecs.wire codecs.sealBlock random
      (Messages.ClientMsg.writeTo codecs.encoder msg)) = some (received msg) := by
  have hdecrypt : cipher.decrypt codecs.wire (cipher.encrypt codecs.wire codecs.sealBlock random
      (Messages.ClientMsg.writeTo codecs.encoder msg)) = .ok _ :=
    SessionCipher.decrypt_encrypt hsound.aes hsound.hmac random _
  unfold readPacket
  rw [hdecrypt]
  simp only [Except.toOption, Option.bind_eq_bind, Option.bind_some]
  rw [parseIncoming_writeTo hfits]

theorem readPackets (hsound : Sound codecs decryptKey) {cipher : SessionCipher}
    {packets : List Bytes} {msgs : List ClientMsg} (hsealed : Sealed codecs cipher packets msgs)
    (hfits : ∀ msg ∈ msgs, FitsFrame codecs msg) :
    packets.mapM (readPacket codecs cipher) = some (msgs.map received) := by
  unfold Sealed at hsealed
  induction hsealed with
  | nil => rfl
  | @cons packet msg packets msgs hpacket _ ih =>
      obtain ⟨random, rfl⟩ := hpacket
      have hfirst := readPacket_encrypt hsound (hfits msg List.mem_cons_self) cipher random
      have hrest := ih fun other hmem => hfits other (List.mem_cons_of_mem _ hmem)
      simp [List.mapM_cons, hfirst, hrest]

theorem length_encrypt_lt (hsound : Sound codecs decryptKey) {msg : ClientMsg}
    (hfits : FitsFrame codecs msg) (cipher : SessionCipher) (random : Vector UInt8 3) :
    (cipher.encrypt codecs.wire codecs.sealBlock random
      (Messages.ClientMsg.writeTo codecs.encoder msg)).length < 2 ^ 32 := by
  have hiv : (SessionCipher.buildIv codecs.wire cipher random.toList
      (Messages.ClientMsg.writeTo codecs.encoder msg)).length = 16 :=
    SessionCipher.length_buildIv hsound.hmac random _
  have hblocks := length_encryptPaddedVec hsound.aes hiv cipher.sessionKey
    (Messages.ClientMsg.writeTo codecs.encoder msg)
  have hblock := hsound.aes.length_encrypt cipher.sessionKey _ hiv
  have hlength := hfits.length
  unfold SessionCipher.encrypt symmetricEncryptEcb
  simp only [List.length_append, hblock, hblocks]
  omega

theorem length_sealed_lt (hsound : Sound codecs decryptKey) {cipher : SessionCipher}
    {packets : List Bytes} {msgs : List ClientMsg} (hsealed : Sealed codecs cipher packets msgs)
    (hfits : ∀ msg ∈ msgs, FitsFrame codecs msg) :
    ∀ payload ∈ packets, payload.length < 2 ^ 32 := by
  unfold Sealed at hsealed
  induction hsealed with
  | nil => exact nofun
  | @cons packet msg packets msgs hpacket _ ih =>
      obtain ⟨random, rfl⟩ := hpacket
      rw [List.forall_mem_cons]
      exact ⟨length_encrypt_lt hsound (hfits msg List.mem_cons_self) cipher random,
        ih fun other hmem => hfits other (List.mem_cons_of_mem _ hmem)⟩

theorem length_respond (hsound : Sound codecs decryptKey) {sessionKey : DepotKey}
    {padding packet response : Bytes}
    (hrespond : Handshake.respond codecs.handshake sessionKey padding packet = .ok response) :
    response.length = 164 := by
  obtain ⟨challenge, encryptedKey, _, hencrypt, rfl⟩ := Handshake.respond_ok.mp hrespond
  have hlength := hsound.rsa.length_encrypt _ _ _ hencrypt
  simp [Handshake.buildEncryptResponse, Messages.MsgHdr.writeTo, hlength, WireInt.u32,
    WireInt.u64]

/-- Every payload on the wire fits its frame. -/
theorem Channel.length_lt (hsound : Sound codecs decryptKey) {session : Session}
    (hchannel : Channel codecs session)
    (hfits : ∀ msg ∈ session.inner.sent, FitsFrame codecs msg) :
    ∀ payload ∈ session.wire, payload.length < 2 ^ 32 := by
  have hanswer {sessionKey : DepotKey} {later packets : List Bytes}
      (h : session.Answered codecs sessionKey later packets)
      (hpackets : ∀ payload ∈ packets, payload.length < 2 ^ 32) :
      ∀ payload ∈ session.wire, payload.length < 2 ^ 32 := by
    obtain ⟨padding, request, response, _, hrespond, hwire⟩ := h
    rw [hwire]
    intro payload hmem
    rcases List.mem_cons.mp hmem with rfl | hmem
    · rw [length_respond hsound hrespond]
      decide
    · exact hpackets payload hmem
  cases hcipher : session.inner.cipher with
  | none =>
      obtain ⟨_, _, hwire | ⟨sessionKey, later, h⟩⟩ := hchannel.silent hcipher
      · rw [hwire]
        exact nofun
      · exact hanswer h nofun
  | some cipher =>
      obtain ⟨result, later, packets, h, _, hsealed⟩ := hchannel.talking cipher hcipher
      exact hanswer h (length_sealed_lt hsound hsealed hfits)

end Reading

/-- The channel of a session, for every run of the handshake, the login and the methods: the
cipher is never missing, and until the first packet has been answered nothing is on the
wire. From then on the holder of the private key reads there the session key that the
client uses, the challenge of the first packet, and exactly the messages that were sent, in
order; all of it from the bytes of the connection, however they are cut into segments. -/
theorem channel_exact {codecs : SessionCodecs} {decryptKey : Bytes → Option Bytes}
    (hsound : Sound codecs decryptKey) {moves : List SessionMove} {session : Session}
    (hrun : (machine codecs).run connect moves = some session)
    (hfits : ∀ msg ∈ session.inner.sent, FitsFrame codecs msg) :
    session.phase ≠ .panicked ∧
      (session.wire = [] ∧ session.inner.sent = [] ∨
        ∃ request later sessionKey challenge, session.arrived = request :: later ∧
          Handshake.readRequest request = .ok challenge ∧
          serverReads codecs decryptKey session.wire =
            some (sessionKey, challenge, session.inner.sent.map received) ∧
          (∀ cipher, session.inner.cipher = some cipher → cipher.sessionKey = sessionKey) ∧
          (session.inner.cipher = none → session.inner.sent = [])) ∧
      ∀ segments : List Bytes,
        segments.flatten = session.wire.flatMap Framing.frameBytes →
          TcpTransport.feed [] segments = ⟨session.wire, [], false⟩ := by
  have hchannel := Channel.run hrun
  refine ⟨hchannel.expected, ?_, ?_⟩
  · cases hcipher : session.inner.cipher with
    | none =>
        obtain ⟨_, hsent, hwire | ⟨sessionKey, later, h⟩⟩ := hchannel.silent hcipher
        · exact .inl ⟨hwire, hsent⟩
        · obtain ⟨padding, request, response, harrived, hrespond, hwire⟩ := h
          obtain ⟨challenge, hrequest, hopen⟩ := Handshake.openResponse_respond hsound.rsa hrespond
          refine .inr ⟨request, later, sessionKey, challenge, harrived, hrequest, ?_, ?_,
            fun _ => hsent⟩
          · rw [hwire, hsent]
            simp [serverReads, hopen]
          · intro cipher hfound
            cases hfound
    | some cipher =>
        obtain ⟨result, later, packets, h, _, hsealed⟩ := hchannel.talking cipher hcipher
        obtain ⟨padding, request, response, harrived, hrespond, hwire⟩ := h
        obtain ⟨challenge, hrequest, hopen⟩ := Handshake.openResponse_respond hsound.rsa hrespond
        have hread := readPackets hsound hsealed hfits
        refine .inr ⟨request, _, cipher.sessionKey, challenge, harrived, hrequest, ?_, ?_, ?_⟩
        · rw [hwire]
          simp [serverReads, hopen, hread]
        · intro found hfound
          rw [Option.some.inj hfound]
        · intro hnone
          cases hnone
  · intro segments hsegments
    rw [TcpTransport.feed_flatten, List.nil_append, hsegments]
    exact TcpTransport.feed_frames (hchannel.length_lt hsound hfits)

/-- A channel encryption request of the server, with a challenge of 16 bytes. -/
def sampleRequest : Bytes :=
  [23, 5, 0, 0, 255, 255, 255, 255, 255, 255, 255, 255, 255, 255, 255, 255, 255, 255, 255, 255,
   1, 0, 0, 0, 1, 0, 0, 0, 205, 24, 178, 34, 220, 169, 71, 226, 223, 103, 57, 76, 46, 92, 227,
   251]

/-- The server's confirmation. -/
def sampleResult : Bytes :=
  [25, 5, 0, 0, 255, 255, 255, 255, 255, 255, 255, 255, 255, 255, 255, 255, 255, 255, 255, 255,
   1, 0, 0, 0]

/-- The zero key and the challenge of that request. -/
def sampleBlob : Bytes :=
  List.replicate 32 0 ++
    [205, 24, 178, 34, 220, 169, 71, 226, 223, 103, 57, 76, 46, 92, 227, 251]

/-- A ciphertext of the blob under Valve's public key. -/
def sampleEncryptedKey : Bytes :=
  [89, 7, 0, 81, 148, 95, 14, 229, 55, 244, 113, 248, 222, 66, 168, 84, 79, 148, 139, 196, 227,
   127, 153, 249, 228, 10, 190, 75, 255, 177, 12, 219, 105, 220, 233, 240, 135, 130, 179, 202,
   49, 250, 63, 93, 200, 86, 41, 199, 13, 75, 110, 49, 52, 71, 225, 36, 140, 199, 131, 37, 61,
   124, 50, 156, 46, 51, 14, 125, 225, 82, 7, 169, 73, 148, 255, 223, 153, 123, 65, 114, 250,
   10, 3, 243, 113, 11, 142, 161, 151, 210, 185, 111, 237, 31, 168, 227, 197, 148, 230, 82, 114,
   220, 40, 181, 101, 119, 196, 168, 21, 235, 212, 48, 245, 196, 106, 144, 192, 212, 237, 69,
   38, 84, 1, 248, 108, 194, 0, 139]

/-- The two blocks that AES-256 encrypts under the zero key for the ClientHello and the random
bytes 1, 2, 3. -/
def helloBlocks : List (Bytes × Bytes) :=
  [([48, 155, 136, 134, 38, 175, 233, 55, 158, 134, 21, 252, 235, 1, 2, 3],
    [22, 168, 217, 115, 53, 80, 208, 209, 18, 60, 252, 118, 40, 72, 244, 77]),
  ([125, 189, 136, 6, 38, 175, 233, 55, 150, 43, 149, 248, 239, 5, 6, 7],
    [192, 153, 114, 76, 63, 4, 62, 154, 46, 15, 203, 196, 88, 146, 51, 215])]

/-- RSA and CRC-32 on that key exchange. -/
def sampleHandshake : HandshakeCodecs where
  encryptWithSteamPublicKey _ blob := if blob = sampleBlob then some sampleEncryptedKey else none
  crc32 _ := 2501884444

def sampleDecryptKey (encryptedKey : Bytes) : Option Bytes :=
  if encryptedKey = sampleEncryptedKey then some sampleBlob else none

/-- The libraries on the packets of the handshake: HMAC-SHA1 under the zero key, and the
empty header, whose encoding is empty. -/
def sampleCodecs : SessionCodecs where
  wire :=
    { aes := tableAes helloBlocks.reverse
      hmacSha1 := fun _ message =>
        if message = [1, 2, 3, 77, 38, 0, 128, 0, 0, 0, 0, 8, 173, 128, 4] then
          [48, 155, 136, 134, 38, 175, 233, 55, 158, 134, 21, 252, 235, 152, 33, 254,
           30, 119, 11, 244]
        else List.replicate 20 0
      gunzip := fun _ => none
      decodeHeader := fun headerData => if headerData = [] then some {} else none
      decodeMulti := fun _ => none
      decodeDepotKeyResponse := fun _ => none
      encodeDepotKeyRequest := fun _ => [] }
  handshake := sampleHandshake
  sealBlock := tableAes helloBlocks
  encoder := ⟨fun _ => [], fun _ => 0, fun _ => rfl⟩
  encodeHello := fun _ => [8, 173, 128, 4]
  decodeLogonResponse := fun _ => none
  encodeAccessTokenRequest := fun _ => []
  decodeAccessTokenResponse := fun _ => none
  encodeProductInfoRequest := fun _ => []
  decodeProductInfoResponse := fun _ => none
  encodeCheckBetaPassword := fun _ _ => []
  decodeCheckBetaPasswordResponse := fun _ => none

theorem sampleCodecs_sound : Sound sampleCodecs sampleDecryptKey where
  rsa := by
    refine ⟨?_, ?_⟩
    · intro padding blob encryptedKey hencrypt
      simp only [sampleCodecs, sampleHandshake, Option.ite_none_right_eq_some] at hencrypt
      obtain ⟨rfl, hencrypted⟩ := hencrypt
      rw [← Option.some.inj hencrypted]
      rfl
    · intro padding blob encryptedKey hencrypt
      simp only [sampleCodecs, sampleHandshake, Option.ite_none_right_eq_some] at hencrypt
      rw [← Option.some.inj hencrypt.2]
      rfl
  aes := tableAes_inverse (by decide)
  hmac := by
    intro key data
    simp only [sampleCodecs]
    split <;> rfl

/-- The handshake of that request. -/
def handshakeMoves : List SessionMove :=
  [.arrive sampleRequest, .encrypt ⟨.replicate 32 0⟩ [], .arrive sampleResult,
    .confirm #v[1, 2, 3]]

theorem channel_exact_sample : ∃ session,
    (machine sampleCodecs).run connect handshakeMoves = some session ∧
      ∃ sessionKey challenge, serverReads sampleCodecs sampleDecryptKey session.wire =
        some (sessionKey, challenge, [received (hello sampleCodecs)]) := by
  have hany : ((machine sampleCodecs).run connect handshakeMoves).any
      (fun session => decide (session.inner.sent = [hello sampleCodecs])) = true := by
    decide +kernel
  obtain ⟨session, hrun, hsent⟩ := Machine.exists_of_run_any _ hany
  have hsent : session.inner.sent = [hello sampleCodecs] := of_decide_eq_true hsent
  have hfits : ∀ msg ∈ session.inner.sent, FitsFrame sampleCodecs msg := by
    rw [hsent, List.forall_mem_singleton]
    exact ⟨by decide, rfl, by decide⟩
  obtain ⟨_, hwire, _⟩ := channel_exact sampleCodecs_sound hrun hfits
  rcases hwire with ⟨_, hnothing⟩ | ⟨_, _, sessionKey, challenge, _, _, hread, _⟩
  · rw [hsent] at hnothing
    cases hnothing
  · rw [hsent] at hread
    exact ⟨session, hrun, sessionKey, challenge, hread⟩

end Session

end DepotDownloader.Steam
