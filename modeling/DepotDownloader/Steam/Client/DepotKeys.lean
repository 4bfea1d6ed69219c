import DepotDownloader.Steam.Client.Responses

/-! # Which depot a key belongs to

`get_depot_decryption_key` takes the first key response that it is handed and
never reads its `depot_id`. The key belongs to the depot that was asked for when
no response that grants another depot's key is within the reach of the call.
-/

namespace DepotDownloader.Steam

open Foundation

variable {codecs : WireCodecs}

namespace IncomingMsg

/-- A successful key response with a key and the depot it names. -/
def GrantsKey (codecs : WireCodecs) (msg : IncomingMsg) (keyBytes : Bytes)
    (named : Option DepotId) : Prop :=
  msg.emsg = .clientGetDepotDecryptionKeyResponse ∧
    ∃ body, codecs.decodeDepotKeyResponse msg.body = some body ∧ body.eresult = some 1 ∧
      body.depotEncryptionKey = some keyBytes ∧ body.depotId = named

/-- The response grants a usable key and does not name the depot. -/
def GrantsForeignKey (codecs : WireCodecs) (depotId : DepotId) (msg : IncomingMsg) : Prop :=
  msg.emsg = .clientGetDepotDecryptionKeyResponse ∧
    ∃ body ∈ codecs.decodeDepotKeyResponse msg.body, body.eresult = some 1 ∧
      (∃ keyBytes ∈ body.depotEncryptionKey, keyBytes.length = 32) ∧ body.depotId ≠ some depotId

instance (depotId : DepotId) (msg : IncomingMsg) :
    Decidable (msg.GrantsForeignKey codecs depotId) :=
  inferInstanceAs (Decidable (_ ∧ ∃ body ∈ _, _ ∧ (∃ keyBytes ∈ _, _) ∧ _))

end IncomingMsg

/-- Handed messages and keys are the stages that carry something to the caller. -/
def Stage.Carries : Stage → Prop
  | .handed _ | .returned (.ok _) => True
  | _ => False

namespace SteamClient

/-- While a depot key call receives, no response that grants another depot's key
is within its reach. -/
def Unmixed (codecs : WireCodecs) (client : SteamClient) (move : ClientMove) : Prop :=
  match move with
  | .advance index =>
      ∀ call ∈ client.calls[index]?, call.stage.Receives →
        match call.request with
        | .getDepotDecryptionKey depotId _ =>
            ∀ msg ∈ client.withinReach codecs call, ¬ msg.GrantsForeignKey codecs depotId
        | _ => True
  | _ => True

instance (client : SteamClient) (move : ClientMove) :
    Decidable (client.Unmixed codecs move) :=
  match move with
  | .advance index =>
      have hrequest (msgs : List IncomingMsg) (request : Request) : Decidable
          (match request with
          | .getDepotDecryptionKey depotId _ =>
              ∀ msg ∈ msgs, ¬ msg.GrantsForeignKey codecs depotId
          | _ => True) :=
        match request with
        | .getDepotDecryptionKey depotId _ =>
            inferInstanceAs (Decidable (∀ msg ∈ msgs, ¬ msg.GrantsForeignKey codecs depotId))
        | .callServiceMethod _ _ => inferInstanceAs (Decidable True)
        | .recvMsg => inferInstanceAs (Decidable True)
      have : ∀ call : Call, Decidable (call.stage.Receives →
          match call.request with
          | .getDepotDecryptionKey depotId _ =>
              ∀ msg ∈ client.withinReach codecs call, ¬ msg.GrantsForeignKey codecs depotId
          | _ => True) := fun call =>
        have := hrequest (client.withinReach codecs call) call.request
        inferInstanceAs (Decidable (_ → _))
      inferInstanceAs (Decidable (∀ call ∈ client.calls[index]?, _))
  | .begin _ => inferInstanceAs (Decidable True)
  | .transportFails _ _ => inferInstanceAs (Decidable True)
  | .abandon _ => inferInstanceAs (Decidable True)
  | .arrive _ => inferInstanceAs (Decidable True)

/-- The key that a call returned was granted for its depot by a message that the
call was handed. -/
def KeyGranted (codecs : WireCodecs) (client : SteamClient) (index : Nat) (depotId : DepotId)
    (key : DepotKey) : Prop :=
  ∃ handing ∈ client.handings, handing.call = index ∧
    handing.msg.GrantsKey codecs key.bytes.toList (some depotId)

/-- A message in the hands of a depot key call was handed to it and grants no
other depot's key, and every key returned was granted for its depot. -/
structure KeysNamed (codecs : WireCodecs) (client : SteamClient) : Prop where
  handed : ∀ (index : Nat) (call : Call) (depotId : DepotId) (appId : UInt32) (msg : IncomingMsg),
    client.calls[index]? = some call → call.request = .getDepotDecryptionKey depotId appId →
      call.stage = .handed msg → ¬ msg.GrantsForeignKey codecs depotId ∧
        ∃ handing ∈ client.handings, handing.call = index ∧ handing.msg = msg
  returned : ∀ (index : Nat) (call : Call) (depotId : DepotId) (appId : UInt32) (key : DepotKey),
    client.calls[index]? = some call → call.request = .getDepotDecryptionKey depotId appId →
      call.stage = .returned (.ok (.depotKey key)) → client.KeyGranted codecs index depotId key

/-- A call that carries something did so before the step, or has just taken a
step of its own. -/
theorem step_carries {client next : SteamClient} {move : ClientMove}
    (hstep : client.step codecs move = some next) {index : Nat} {call : Call}
    (hcall : next.calls[index]? = some call) (hcarries : call.stage.Carries) :
    client.calls[index]? = some call ∨
      ∃ before inner, client.calls[index]? = some before ∧ call.request = before.request ∧
        move = .advance index ∧
        before.advance codecs client.inner = some (inner, call.stage) ∧
        next.handings = client.handings ++ client.handing index call.stage := by
  have hset {other : Nat} {acting moved : Call}
      (hacting : client.calls[other]? = some acting)
      (hmoved : (client.calls.set other moved)[index]? = some call) :
      client.calls[index]? = some call ∨ index = other ∧ call = moved := by
    by_cases heq : other = index
    · subst heq
      obtain ⟨hlt, _⟩ := List.getElem?_eq_some_iff.mp hacting
      rw [List.getElem?_set_self hlt] at hmoved
      exact .inr ⟨rfl, (Option.some.inj hmoved).symm⟩
    · rw [List.getElem?_set_ne heq] at hmoved
      exact .inl hmoved
  cases step_cases hstep with
  | begins request =>
      left
      obtain ⟨started, hcalls, hplain⟩ : ∃ started, (client.start request).calls =
          client.calls ++ [started] ∧ ¬ started.stage.Carries := by
        cases request <;> exact ⟨_, rfl, id⟩
      rw [hcalls] at hcall
      by_cases hold : index < client.calls.length
      · rwa [List.getElem?_append_left hold] at hcall
      · rw [List.getElem?_append_right (by omega)] at hcall
        have hmem := List.mem_of_getElem? hcall
        rw [List.mem_singleton] at hmem
        exact absurd (hmem ▸ hcarries) hplain
  | arrives => exact .inl hcall
  | @advances other acting inner stage hacting hadvance =>
      obtain hold | ⟨rfl, rfl⟩ := hset hacting hcall
      · exact .inl hold
      · exact .inr ⟨acting, inner, hacting, rfl, rfl, hadvance, rfl⟩
  | fails hacting hflight =>
      obtain hold | ⟨_, rfl⟩ := hset hacting hcall
      · exact .inl hold
      · cases hcarries
  | drops hacting hflight =>
      obtain hold | ⟨_, rfl⟩ := hset hacting hcall
      · exact .inl hold
      · cases hcarries

/-- No handing is forgotten. -/
theorem step_keeps_handings {client next : SteamClient} {move : ClientMove}
    (hstep : client.step codecs move = some next) {handing : Handing}
    (hmem : handing ∈ client.handings) : handing ∈ next.handings := by
  cases step_cases hstep with
  | begins request => cases request <;> exact hmem
  | arrives | fails | drops => exact hmem
  | advances => exact List.mem_append_left _ hmem

theorem KeysNamed.step {client next : SteamClient} {move : ClientMove}
    (hnamed : client.KeysNamed codecs) (hunmixed : client.Unmixed codecs move)
    (hstep : client.step codecs move = some next) : next.KeysNamed codecs where
  handed index call depotId appId msg hcall hrequest hstage := by
    have hcarries : call.stage.Carries := by
      rw [hstage]
      trivial
    obtain hold | ⟨before, inner, hbefore, hsame, rfl, hadvance, hhandings⟩ :=
      step_carries hstep hcall hcarries
    · obtain ⟨hforeign, handing, hmem, hhanded⟩ :=
        hnamed.handed index call depotId appId msg hold hrequest hstage
      exact ⟨hforeign, handing, step_keeps_handings hstep hmem, hhanded⟩
    · rw [hstage] at hadvance hhandings
      have hreach := advance_reach hadvance
      constructor
      · have hcondition := hunmixed before hbefore hreach.1
        rw [← hsame, hrequest] at hcondition
        exact hcondition msg hreach.2
      · rw [hhandings]
        exact ⟨_, List.mem_append_right _ List.mem_cons_self, rfl, rfl⟩
  returned index call depotId appId key hcall hrequest hstage := by
    have hcarries : call.stage.Carries := by
      rw [hstage]
      trivial
    obtain hold | ⟨before, inner, hbefore, hsame, rfl, hadvance, hhandings⟩ :=
      step_carries hstep hcall hcarries
    · obtain ⟨handing, hmem, hgranted⟩ :=
        hnamed.returned index call depotId appId key hold hrequest hstage
      exact ⟨handing, step_keeps_handings hstep hmem, hgranted⟩
    · rw [hstage] at hadvance
      obtain ⟨msg, depotId', appId', hhanded, hrequest', hemsg, hresponse⟩ :=
        Call.advance_depotKey hadvance
      rw [← hsame, hrequest] at hrequest'
      cases hrequest'
      obtain ⟨hown, handing, hmem, hcall', hmsg⟩ :=
        hnamed.handed index before depotId appId msg hbefore (hsame ▸ hrequest) hhanded
      obtain ⟨body, hdecode, heresult, hkey⟩ := Request.depotKeyResponse_ok hresponse
      -- A response with another depot's name would have granted a foreign key.
      have hdepot : body.depotId = some depotId := by
        by_contra hother
        exact hown ⟨hemsg, body, hdecode, heresult, ⟨_, hkey, by simp⟩, hother⟩
      refine ⟨handing, step_keeps_handings hstep hmem, hcall', ?_⟩
      rw [hmsg]
      exact ⟨hemsg, body, hdecode, heresult, hkey, hdepot⟩

/-- In every run in which depot key calls receive unmixed, whatever else runs on
the client and whatever earlier calls left behind, a key that a call returns was
granted for the depot that the call asked for. -/
theorem depot_key_names_depot (inner : ClientInner) {moves : List ClientMove}
    {client : SteamClient}
    (hrun : (machine codecs).RunWhere (Unmixed codecs) (loggedIn inner) moves client)
    {index : Nat} {call : Call} {depotId : DepotId} {appId : UInt32} {key : DepotKey}
    (hcall : client.calls[index]? = some call)
    (hrequest : call.request = .getDepotDecryptionKey depotId appId)
    (hreturned : call.stage = .returned (.ok (.depotKey key))) :
    client.KeyGranted codecs index depotId key := by
  have hstart : (loggedIn inner).KeysNamed codecs := by
    constructor
    · intro index call depotId appId msg hcall
      cases hcall
    · intro index call depotId appId key hcall
      cases hcall
  have hstep : ∀ (state : SteamClient) (move : ClientMove) (next : SteamClient),
      state.KeysNamed codecs → state.Unmixed codecs move → state.step codecs move = some next →
        next.KeysNamed codecs :=
    fun _ _ _ hnamed hunmixed hstep => hnamed.step hunmixed hstep
  have hnamed := Machine.RunWhere.invariant (machine codecs) hstep hstart hrun
  exact hnamed.returned index call depotId appId key hcall hrequest hreturned

/-- AES-256 under the zero key, on the blocks of the two packets below. -/
def keyBlocks : List (Bytes × Bytes) :=
  [([169, 195, 107, 58, 7, 216, 172, 178, 191, 28, 90, 207, 195, 209, 218, 204],
    [117, 172, 124, 217, 86, 126, 83, 107, 2, 219, 96, 183, 156, 1, 2, 3]),
  ([251, 131, 231, 80, 21, 181, 81, 156, 247, 175, 157, 238, 196, 129, 126, 223],
    [74, 185, 124, 89, 86, 126, 83, 107, 10, 218, 112, 182, 134, 33, 19, 18]),
  ([197, 73, 12, 201, 217, 81, 181, 135, 254, 221, 155, 110, 43, 154, 157, 82],
    [234, 146, 246, 65, 4, 164, 64, 141, 230, 190, 140, 255, 213, 144, 111, 206]),
  ([61, 206, 242, 223, 43, 61, 29, 20, 68, 24, 80, 4, 109, 21, 72, 130],
    [212, 88, 29, 216, 200, 64, 164, 150, 239, 204, 138, 127, 58, 139, 159, 80]),
  ([224, 200, 17, 194, 31, 197, 174, 45, 137, 190, 76, 153, 63, 158, 89, 194],
    [232, 238, 42, 52, 94, 202, 148, 120, 16, 227, 198, 130, 224, 1, 2, 3]),
  ([231, 88, 192, 253, 32, 103, 139, 69, 248, 213, 248, 67, 69, 8, 161, 120],
    [215, 251, 42, 180, 94, 202, 148, 120, 24, 226, 214, 128, 250, 33, 32, 33]),
  ([8, 255, 108, 201, 61, 80, 186, 152, 151, 197, 138, 0, 120, 181, 46, 15],
    [197, 122, 226, 223, 2, 69, 169, 103, 218, 247, 218, 97, 103, 42, 131, 90]),
  ([126, 28, 154, 4, 217, 21, 1, 216, 99, 117, 218, 166, 88, 179, 70, 14],
    [42, 221, 78, 235, 31, 114, 152, 186, 181, 231, 168, 34, 90, 151, 44, 13])]

/-- The codecs of the two packets: keys of 32 equal bytes for the depots 1 and 2. -/
def keyCodecs : WireCodecs where
  aes := fun _ block => (keyBlocks.lookup block).getD []
  hmacSha1 := fun _ message =>
    if message[14]? = some 1 then
      [117, 172, 124, 217, 86, 126, 83, 107, 2, 219, 96, 183, 156, 42, 46, 32, 116, 136, 15, 94]
    else
      [232, 238, 42, 52, 94, 202, 148, 120, 16, 227, 198, 130, 224, 246, 221, 157, 253, 135, 30,
        66]
  gunzip := fun _ => none
  decodeHeader := fun header => if header = [] then some {} else none
  decodeMulti := fun _ => none
  decodeDepotKeyResponse := fun body =>
    if body = [8, 1, 16, 1, 26, 32] ++ List.replicate 32 17 then
      some ⟨some 1, some ⟨1⟩, some (List.replicate 32 17)⟩
    else if body = [8, 1, 16, 2, 26, 32] ++ List.replicate 32 34 then
      some ⟨some 1, some ⟨2⟩, some (List.replicate 32 34)⟩
    else none
  encodeDepotKeyRequest := fun request =>
    if request.depotId = some ⟨1⟩ then [8, 1, 16, 10] else [8, 2, 16, 10]

def keyOfOne : Bytes :=
  [169, 195, 107, 58, 7, 216, 172, 178, 191, 28, 90, 207, 195, 209, 218, 204, 251, 131, 231, 80,
    21, 181, 81, 156, 247, 175, 157, 238, 196, 129, 126, 223, 197, 73, 12, 201, 217, 81, 181, 135,
    254, 221, 155, 110, 43, 154, 157, 82, 61, 206, 242, 223, 43, 61, 29, 20, 68, 24, 80, 4, 109,
    21, 72, 130]

def keyOfTwo : Bytes :=
  [224, 200, 17, 194, 31, 197, 174, 45, 137, 190, 76, 153, 63, 158, 89, 194, 231, 88, 192, 253,
    32, 103, 139, 69, 248, 213, 248, 67, 69, 8, 161, 120, 8, 255, 108, 201, 61, 80, 186, 152, 151,
    197, 138, 0, 120, 181, 46, 15, 126, 28, 154, 4, 217, 21, 1, 216, 99, 117, 218, 166, 88, 179,
    70, 14]

/-- The key call of depot 2 beside a service call. -/
theorem depot_key_names_depot_sample :
    ∃ client, (machine keyCodecs).run (loggedIn sampleInner)
        ([.begin (.getDepotDecryptionKey ⟨2⟩ 10), .begin sampleCall, .advance 1,
          .arrive keyOfTwo] ++ List.replicate 5 (.advance 0)) = some client ∧
      client.KeyGranted keyCodecs 0 ⟨2⟩ ⟨.replicate 32 34⟩ := by
  have hany : (((machine keyCodecs).guarded (Unmixed keyCodecs)).run (loggedIn sampleInner)
        ([.begin (.getDepotDecryptionKey ⟨2⟩ 10), .begin sampleCall, .advance 1,
          .arrive keyOfTwo] ++ List.replicate 5 (.advance 0))).any
      (fun client => client.calls[0]? = some ⟨.getDepotDecryptionKey ⟨2⟩ 10, none,
        .returned (.ok (.depotKey ⟨.replicate 32 34⟩))⟩) = true := by
    decide +kernel
  obtain ⟨client, hrun, hcall⟩ := Machine.exists_of_run_any _ hany
  have hunmixed := Machine.runWhere_of_guarded _ hrun
  exact ⟨client, hunmixed.run_eq,
    depot_key_names_depot sampleInner hunmixed (of_decide_eq_true hcall) rfl rfl⟩

/-- The late answer to an abandoned call for depot 1 becomes the key of depot 2. -/
theorem late_key_taken :
    ¬ ∀ moves client index call depotId appId key,
      (machine keyCodecs).run (loggedIn sampleInner) moves = some client →
        client.calls[index]? = some call →
          call.request = .getDepotDecryptionKey depotId appId →
            call.stage = .returned (.ok (.depotKey key)) →
              client.KeyGranted keyCodecs index depotId key := by
  intro hgranted
  have hany : ((machine keyCodecs).run (loggedIn sampleInner)
      ([.begin (.getDepotDecryptionKey ⟨1⟩ 10), .advance 0, .abandon 0,
        .begin (.getDepotDecryptionKey ⟨2⟩ 10), .advance 1, .arrive keyOfOne] ++
          List.replicate 4 (.advance 1))).any
      (fun client => client.calls[1]? = some ⟨.getDepotDecryptionKey ⟨2⟩ 10, none,
          .returned (.ok (.depotKey ⟨.replicate 32 17⟩))⟩ ∧
        ∀ handing ∈ client.handings, ∀ body ∈ keyCodecs.decodeDepotKeyResponse handing.msg.body,
          body.depotId ≠ some ⟨2⟩) = true := by
    decide +kernel
  obtain ⟨client, hrun, hchecked⟩ := Machine.exists_of_run_any _ hany
  obtain ⟨hcall, hnames⟩ := of_decide_eq_true hchecked
  obtain ⟨handing, hmem, _, _, body, hdecode, _, _, hdepot⟩ :=
    hgranted _ client 1 _ ⟨2⟩ 10 _ hrun hcall rfl rfl
  exact hnames handing hmem body hdecode hdepot

end SteamClient

end DepotDownloader.Steam
