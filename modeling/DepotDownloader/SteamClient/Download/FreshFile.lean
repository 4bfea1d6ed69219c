import DepotDownloader.SteamClient.Download.FileContent
import DepotDownloader.SteamClient.Download.FileProgress

/-! # Downloading a file afresh

Without a staging file and without a previous version, and with a fetcher that
serves every chunk within the attempts of the job, every interleaving of the
file task and its chunk tasks ends, and it ends with exactly the file that the
manifest describes.
-/

namespace DepotDownloader.SteamClient

open Foundation Foundation.LexPath Steam

namespace FileContext

variable (ctx : FileContext)

/-- For every chunk the fetcher gives, within the attempts of the job, data that
passes the check; `output` is what the check lets through. -/
def Served (output : Nat → Bytes) : Prop :=
  ∀ index chunk chunkId, ctx.task.chunks[index]? = some chunk → chunk.id = some chunkId →
    ∃ attempt raw, attempt < ctx.job.retry.maxAttempts ∧
      ctx.Answered ⟨index, chunk, chunkId, .fetch 0⟩ attempt raw ∧
      ctx.processed chunk raw = .ok (output index)

/-- A download that starts without a staging file and accepts only the outputs
themselves. -/
def freshAssembly (length : Nat) (output : Nat → Bytes) (disk : Disk) : Assembly where
  length := length
  good index bytes := bytes = output index
  final := disk.read ctx.finalPlace
  staging := none

/-- The invariant of a download in which nothing fails. -/
structure FileSure (spec : Assembly) (config : FileConfig) : Prop where
  shape : ctx.FileShape config.1.disk config.2
  content : ctx.FileContent spec config.1.disk config.2
  healthy : config.2.Healthy
  unfailed : ∀ error, config.2.stage ≠ .done (.error error)

variable {ctx} {spec : Assembly} {output : Nat → Bytes} {world world' : World}
  {state state' : FileState} {chunkTask : ChunkTask}

theorem Answered.unique {attempt attempt' : Nat} {raw raw' : Bytes}
    (hleft : ctx.Answered chunkTask attempt raw) (hright : ctx.Answered chunkTask attempt' raw') :
    attempt = attempt' ∧ raw = raw' := by
  have hle {first second : Nat} {bytes bytes' : Bytes} (hfirst : ctx.Answered chunkTask first bytes)
      (hsecond : ctx.Answered chunkTask second bytes') : first ≤ second := by
    by_contra hlt
    obtain ⟨text, htext⟩ := hfirst.failed second (by omega)
    rw [hsecond.answer] at htext
    cases htext
  have heq : attempt = attempt' := Nat.le_antisymm (hle hleft hright) (hle hright hleft)
  subst heq
  have hanswer := hleft.answer.symm.trans hright.answer
  exact ⟨rfl, Except.ok.inj hanswer⟩

theorem Served.of_shape (hserved : ctx.Served output) (hshape : ctx.TaskShape chunkTask) :
    ∃ attempt raw, attempt < ctx.job.retry.maxAttempts ∧ ctx.Answered chunkTask attempt raw ∧
      ctx.processed chunkTask.chunk raw = .ok (output chunkTask.index) := by
  obtain ⟨attempt, raw, hlt, hanswered, hprocessed⟩ :=
    hserved chunkTask.index chunkTask.chunk chunkTask.chunkId hshape.indexed hshape.named
  exact ⟨attempt, raw, hlt, ⟨hanswered.failed, hanswered.answer⟩, hprocessed⟩

theorem Served.processed (hserved : ctx.Served output) (hshape : ctx.TaskShape chunkTask)
    {attempt : Nat} {raw : Bytes} (hanswered : ctx.Answered chunkTask attempt raw) :
    ctx.processed chunkTask.chunk raw = .ok (output chunkTask.index) := by
  obtain ⟨_, _, _, hanswered', hprocessed⟩ := hserved.of_shape hshape
  obtain ⟨_, rfl⟩ := hanswered.unique hanswered'
  exact hprocessed

/-- An attempt whose predecessors have failed is made, and leads to data or to
the next attempt. -/
theorem Served.fetched (hserved : ctx.Served output) (hretry : ctx.job.retry = .default)
    (hshape : ctx.TaskShape chunkTask) {attempt : Nat}
    (hfailed : ∀ earlier < attempt,
      ∃ text, ctx.fetcher (ctx.fetchCall chunkTask earlier) = .error text) :
    attempt < ctx.job.retry.maxAttempts ∧
      ∀ outcome, ctx.fetched chunkTask attempt ≠ .done outcome := by
  obtain ⟨last, raw, hlast, hanswered, _⟩ := hserved.of_shape hshape
  have hle : attempt ≤ last := by
    by_contra hlt
    obtain ⟨text, htext⟩ := hfailed last (by omega)
    rw [hanswered.answer] at htext
    cases htext
  refine ⟨by omega, fun outcome => ?_⟩
  unfold FileContext.fetched
  split
  next => simp
  next text htext =>
    have hne : attempt ≠ last := by
      rintro rfl
      rw [hanswered.answer] at htext
      cases htext
    have hnext : attempt + 1 < ctx.job.retry.maxAttempts := by omega
    have hdelay : (ctx.job.retry.delay attempt).isSome := by
      rw [hretry] at hnext ⊢
      exact RetryConfig.default_delay attempt (by omega)
    rw [if_pos hnext]
    split
    next => simp
    next hnone => simp [hnone] at hdelay

theorem Served.healthy (hserved : ctx.Served output) (hretry : ctx.job.retry = .default)
    (hshape : ctx.FileShape world.disk state) (hcontent : ctx.FileContent spec world.disk state)
    (hhealthy : state.Healthy) {position : Nat}
    (hstep : ctx.ChunkStep world state position none world' state') : state'.Healthy := by
  have hadvance {chunkTask : ChunkTask} {stage : ChunkStage}
      (hnext : ∀ error, stage ≠ .done (.error error)) :
      (state.advance position chunkTask stage).Healthy := by
    intro task hmem error
    rcases FileState.mem_advance hmem with rfl | hmem
    · exact hnext error
    · exact hhealthy task hmem error
  cases hstep with
  | @fetch chunkTask attempt htask hstage =>
      have hmem := List.mem_of_getElem? htask
      have hgood := hcontent.tasks _ hmem
      simp only [TaskGood, hstage] at hgood
      have hfetched := hserved.fetched hretry (hshape.tasks _ hmem) hgood
      exact hadvance fun error => hfetched.2 _
  | noAttempt htask hstage hattempt =>
      have hmem := List.mem_of_getElem? htask
      have hgood := hcontent.tasks _ hmem
      simp only [TaskGood, hstage] at hgood
      have hfetched := hserved.fetched hretry (hshape.tasks _ hmem) hgood
      exact absurd hfetched.1 (Nat.not_lt.mpr hattempt)
  | rejected htask hstage hprocessed =>
      have hmem := List.mem_of_getElem? htask
      have hgood := hcontent.tasks _ hmem
      simp only [TaskGood, hstage] at hgood
      obtain ⟨attempt, hanswered⟩ := hgood
      rw [hserved.processed (hshape.tasks _ hmem) hanswered] at hprocessed
      cases hprocessed
  | seekFault _ _ _ hfault => cases hfault
  | writeFault _ _ _ hfault => cases hfault
  | accepted | unplaced | locked | sought | wrote => exact hadvance (by simp)

/-- Without faults and with all chunk tasks healthy the file task cannot fail
once nothing is resumed. -/
theorem FileSure.unfailed_mainStep (hsure : ctx.FileSure spec (world, state))
    (hstaging : spec.staging = none)
    (hstep : ctx.MainStep world state none world' state') :
    ∀ error, state'.stage ≠ .done (.error error) := by
  apply hstep.unfailed hsure.healthy
  · intro hstage
    rw [(hsure.content.resumed hstage).1] at hstaging
    cases hstaging
  · intro hstage
    obtain ⟨data, hread, _⟩ := hsure.content.assembled (by simp [hstage]) (by simp [hstage])
      hsure.healthy
    exact ⟨data, hread⟩

theorem FileSure.step (hsound : ctx.Sound spec) (hserved : ctx.Served output)
    (hretry : ctx.job.retry = .default) (hstaging : spec.staging = none) {move : FileMove}
    (hsure : ctx.FileSure spec (world, state)) (hfault : move.fault = none)
    (hstep : ctx.step (world, state) move = some (world', state')) :
    ctx.FileSure spec (world', state') := by
  have hshape := hsure.shape.step hstep
  have hcontent := hsure.content.step hsound hsure.shape hstep
  rcases step_cases hstep with hmain | ⟨position, hchunk⟩
  · rw [hfault] at hmain
    exact ⟨hshape, hcontent, hmain.healthy hsure.healthy, hsure.unfailed_mainStep hstaging hmain⟩
  · rw [hfault] at hchunk
    refine ⟨hshape, hcontent, hserved.healthy hretry hsure.shape hsure.content hsure.healthy hchunk,
      fun error => ?_⟩
    have hstage : state'.stage = state.stage := by cases hchunk <;> rfl
    exact hstage ▸ hsure.unfailed error

/-- Only an answer of the fetcher gives bytes to a fresh download. -/
theorem Served.sound (hserved : ctx.Served output) {length : Nat} {disk : Disk}
    (hlayout : Layout ctx.task.size ctx.task.chunks length) (hold : ctx.task.oldChunks = none) :
    ctx.Sound (ctx.freshAssembly length output disk) where
  layout := hlayout
  apart := .inr hold
  resumed _ hstaging := by cases hstaging
  copyable _ _ _ _ _ _ _ hmatch := by simp [oldMatch, hold] at hmatch
  copied _ _ _ _ _ _ _ hplan := by
    obtain ⟨_, _, _, _, _, hmatch, _⟩ := hplan.source
    simp [oldMatch, hold] at hmatch
  processed chunkTask attempt raw data hshape hanswered hprocessed := by
    rw [hserved.processed hshape hanswered] at hprocessed
    exact (Except.ok.inj hprocessed).symm

variable (ctx) in
/-- The file that a fresh download has to leave: of that size, with the outputs
in the regions of the chunks and zero bytes elsewhere. -/
structure ExactFile (size : Nat) (output : Nat → Bytes) (data : Bytes) : Prop where
  length : data.length = size
  chunk : ∀ index chunk offset, ctx.task.chunks[index]? = some chunk →
    chunk.offset = some offset →
      Bytes.readAt data offset (output index).length = some (output index)
  zero : ∀ position < size, Uncovered ctx.task.chunks position → data[position]? = some 0

theorem exactFile_of_assembled {length : Nat} {disk : Disk} {data : Bytes}
    (hassembled : (ctx.freshAssembly length output disk).Assembled ctx.task.chunks
      (fun _ _ => True) data) : ctx.ExactFile length output data where
  length := hassembled.length
  chunk index chunk offset hchunk hoffset := by
    obtain ⟨offset', size, bytes, hoffset', _, hread, hgood⟩ :=
      hassembled.placed index chunk hchunk trivial
    have hbytes : bytes = output index := hgood
    rw [hoffset, Option.some.injEq] at hoffset'
    rw [← hbytes, Bytes.length_of_readAt hread, hoffset', hread]
  zero position hlt hout := by
    rw [hassembled.outside position hout]
    simp [Assembly.background, freshAssembly, Bytes.resize_nil, hlt]

/-- A fresh download assembles the file exactly, in any order of its tasks: no
run of moves without faults is longer than a bound, a run can be continued until
the file task returns, and when it returns it returns Ok and has left exactly the
file. -/
theorem freshDownload_exact {length : Nat}
    (hlayout : Layout ctx.task.size ctx.task.chunks length) (hold : ctx.task.oldChunks = none)
    (hretry : ctx.job.retry = .default) (hserved : ctx.Served output)
    (hstaging : world.disk.present ctx.stagingPlace = false)
    (hfinal : fileHasValidChunks world.disk ctx.finalPlace ctx.task.size ctx.task.chunks = false)
    {moves : List FileMove} (hmoves : ∀ move ∈ moves, move.fault = none)
    (hrun : ctx.machine.run (world, .initial) moves = some (world', state')) :
    moves.length ≤ ctx.rank .initial ∧
      ((∀ outcome, state'.stage ≠ .done outcome) →
        ∃ move next, move.fault = none ∧ ctx.machine.step (world', state') move = some next) ∧
      ∀ outcome, state'.stage = .done outcome → outcome = .ok () ∧
        ∃ data, world'.disk.read ctx.finalPlace = some data ∧
          ctx.ExactFile length output data := by
  let spec := ctx.freshAssembly length output world.disk
  have hsound : ctx.Sound spec := hserved.sound hlayout hold
  have hnone : world.disk.read ctx.stagingPlace = none := by
    cases hread : world.disk.read ctx.stagingPlace with
    | none => rfl
    | some bytes => rw [FileTree.present_iff_read.mpr ⟨bytes, hread⟩] at hstaging; cases hstaging
  have hterm : ctx.machine.Terminating (ctx.FileSure spec) (fun move => move.fault = none)
      (fun config => ∃ outcome, config.2.stage = .done outcome) (fun config => ctx.rank config.2) :=
    { preserved := fun _ _ _ hsure hfault hstep => hsure.step hsound hserved hretry rfl hfault hstep
      decreasing := fun _ _ _ _ _ hstep => rank_step hstep
      progress := fun _ hsure hrunning =>
        file_progress hsure.shape fun outcome hstage => hrunning ⟨outcome, hstage⟩ }
  have hinitial : ctx.FileSure spec (world, .initial) :=
    ⟨.initial, .initial rfl (by simp [hnone, spec, freshAssembly]),
      by simp [FileState.Healthy, FileState.initial], by simp [FileState.initial]⟩
  have hsure : ctx.FileSure spec (world', state') :=
    ctx.machine.run_invariant hterm.preserved hmoves hinitial hrun
  refine ⟨?_, fun hrunning => ?_, fun outcome hstage => ?_⟩
  · have hbound := hterm.run_length_le hmoves hinitial hrun
    simp only at hbound
    omega
  · exact hterm.progress _ hsure fun hdone => hdone.elim hrunning
  · cases outcome with
    | error error => exact absurd hstage (hsure.unfailed error)
    | ok =>
        obtain ⟨data, hread, hcomplete⟩ := hsure.content.result hstage
        refine ⟨rfl, data, hread, ?_⟩
        rcases hcomplete with ⟨hvalid, hlength, hall⟩ | hassembled
        · have hvalid' := fileHasValidChunks_iff.mpr
            ⟨data, hvalid, hlayout.size.trans (congrArg some hlength.symm), hall⟩
          rw [hfinal] at hvalid'
          cases hvalid'
        · exact exactFile_of_assembled hassembled

/-- AES-256 under the zero key, on the blocks of the two sample chunks. -/
def sampleAes : Aes256 := fun _ block =>
  if block = [220, 149, 192, 120, 162, 64, 137, 137, 173, 72, 162, 20, 146, 132, 32, 135] then
    List.replicate 16 0
  else if block = [69, 29, 116, 133, 45, 195, 207, 1, 183, 114, 131, 226, 199, 34, 183, 61] then
    [100, 101, 112, 111, 116, 11, 11, 11, 11, 11, 11, 11, 11, 11, 11, 11]
  else if block = [10, 179, 56, 192, 184, 142, 166, 59, 86, 88, 244, 46, 61, 18, 173, 80] then
    [115, 116, 101, 97, 109, 11, 11, 11, 11, 11, 11, 11, 11, 11, 11, 11]
  else []

/-- The encrypted chunk `depot`: a zero IV and one padded block. -/
def sampleRaw : Bytes :=
  [220, 149, 192, 120, 162, 64, 137, 137, 173, 72, 162, 20, 146, 132, 32, 135,
    69, 29, 116, 133, 45, 195, 207, 1, 183, 114, 131, 226, 199, 34, 183, 61]

/-- The encrypted chunk `steam`. -/
def otherRaw : Bytes :=
  [220, 149, 192, 120, 162, 64, 137, 137, 173, 72, 162, 20, 146, 132, 32, 135,
    10, 179, 56, 192, 184, 142, 166, 59, 86, 88, 244, 46, 61, 18, 173, 80]

/-- A file of eight bytes with the chunk at offset two. The fetcher serves it on
the second attempt. -/
def sampleFile : FileContext where
  job :=
    { depotId := ⟨1⟩
      depotKey := ⟨.replicate 32 0⟩
      installDir := .ofString "game"
      verify := false
      fileFilter := none
      previousManifest := none
      retry := .default
      workingDir := ["home"] }
  codecs :=
    { aes := sampleAes
      zstdDecodeAll := fun _ => none
      lzmaDecompress := fun _ => none
      zipFirst := fun _ => .notAnArchive }
  fetcher call := if call.attempt = 0 then .error "busy" else .ok sampleRaw
  task :=
    { path := (Path.ofString "game").join (.ofString "a")
      size := some 8
      flags := none
      chunks := [⟨some ⟨.replicate 20 7⟩, some 0x62A021C, some 2, some 32, some 5⟩]
      oldChunks := none
      filename := "a" }
  file := 0

/-- The chunks `depot` at offset two and `steam` at offset eight. -/
def pairChunks : List ManifestChunk :=
  [⟨some ⟨.replicate 20 7⟩, some 0x62A021C, some 2, some 32, some 5⟩,
    ⟨some ⟨.replicate 20 8⟩, some 0x66D021A, some 8, some 32, some 5⟩]

/-- Both chunks are served on the second attempt. -/
def pairFetcher : ChunkFetcher := fun call =>
  if call.attempt = 0 then .error "busy"
  else if call.chunkId = ⟨.replicate 20 7⟩ then .ok sampleRaw
  else .ok otherRaw

/-- A file of thirteen bytes with both chunks. -/
def pairFile : FileContext :=
  { sampleFile with
    fetcher := pairFetcher
    task := { sampleFile.task with size := some 13, chunks := pairChunks } }

def pairOutput (index : Nat) : Bytes :=
  if index = 0 then [100, 101, 112, 111, 116] else [115, 116, 101, 97, 109]

theorem layout_pairChunks : Layout (some 13) pairChunks 13 where
  size := rfl
  complete chunk hmem := by
    rcases List.mem_cons.mp hmem with rfl | hmem
    · exact ⟨rfl, rfl, 2, 5, rfl, rfl, by decide⟩
    · rw [List.mem_singleton.mp hmem]
      exact ⟨rfl, rfl, 8, 5, rfl, rfl, by decide⟩
  disjoint := by
    refine List.pairwise_pair.mpr ?_
    rintro _ _ _ _ ⟨⟩ ⟨⟩ ⟨⟩ ⟨⟩ position hin hin'
    unfold Bytes.InRegion at hin hin'
    omega

theorem pairFile_served : pairFile.Served pairOutput := by
  intro index chunk chunkId hget hid
  have hmem : (chunk, index) ∈ pairChunks.zipIdx := List.mem_zipIdx_iff_getElem?.mpr hget
  have hbusy (chunkTask : ChunkTask) : ∀ earlier < 1,
      ∃ text, pairFetcher (pairFile.fetchCall chunkTask earlier) = .error text := by
    intro earlier hearlier
    obtain rfl := Nat.lt_one_iff.mp hearlier
    exact ⟨"busy", rfl⟩
  rcases List.mem_cons.mp hmem with heq | hmem
  · cases heq
    cases hid
    exact ⟨1, sampleRaw, by decide, ⟨hbusy _, rfl⟩, by decide⟩
  · cases List.mem_singleton.mp hmem
    cases hid
    exact ⟨1, otherRaw, by decide, ⟨hbusy _, rfl⟩, by decide⟩

/-- Each of the two chunk tasks fails once, and the second one writes first. -/
def pairMoves : List FileMove :=
  List.replicate 10 ⟨.main, none⟩ ++
    [⟨.chunk 1, none⟩, ⟨.chunk 0, none⟩, ⟨.chunk 1, none⟩, ⟨.chunk 0, none⟩, ⟨.chunk 0, none⟩,
      ⟨.chunk 1, none⟩, ⟨.chunk 1, none⟩, ⟨.chunk 1, none⟩, ⟨.chunk 1, none⟩] ++
      List.replicate 3 ⟨.chunk 0, none⟩ ++ List.replicate 4 ⟨.main, none⟩

theorem freshDownload_exact_sample :
    ∃ world' state' data,
      pairFile.machine.run (⟨.empty, []⟩, .initial) pairMoves = some (world', state') ∧
      state'.stage = .done (.ok ()) ∧
      world'.disk.read ["home", "game", "a"] = some data ∧
      pairFile.ExactFile 13 pairOutput data := by
  have hany : (pairFile.machine.run (⟨.empty, []⟩, .initial) pairMoves).any
      (fun config => config.2.stage == .done (.ok ())) = true := by decide +kernel
  obtain ⟨⟨world', state'⟩, hrun, hdone⟩ := Machine.exists_of_run_any _ hany
  have hstage : state'.stage = .done (.ok ()) := by simpa using hdone
  obtain ⟨_, _, hresult⟩ :=
    freshDownload_exact layout_pairChunks rfl rfl pairFile_served rfl rfl (by simp [pairMoves]) hrun
  obtain ⟨_, data, hread, hexact⟩ := hresult _ hstage
  exact ⟨world', state', data, hrun, hstage, hread, hexact⟩

end FileContext

end DepotDownloader.SteamClient
