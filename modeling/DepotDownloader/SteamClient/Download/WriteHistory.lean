import DepotDownloader.SteamClient.Download.DeltaReuse

/-! # The writes of a file task

Without a previous version only the writes of the chunk tasks change the staging
file once it has its length. What a chunk task writes is settled by its chunk and
the answers of the fetcher, so the file that a download installs is the prepared
staging file under these writes, in the order in which the tasks made them. The
order is a history that no step reads.
-/

namespace DepotDownloader.SteamClient

open Foundation Foundation.LexPath Steam

namespace FileState

variable {state : FileState} {position : Nat} {chunkTask : ChunkTask} {stage : ChunkStage}

theorem map_index_advance (htask : state.chunkTasks[position]? = some chunkTask) :
    (state.advance position chunkTask stage).chunkTasks.map ChunkTask.index =
      state.chunkTasks.map ChunkTask.index := by
  apply List.ext_getElem?
  intro place
  simp only [advance, List.getElem?_map, List.getElem?_set]
  split
  next heq =>
    subst heq
    obtain ⟨hlt, _⟩ := List.getElem?_eq_some_iff.mp htask
    rw [if_pos hlt, htask]
    rfl
  next => rfl

end FileState

namespace FileContext

variable (ctx : FileContext)

/-- What the check of the final file says. -/
abbrev finalValid (disk : Disk) : Bool :=
  fileHasValidChunks disk ctx.finalPlace ctx.task.size ctx.task.chunks ctx.silent.final

/-- What the attempts for a chunk come to, from one of them on. -/
def retried (index : Nat) (chunk : ManifestChunk) (chunkId : ChunkId) : Nat → Nat → Option Bytes
  | 0, _ => none
  | left + 1, attempt =>
      match ctx.fetched ⟨index, chunk, chunkId, .fetch attempt⟩ attempt with
      | .process raw => (ctx.processed chunk raw).toOption
      | .fetch next => retried index chunk chunkId left next
      | _ => none

/-- What a chunk task for the chunk at an index gets: nothing when the attempts
fail or their data does not pass the check. -/
def delivered (index : Nat) : Option Bytes :=
  ctx.task.chunks[index]?.bind fun chunk => chunk.id.bind fun chunkId =>
    ctx.retried index chunk chunkId ctx.job.retry.maxAttempts 0

/-- The write of a chunk task for the chunk at an index. -/
def placedWrite (index : Nat) : Option (Nat × Bytes) :=
  (ctx.task.chunks[index]?.bind ManifestChunk.offset).bind fun offset =>
    (ctx.delivered index).map fun data => (offset, data)

/-- A chunk task is spawned for the chunk at an index. -/
def needed (valid : List ChunkId) (index : Nat) : Bool :=
  (ctx.task.chunks[index]?.bind ManifestChunk.id).any fun chunkId => !valid.contains chunkId

/-- The indices below a bound for which chunk tasks are spawned, in their order. -/
def queue (valid : List ChunkId) (count : Nat) : List Nat :=
  (List.range count).filter (ctx.needed valid)

/-- The chunk at an index has an offset. -/
def placed (index : Nat) : Bool := (ctx.task.chunks[index]?.bind ManifestChunk.offset).isSome

/-- What a chunk task carries is what it is going to deliver. -/
def OnTrack (chunkTask : ChunkTask) : Prop :=
  match chunkTask.stage with
  | .fetch attempt =>
      ctx.delivered chunkTask.index =
        ctx.retried chunkTask.index chunkTask.chunk chunkTask.chunkId
          (ctx.job.retry.maxAttempts - attempt) attempt
  | .process raw =>
      ctx.delivered chunkTask.index = (ctx.processed chunkTask.chunk raw).toOption
  | .lock _ data | .seek _ data | .write data => ctx.delivered chunkTask.index = some data
  | .done (.ok ()) => (ctx.delivered chunkTask.index).isSome
  | .done (.error _) => True

/-- The chunk tasks spawned below a bound, and the chunks written so far. -/
structure Written (start : Disk) (order : List Nat) (count : Nat) (state : FileState) : Prop where
  invalid : ctx.finalValid start = false
  opened : state.file.isSome
  valid : state.validChunks = ctx.foundValid (start.read ctx.stagingPlace)
  queue : state.chunkTasks.map ChunkTask.index =
    ctx.queue (ctx.foundValid (start.read ctx.stagingPlace)) count
  tasks : ∀ chunkTask ∈ state.chunkTasks, ctx.OnTrack chunkTask
  nodup : order.Nodup
  mem : ∀ index, index ∈ order ↔ state.HasWritten index

/-- The bytes that writes in an order leave. -/
def assembledBy (start : Disk) (order : List Nat) : Bytes :=
  Bytes.overlay (ctx.prepared (start.read ctx.stagingPlace)) (order.filterMap ctx.placedWrite)

/-- Unless a chunk task has failed, the staging file is what the writes made of
it. -/
def Staged (start : Disk) (order : List Nat) (disk : Disk) (state : FileState) : Prop :=
  state.Healthy → disk.read ctx.stagingPlace = some (ctx.assembledBy start order)

/-- Before the staging file is opened. -/
structure Unopened (start : Disk) (order : List Nat) (staging : Option Bytes)
    (valid : List ChunkId) (disk : Disk) (state : FileState) : Prop where
  order : order = []
  final : state.stage.phase ≤ 4 → disk.read ctx.finalPlace = start.read ctx.finalPlace
  staging : disk.read ctx.stagingPlace = staging
  valid : state.validChunks = valid

/-- What a download without a previous version leaves when it succeeds. -/
inductive Ended (start : Disk) (order : List Nat) (disk : Disk) (state : FileState) : Prop where
  | valid (hvalid : ctx.finalValid start = true)
      (hread : disk.read ctx.finalPlace = start.read ctx.finalPlace)
  | finished {data : Bytes} (hresumable : ctx.resumable (start.read ctx.stagingPlace) = some data)
      (hall : (ctx.seenValid data).length = ctx.task.chunks.length)
      (hread : disk.read ctx.finalPlace = some data)
  | written (hwritten : ctx.Written start order ctx.task.chunks.length state)
      (hread : disk.read ctx.finalPlace = some (ctx.assembledBy start order))

/-- What holds at a stage. -/
def HistoryAt (start : Disk) (order : List Nat) (disk : Disk) (state : FileState) :
    FileStage → Prop
  | .createStagingDir | .createFinalDir | .checkFinal =>
      ctx.Unopened start order (start.read ctx.stagingPlace) [] disk state
  | .checkStaging =>
      ctx.Unopened start order (start.read ctx.stagingPlace) [] disk state ∧
        ctx.finalValid start = false
  | .openStaging resuming =>
      ctx.Unopened start order (start.read ctx.stagingPlace)
          (ctx.foundValid (start.read ctx.stagingPlace)) disk state ∧
        ctx.finalValid start = false ∧
        resuming = (ctx.resumable (start.read ctx.stagingPlace)).isSome
  | .setLen =>
      ctx.Unopened start order (some []) (ctx.foundValid (start.read ctx.stagingPlace)) disk
          state ∧
        ctx.finalValid start = false ∧
        ctx.resumable (start.read ctx.stagingPlace) = none
  | .openOld => ctx.Written start order 0 state ∧ ctx.Staged start order disk state
  | .copyChunks _ _ => False
  | .spawnChunks next => ctx.Written start order next state ∧ ctx.Staged start order disk state
  | .awaitChunks _ =>
      ctx.Written start order ctx.task.chunks.length state ∧ ctx.Staged start order disk state
  | .rename =>
      (ctx.StagingComplete (start.read ctx.stagingPlace) ∧
          disk.read ctx.stagingPlace = start.read ctx.stagingPlace) ∨
        ctx.Written start order ctx.task.chunks.length state ∧ ctx.Staged start order disk state
  | .done (.ok ()) => ctx.Ended start order disk state
  | .done (.error _) => True

def History (start : Disk) (order : List Nat) (disk : Disk) (state : FileState) : Prop :=
  ctx.HistoryAt start order disk state state.stage

variable {ctx} {start disk disk' : Disk} {order : List Nat} {count index position : Nat}
  {valid : List ChunkId} {data : Bytes} {chunk : ManifestChunk} {chunkId : ChunkId}
  {world world' : World} {state state' : FileState} {fault : Option Nat} {chunkTask : ChunkTask}

theorem placed_eq_offset (hshape : ctx.TaskShape chunkTask) :
    ctx.placed chunkTask.index = chunkTask.chunk.offset.isSome := by
  simp [placed, hshape.indexed]

theorem retried_ok {left attempt : Nat}
    (hretried : ctx.retried index chunk chunkId left attempt = some data) :
    chunk.uncompressedSize = some data.length ∧
      chunk.checksum = some (SteamAdler32.compute data) := by
  induction left generalizing attempt with
  | zero => cases hretried
  | succ left ih =>
      unfold retried at hretried
      split at hretried
      next raw _ =>
        cases hprocessed : ctx.processed chunk raw with
        | error error =>
            rw [hprocessed] at hretried
            cases hretried
        | ok bytes =>
            rw [hprocessed] at hretried
            obtain rfl : bytes = data := Option.some.inj hretried
            exact processed_ok hprocessed
      next => exact ih hretried
      next => cases hretried

/-- What is delivered has the length and the checksum that the chunk announces. -/
theorem delivered_ok (hchunk : ctx.task.chunks[index]? = some chunk)
    (hdelivered : ctx.delivered index = some data) :
    chunk.uncompressedSize = some data.length ∧
      chunk.checksum = some (SteamAdler32.compute data) := by
  unfold delivered at hdelivered
  rw [hchunk, Option.bind_some] at hdelivered
  obtain ⟨chunkId, _, hretried⟩ := Option.bind_eq_some_iff.mp hdelivered
  exact retried_ok hretried

theorem placedWrite_eq_some {write : Nat × Bytes} :
    ctx.placedWrite index = some write ↔ ∃ chunk, ctx.task.chunks[index]? = some chunk ∧
      chunk.offset = some write.1 ∧ ctx.delivered index = some write.2 := by
  unfold placedWrite
  simp only [Option.bind_eq_some_iff, Option.map_eq_some_iff]
  constructor
  · rintro ⟨offset, ⟨chunk, hchunk, hoffset⟩, data, hdata, rfl⟩
    exact ⟨chunk, hchunk, hoffset, hdata⟩
  · rintro ⟨chunk, hchunk, hoffset, hdata⟩
    exact ⟨write.1, ⟨chunk, hchunk, hoffset⟩, write.2, hdata, rfl⟩

/-- What an attempt that is made comes to. -/
theorem retried_of_lt {attempt : Nat} (hattempt : attempt < ctx.job.retry.maxAttempts) :
    ctx.retried chunkTask.index chunkTask.chunk chunkTask.chunkId
        (ctx.job.retry.maxAttempts - attempt) attempt =
      match ctx.fetched chunkTask attempt with
      | .process raw => (ctx.processed chunkTask.chunk raw).toOption
      | .fetch next =>
          ctx.retried chunkTask.index chunkTask.chunk chunkTask.chunkId
            (ctx.job.retry.maxAttempts - (attempt + 1)) next
      | _ => none := by
  have hleft : ctx.job.retry.maxAttempts - attempt =
      ctx.job.retry.maxAttempts - (attempt + 1) + 1 := by omega
  rw [hleft, retried]
  rfl

/-- An attempt that is made leads on to what the chunk task delivers. -/
theorem OnTrack.fetched {attempt : Nat} (htrack : ctx.OnTrack chunkTask)
    (hstage : chunkTask.stage = .fetch attempt) (hattempt : attempt < ctx.job.retry.maxAttempts) :
    ctx.OnTrack { chunkTask with stage := ctx.fetched chunkTask attempt } := by
  simp only [OnTrack, hstage] at htrack
  rw [retried_of_lt hattempt] at htrack
  unfold OnTrack
  rcases ctx.fetched_cases chunkTask attempt with ⟨raw, hnext⟩ | hnext | ⟨error, hnext⟩
  · simpa only [hnext] using htrack
  · simpa only [hnext] using htrack
  · simp only [hnext]

/-- A chunk task whose chunk is delivered does not fail in the attempts. -/
theorem OnTrack.fetched_ne_error {attempt : Nat} (htrack : ctx.OnTrack chunkTask)
    (hstage : chunkTask.stage = .fetch attempt) (hattempt : attempt < ctx.job.retry.maxAttempts)
    (hdelivered : (ctx.delivered chunkTask.index).isSome) (error : DownloadError) :
    ctx.fetched chunkTask attempt ≠ .done (.error error) := by
  intro hnext
  simp only [OnTrack, hstage] at htrack
  rw [retried_of_lt hattempt, hnext] at htrack
  rw [htrack] at hdelivered
  cases hdelivered

/-- The queue grows by the next index when a chunk task is spawned for it. -/
theorem queue_succ (valid : List ChunkId) (count : Nat) :
    ctx.queue valid (count + 1) =
      if ctx.needed valid count then ctx.queue valid count ++ [count]
      else ctx.queue valid count := by
  unfold queue
  rw [List.range_succ, List.filter_append, List.filter_singleton]
  split
  next hneeded => rw [hneeded, cond_true]
  next hnot =>
    rw [Bool.not_eq_true] at hnot
    rw [hnot, cond_false, List.append_nil]

theorem queue_of_length_le (hle : ctx.task.chunks.length ≤ count) :
    ctx.queue valid count = ctx.queue valid ctx.task.chunks.length := by
  induction count, hle using Nat.le_induction with
  | base => rfl
  | succ count hle ih =>
      have hnone : ctx.task.chunks[count]? = none := List.getElem?_eq_none hle
      rw [queue_succ, if_neg (by simp [needed, hnone]), ih]

theorem queue_nodup (valid : List ChunkId) (count : Nat) : (ctx.queue valid count).Nodup :=
  List.nodup_range.filter _

theorem mem_queue : index ∈ ctx.queue valid ctx.task.chunks.length ↔
    ∃ chunk chunkId, ctx.task.chunks[index]? = some chunk ∧ chunk.id = some chunkId ∧
      chunkId ∉ valid := by
  unfold queue needed
  simp only [List.mem_filter, List.mem_range, Option.any_eq_true, Option.bind_eq_some_iff,
    Bool.not_eq_true', List.contains_eq_mem, decide_eq_false_iff_not]
  constructor
  · rintro ⟨_, chunkId, ⟨chunk, hchunk, hid⟩, hnot⟩
    exact ⟨chunk, chunkId, hchunk, hid, hnot⟩
  · rintro ⟨chunk, chunkId, hchunk, hid, hnot⟩
    exact ⟨(List.getElem?_eq_some_iff.mp hchunk).1, chunkId, ⟨chunk, hchunk, hid⟩, hnot⟩

/-- Spawned chunk tasks are told apart by their indices. -/
theorem Written.unique (hwritten : ctx.Written start order count state) {other : ChunkTask}
    (hmem : chunkTask ∈ state.chunkTasks) (hother : other ∈ state.chunkTasks)
    (heq : chunkTask.index = other.index) : chunkTask = other := by
  have hnodup : (state.chunkTasks.map ChunkTask.index).Nodup := by
    rw [hwritten.queue]
    exact queue_nodup _ _
  exact List.inj_on_of_nodup_map hnodup hmem hother heq

/-- The file task goes on, and no chunk task is spawned. -/
theorem Written.goto (hwritten : ctx.Written start order count state) {count' : Nat}
    {stage : FileStage}
    (hqueue : ctx.queue (ctx.foundValid (start.read ctx.stagingPlace)) count' =
      ctx.queue (ctx.foundValid (start.read ctx.stagingPlace)) count) :
    ctx.Written start order count' (state.withStage stage) :=
  { hwritten with queue := hwritten.queue.trans hqueue.symm }

/-- The loop looks for the identifier of a chunk among those found valid. -/
theorem Written.skips_iff (hwritten : ctx.Written start order count state)
    (hnone : ctx.task.oldChunks = none) :
    ctx.skipsChunk disk state index chunkId = true ↔
      chunkId ∈ ctx.foundValid (start.read ctx.stagingPlace) := by
  simp [skipsChunk, hnone, hwritten.valid]

/-- The loop comes past a chunk that was found valid or has no identifier. -/
theorem Written.skip (hwritten : ctx.Written start order count state)
    (hnone : ctx.task.oldChunks = none) (hchunk : ctx.task.chunks[count]? = some chunk)
    (hskip : ∀ chunkId, chunk.id = some chunkId → ctx.skipsChunk disk state count chunkId = true) :
    ctx.Written start order (count + 1) (state.withStage (.spawnChunks (count + 1))) := by
  apply hwritten.goto
  rw [queue_succ, if_neg]
  intro hneeded
  unfold needed at hneeded
  rw [hchunk, Option.bind_some] at hneeded
  obtain ⟨chunkId, hid, hnot⟩ := Option.any_eq_true _ _ |>.mp hneeded
  have hfound := (hwritten.skips_iff hnone).mp (hskip chunkId hid)
  simp [hfound] at hnot

/-- A chunk task is spawned. -/
theorem Written.spawn (hwritten : ctx.Written start order count state)
    (hnone : ctx.task.oldChunks = none) (hchunk : ctx.task.chunks[count]? = some chunk)
    (hid : chunk.id = some chunkId) (hnoskip : ctx.skipsChunk disk state count chunkId = false) :
    ctx.Written start order (count + 1)
      { state with
        stage := .spawnChunks (count + 1)
        chunkTasks := state.chunkTasks ++ [⟨count, chunk, chunkId, .fetch 0⟩] } where
  invalid := hwritten.invalid
  opened := hwritten.opened
  valid := hwritten.valid
  queue := by
    have hmissing : chunkId ∉ ctx.foundValid (start.read ctx.stagingPlace) := by
      intro hmem
      rw [(hwritten.skips_iff hnone).mpr hmem] at hnoskip
      cases hnoskip
    have hneeded : ctx.needed (ctx.foundValid (start.read ctx.stagingPlace)) count = true := by
      simp [needed, hchunk, hid, hmissing]
    rw [queue_succ, if_pos hneeded, List.map_append, hwritten.queue]
    rfl
  tasks := by
    intro chunkTask hmem
    rcases List.mem_append.mp hmem with hold | hnew
    · exact hwritten.tasks chunkTask hold
    · rw [List.mem_singleton.mp hnew]
      simp [OnTrack, delivered, hchunk, hid]
  nodup := hwritten.nodup
  mem := by
    intro index
    rw [hwritten.mem index]
    exact (FileState.hasWritten_spawn rfl).symm

/-- A chunk task that has just been spawned has not failed. -/
theorem Staged.spawn (hstaged : ctx.Staged start order disk state) {stage : FileStage} :
    ctx.Staged start order disk
      { state with stage := stage, chunkTasks := state.chunkTasks ++ [chunkTask] } := by
  intro hhealthy
  apply hstaged
  intro earlier hmem error
  exact hhealthy earlier (List.mem_append_left _ hmem) error

/-- A chunk task goes on and writes nothing. -/
theorem Written.advance (hwritten : ctx.Written start order count state)
    (htask : state.chunkTasks[position]? = some chunkTask)
    (hpending : ∀ outcome, chunkTask.stage ≠ .done outcome) {stage : ChunkStage}
    (htrack : ctx.OnTrack { chunkTask with stage := stage })
    (hidle : stage = .done (.ok ()) → chunkTask.chunk.offset = none) {file : Option SharedFile}
    (hopened : file.isSome) :
    ctx.Written start order count { state.advance position chunkTask stage with file := file } where
  invalid := hwritten.invalid
  opened := hopened
  valid := hwritten.valid
  queue := (FileState.map_index_advance htask).trans hwritten.queue
  tasks := by
    intro other hmem
    rcases FileState.mem_advance hmem with rfl | hold
    · exact htrack
    · exact hwritten.tasks other hold
  nodup := hwritten.nodup
  mem := by
    intro index
    rw [hwritten.mem index]
    refine (FileState.hasWritten_advance htask hpending).trans ?_ |>.symm
    refine or_iff_left_of_imp fun hself => ?_
    have hplaced := hself.placed
    rw [show chunkTask.chunk.offset = none from hidle hself.done] at hplaced
    cases hplaced

/-- A chunk task writes its chunk, the latest of the writes so far. -/
theorem Written.wrote (hwritten : ctx.Written start order count state)
    (htask : state.chunkTasks[position]? = some chunkTask)
    (hpending : ∀ outcome, chunkTask.stage ≠ .done outcome)
    (hdelivered : (ctx.delivered chunkTask.index).isSome) (hplaced : chunkTask.chunk.offset.isSome)
    {file : Option SharedFile} (hopened : file.isSome) :
    ctx.Written start (order ++ [chunkTask.index]) count
      { state.advance position chunkTask (.done (.ok ())) with file := file } where
  invalid := hwritten.invalid
  opened := hopened
  valid := hwritten.valid
  queue := (FileState.map_index_advance htask).trans hwritten.queue
  tasks := by
    intro other hmem
    rcases FileState.mem_advance hmem with rfl | hold
    · exact hdelivered
    · exact hwritten.tasks other hold
  nodup := by
    refine List.nodup_append.mpr ⟨hwritten.nodup, List.nodup_singleton _, ?_⟩
    intro index hindex other hother heq
    rw [List.mem_singleton.mp hother] at heq
    obtain ⟨earlier, hmem, hdone⟩ := (hwritten.mem index).mp hindex
    have hsame := hwritten.unique hmem (List.mem_of_getElem? htask) (hdone.index.trans heq)
    exact hpending _ (hsame ▸ hdone.done)
  mem := by
    intro index
    rw [List.mem_append, List.mem_singleton, hwritten.mem index]
    refine Iff.trans ?_ (FileState.hasWritten_advance htask hpending).symm
    refine or_congr_right ⟨?_, ?_⟩
    · intro heq
      exact ⟨heq.symm, rfl, hplaced⟩
    · intro hself
      exact hself.index.symm

theorem Staged.goto (hstaged : ctx.Staged start order disk state) {stage : FileStage} :
    ctx.Staged start order disk (state.withStage stage) := hstaged

theorem Staged.advance (hstaged : ctx.Staged start order disk state)
    (htask : state.chunkTasks[position]? = some chunkTask)
    (hpending : ∀ outcome, chunkTask.stage ≠ .done outcome) {stage : ChunkStage}
    {file : Option SharedFile} :
    ctx.Staged start order disk { state.advance position chunkTask stage with file := file } := by
  intro hhealthy
  exact hstaged (.of_advance htask hpending hhealthy)

/-- What a chunk task does to the chunks written so far and to the staging file. -/
theorem Written.chunkStep (hwritten : ctx.Written start order count state)
    (hstaged : ctx.Staged start order world.disk state) (hshape : ctx.FileShape world.disk state)
    (hrunning : state.stage ≠ .done (.ok ()))
    (hstep : ctx.ChunkStep world state position fault world' state') :
    ∃ order', ctx.Written start order' count state' ∧ ctx.Staged start order' world'.disk state' ∧
      (order' = order ∨ ∃ chunkTask data, state.chunkTasks[position]? = some chunkTask ∧
        chunkTask.stage = .write data ∧ order' = order ++ [chunkTask.index]) := by
  cases hstep with
  | @fetch chunkTask attempt htask hstage hattempt =>
      have htrack := hwritten.tasks _ (List.mem_of_getElem? htask)
      refine ⟨order, hwritten.advance htask (by simp [hstage])
        (htrack.fetched hstage hattempt) ?_ hwritten.opened,
        hstaged.advance htask (by simp [hstage]), .inl rfl⟩
      intro hdone
      rcases ctx.fetched_cases chunkTask attempt with ⟨_, hnext⟩ | hnext | ⟨_, hnext⟩
      · rw [hnext] at hdone
        cases hdone
      · rw [hnext] at hdone
        cases hdone
      · rw [hnext] at hdone
        cases hdone
  | accepted htask hstage hprocessed =>
      have htrack := hwritten.tasks _ (List.mem_of_getElem? htask)
      simp only [OnTrack, hstage, hprocessed] at htrack
      refine ⟨order, hwritten.advance htask (by simp [hstage]) ?_ (by simp) hwritten.opened,
        hstaged.advance htask (by simp [hstage]), .inl rfl⟩
      exact htrack
  | unplaced htask hstage hprocessed hoffset =>
      have htrack := hwritten.tasks _ (List.mem_of_getElem? htask)
      simp only [OnTrack, hstage, hprocessed] at htrack
      refine ⟨order, hwritten.advance htask (by simp [hstage]) ?_ (fun _ => hoffset)
        hwritten.opened, hstaged.advance htask (by simp [hstage]), .inl rfl⟩
      simp only [OnTrack, htrack]
      rfl
  | locked htask _ hstage | sought htask _ hstage =>
      have htrack := hwritten.tasks _ (List.mem_of_getElem? htask)
      simp only [OnTrack, hstage] at htrack
      refine ⟨order, hwritten.advance htask (by simp [hstage]) ?_ (by simp) rfl,
        hstaged.advance htask (by simp [hstage]), .inl rfl⟩
      exact htrack
  | seekFault htask _ hstage =>
      refine ⟨order, hwritten.advance htask (by simp [hstage]) ?_ (by simp) rfl,
        hstaged.advance htask (by simp [hstage]), .inl rfl⟩
      trivial
  | noAttempt htask hstage | rejected htask hstage =>
      refine ⟨order, hwritten.advance htask (by simp [hstage]) ?_ (by simp) hwritten.opened,
        hstaged.advance htask (by simp [hstage]), .inl rfl⟩
      trivial
  | @wrote chunkTask file data htask hfile hstage =>
      have htrack := hwritten.tasks _ (List.mem_of_getElem? htask)
      simp only [OnTrack, hstage] at htrack
      have hoffset := hshape.cursor file position chunkTask data hfile htask hstage
      have hlink := hshape.linked file hfile hrunning
      refine ⟨order ++ [chunkTask.index], hwritten.wrote htask (by simp [hstage])
        (by simp [htrack]) (by simp [hoffset]) rfl, ?_, .inr ⟨chunkTask, data, htask, hstage, rfl⟩⟩
      intro hhealthy
      have hread := hstaged (.of_advance htask (by simp [hstage]) hhealthy)
      rw [FileTree.read_of_link hlink, Option.some.injEq] at hread
      have hwrite : ctx.placedWrite chunkTask.index = some (file.cursor, data) :=
        placedWrite_eq_some.mpr ⟨chunkTask.chunk,
          (hshape.tasks _ (List.mem_of_getElem? htask)).indexed, hoffset, htrack⟩
      refine (FileTree.read_store_self hlink _).trans ?_
      rw [hread, assembledBy, assembledBy, List.filterMap_append]
      simp only [List.filterMap_cons, hwrite, List.filterMap_nil, Bytes.overlay_concat]
  | @writeFault chunkTask file data _ htask hfile hstage =>
      refine ⟨order, hwritten.advance htask (by simp [hstage]) ?_ (by simp) rfl, ?_, .inl rfl⟩
      · trivial
      · intro hhealthy
        exact absurd rfl (hhealthy _ (FileState.mem_advance_self htask) .io)

theorem History.initial (hstart : start = disk) : ctx.History start [] disk .initial := by
  subst hstart
  have hunopened : ctx.Unopened start [] (start.read ctx.stagingPlace) [] start .initial :=
    ⟨rfl, fun _ => rfl, rfl, rfl⟩
  exact hunopened

/-- Before the staging file is opened only the stage and the valid identifiers
change. -/
theorem Unopened.goto {staging : Option Bytes} {valid' : List ChunkId} {stage : FileStage}
    (hunopened : ctx.Unopened start order staging valid disk state)
    (hphase : stage.phase ≤ 4 → state.stage.phase ≤ 4) :
    ctx.Unopened start order staging valid' disk
      { state with stage := stage, validChunks := valid' } where
  order := hunopened.order
  final h := hunopened.final (hphase h)
  staging := hunopened.staging
  valid := rfl

/-- The staging file is open and has its length, and nothing has been written. -/
theorem Unopened.open (hunopened : ctx.Unopened start order
      (some (ctx.prepared (start.read ctx.stagingPlace)))
      (ctx.foundValid (start.read ctx.stagingPlace)) disk state)
    (hinvalid : ctx.finalValid start = false)
    (hopened : state.file.isSome) (hidle : state.chunkTasks = []) :
    ctx.Written start order 0 state ∧ ctx.Staged start order disk state := by
  refine ⟨⟨hinvalid, hopened, hunopened.valid, ?_, by simp [hidle], ?_, ?_⟩, ?_⟩
  · rw [hidle]
    rfl
  · rw [hunopened.order]
    exact List.nodup_nil
  · simp [FileState.HasWritten, hidle, hunopened.order]
  · intro _
    rw [hunopened.staging, hunopened.order]
    rfl

theorem fileHasValidChunks_congr {size : Option Nat} {chunks : List ManifestChunk} {place : Place}
    {failing : FailingReads} (hread : disk.read place = disk'.read place) :
    fileHasValidChunks disk place size chunks failing =
      fileHasValidChunks disk' place size chunks failing := by
  unfold fileHasValidChunks fileHasCorrectSize
  rw [hread]

/-- The moves of the file task itself lead from stage to stage and write no
chunk. -/
theorem History.mainStep (hhistory : ctx.History start order world.disk state)
    (hnone : ctx.task.oldChunks = none) (hshape : ctx.FileShape world.disk state)
    (hstep : ctx.MainStep world state fault world' state') :
    ctx.History start order world'.disk state' := by
  unfold History at hhistory
  cases hstep with
  | stagingDir hstage | noStagingDir hstage | finalDir hstage | noFinalDir hstage =>
      rw [hstage] at hhistory
      exact ⟨hhistory.order, fun _ => hhistory.final (by simp [hstage]), hhistory.staging,
        hhistory.valid⟩
  | finalValid hstage hvalid =>
      rw [hstage] at hhistory
      have hfinal := hhistory.final (by simp [hstage])
      exact Ended.valid ((fileHasValidChunks_congr hfinal).symm.trans hvalid) hfinal
  | finalInvalid hstage hinvalid =>
      rw [hstage] at hhistory
      have hfinal := hhistory.final (by simp [hstage])
      exact ⟨⟨hhistory.order, fun _ => hfinal, hhistory.staging, hhistory.valid⟩,
        (fileHasValidChunks_congr hfinal).symm.trans hinvalid⟩
  | @stagingComplete data hstage hread hsize hall =>
      rw [hstage] at hhistory
      rw [hhistory.1.staging] at hread
      exact .inl ⟨⟨data, resumable_eq_some.mpr ⟨hread, hsize⟩, hall⟩, hhistory.1.staging⟩
  | @stagingPartial data hstage hread hsize =>
      rw [hstage] at hhistory
      rw [hhistory.1.staging] at hread
      have hresumable : ctx.resumable (start.read ctx.stagingPlace) = some data :=
        resumable_eq_some.mpr ⟨hread, hsize⟩
      refine ⟨?_, hhistory.2, ?_⟩
      · rw [foundValid_of_some hresumable]
        exact hhistory.1.goto (by simp [hstage])
      · rw [hresumable]
        rfl
  | stagingMissing hstage hmissing =>
      rw [hstage] at hhistory
      rw [hhistory.1.staging] at hmissing
      have hresumable : ctx.resumable (start.read ctx.stagingPlace) = none :=
        resumable_eq_none hmissing
      refine ⟨⟨hhistory.1.order, fun _ => hhistory.1.final (by simp [hstage]),
        hhistory.1.staging, ?_⟩, hhistory.2, ?_⟩
      · rw [foundValid_of_none hresumable]
        exact hhistory.1.valid
      · rw [hresumable]
        rfl
  | resumed hstage hlink =>
      rw [hstage] at hhistory
      obtain ⟨hunopened, hinvalid, hresuming⟩ := hhistory
      have hstaging := staging_eq_prepared hresuming.symm
      refine Unopened.open ⟨hunopened.order, by simp, ?_, hunopened.valid⟩ hinvalid rfl
        (hshape.idle (by simp [hstage]))
      exact hunopened.staging.trans hstaging
  | created hstage =>
      rw [hstage] at hhistory
      obtain ⟨hunopened, hinvalid, hresuming⟩ := hhistory
      refine ⟨⟨hunopened.order, by simp, ?_, hunopened.valid⟩, hinvalid, ?_⟩
      · rw [World.emit_disk, World.withDisk_disk,
          FileTree.read_of_link (FileTree.openTruncate_link _ _), FileTree.openTruncate_data]
      · exact Option.isNone_iff_eq_none.mp (Option.isSome_eq_false_iff.mp hresuming.symm)
  | sized hstage hsize hfile =>
      rw [hstage] at hhistory
      obtain ⟨hunopened, hinvalid, hresumable⟩ := hhistory
      have hlink := hshape.linked _ hfile (by simp [hstage])
      have hblank := hunopened.staging
      rw [FileTree.read_of_link hlink, Option.some.injEq] at hblank
      -- a truncated file that gets its length is a file of zero bytes
      refine Unopened.open ⟨hunopened.order, by simp, ?_, hunopened.valid⟩ hinvalid
        (by simp [hfile]) (hshape.idle (by simp [hstage]))
      rw [World.withDisk_disk, FileTree.read_store_self hlink, hblank, prepared, hresumable, hsize]
      rfl
  | unsized hstage hsize =>
      rw [hstage] at hhistory
      obtain ⟨hunopened, hinvalid, hresumable⟩ := hhistory
      refine Unopened.open ⟨hunopened.order, by simp, ?_, hunopened.valid⟩ hinvalid
        (hshape.opened (by simp [hstage]) (by simp [hstage])) (hshape.idle (by simp [hstage]))
      rw [hunopened.staging, prepared, hresumable, hsize]
      rfl
  -- without a previous version the copy loop is never entered
  | oldOpened _ hold =>
      rw [hnone] at hold
      cases hold
  | oldMissing hstage =>
      rw [hstage] at hhistory
      exact ⟨hhistory.1.goto rfl, hhistory.2.goto⟩
  | copied hstage | copyFault hstage | notCopied hstage | copyDone hstage =>
      rw [hstage] at hhistory
      exact hhistory.elim
  | chunkSkipped hstage hchunk hskip =>
      rw [hstage] at hhistory
      exact ⟨hhistory.1.skip hnone hchunk hskip, hhistory.2.goto⟩
  | chunkSpawned hstage hchunk hid hnoskip =>
      rw [hstage] at hhistory
      exact ⟨hhistory.1.spawn hnone hchunk hid hnoskip, hhistory.2.spawn⟩
  | spawnDone hstage hend =>
      rw [hstage] at hhistory
      have hlength := List.getElem?_eq_none_iff.mp hend
      exact ⟨hhistory.1.goto (queue_of_length_le hlength).symm, hhistory.2.goto⟩
  | awaited hstage =>
      rw [hstage] at hhistory
      exact ⟨hhistory.1.goto rfl, hhistory.2.goto⟩
  | awaitDone hstage =>
      rw [hstage] at hhistory
      exact .inr ⟨hhistory.1.goto rfl, hhistory.2.goto⟩
  | renamed hstage hrename =>
      rw [hstage] at hhistory
      have hread := FileTree.rename_read_target hrename
      rcases hhistory with ⟨⟨data, hresumable, hall⟩, hstaging⟩ | ⟨hwritten, hstaged⟩
      · refine Ended.finished hresumable hall (hread.trans ?_)
        rw [hstaging]
        exact resumable_read hresumable
      · have hhealthy := hshape.healthy_of_complete (.inl hstage)
        exact Ended.written (hwritten.goto rfl) (hread.trans (hstaged hhealthy))
  | failed => trivial

theorem History.chunkStep (hhistory : ctx.History start order world.disk state)
    (hshape : ctx.FileShape world.disk state)
    (hstep : ctx.ChunkStep world state position fault world' state') :
    ∃ order', ctx.History start order' world'.disk state' ∧
      (order' = order ∨ ∃ chunkTask data, state.chunkTasks[position]? = some chunkTask ∧
        chunkTask.stage = .write data ∧ order' = order ++ [chunkTask.index]) := by
  obtain ⟨hstage', chunkTask, hmem, hpending⟩ := chunkStep_pending hstep
  have hlate := late_of_pending hshape hmem
  unfold History at hhistory ⊢
  rw [hstage']
  cases hstage : state.stage with
  | spawnChunks next =>
      rw [hstage] at hhistory
      obtain ⟨order', hwritten, hstaged, horder⟩ :=
        hhistory.1.chunkStep hhistory.2 hshape (by simp [hstage]) hstep
      exact ⟨order', ⟨hwritten, hstaged⟩, horder⟩
  | awaitChunks last =>
      rw [hstage] at hhistory
      obtain ⟨order', hwritten, hstaged, horder⟩ :=
        hhistory.1.chunkStep hhistory.2 hshape (by simp [hstage]) hstep
      exact ⟨order', ⟨hwritten, hstaged⟩, horder⟩
  | rename => exact absurd (hshape.complete (.inl hstage) _ hmem) hpending
  | done outcome =>
      cases outcome with
      | ok => exact absurd (hshape.complete (.inr hstage) _ hmem) hpending
      | error => exact ⟨order, trivial, .inl rfl⟩
  | _ => exact absurd (by simp [hstage]) hlate

/-- Every move extends the history by at most one write. -/
theorem History.step {move : FileMove} (hhistory : ctx.History start order world.disk state)
    (hnone : ctx.task.oldChunks = none) (hshape : ctx.FileShape world.disk state)
    (hstep : ctx.step (world, state) move = some (world', state')) :
    ∃ order', ctx.History start order' world'.disk state' := by
  rcases step_cases hstep with hmain | ⟨_, hchunk⟩
  · exact ⟨order, hhistory.mainStep hnone hshape hmain⟩
  · obtain ⟨order', hhistory', _⟩ := hhistory.chunkStep hshape hchunk
    exact ⟨order', hhistory'⟩

/-- A download without a previous version that returns Ok leaves the prepared
staging file under the writes of its chunk tasks, unless one of the two files was
complete. -/
theorem history_of_run (hnone : ctx.task.oldChunks = none) {moves : List FileMove}
    (hrun : ctx.machine.run (world, .initial) moves = some (world', state'))
    (hok : state'.stage = .done (.ok ())) :
    ctx.FileShape world'.disk state' ∧ ∃ order, ctx.Ended world.disk order world'.disk state' := by
  have hstep : ∀ (config : FileConfig) (move : FileMove) (next : FileConfig),
      (ctx.FileShape config.1.disk config.2 ∧
        ∃ order, ctx.History world.disk order config.1.disk config.2) → True →
      ctx.machine.step config move = some next →
        ctx.FileShape next.1.disk next.2 ∧
          ∃ order, ctx.History world.disk order next.1.disk next.2 := by
    rintro config move next ⟨hshape, order, hhistory⟩ _ hstep
    exact ⟨hshape.step hstep, hhistory.step hnone hshape hstep⟩
  obtain ⟨hshape, order, hhistory⟩ := ctx.machine.run_invariant hstep (fun _ _ => trivial)
    ⟨FileShape.initial, [], History.initial rfl⟩ hrun
  refine ⟨hshape, order, ?_⟩
  unfold History at hhistory
  rwa [hok] at hhistory

/-- When all chunk tasks have returned Ok, every one of them has delivered, and
the writes are those of the chunks that have an offset. -/
theorem Written.complete (hwritten : ctx.Written start order count state)
    (hshape : ctx.FileShape disk state)
    (hdone : ∀ chunkTask ∈ state.chunkTasks, chunkTask.stage = .done (.ok ())) :
    (∀ index ∈ ctx.queue (ctx.foundValid (start.read ctx.stagingPlace)) count,
      (ctx.delivered index).isSome ∧ ∃ chunkTask ∈ state.chunkTasks, chunkTask.index = index) ∧
    order.Perm ((ctx.queue (ctx.foundValid (start.read ctx.stagingPlace)) count).filter
      ctx.placed) := by
  have hspawned : ∀ index ∈ ctx.queue (ctx.foundValid (start.read ctx.stagingPlace)) count,
      ∃ chunkTask ∈ state.chunkTasks, chunkTask.index = index := by
    intro index hindex
    rw [← hwritten.queue] at hindex
    exact List.mem_map.mp hindex
  have hplaced : ∀ chunkTask ∈ state.chunkTasks,
      ctx.placed chunkTask.index = chunkTask.chunk.offset.isSome := by
    intro chunkTask hmem
    exact placed_eq_offset (hshape.tasks chunkTask hmem)
  refine ⟨?_, ?_⟩
  · intro index hindex
    obtain ⟨chunkTask, hmem, rfl⟩ := hspawned index hindex
    have htrack := hwritten.tasks chunkTask hmem
    simp only [OnTrack, hdone chunkTask hmem] at htrack
    exact ⟨htrack, chunkTask, hmem, rfl⟩
  · refine (List.perm_ext_iff_of_nodup hwritten.nodup ((queue_nodup _ _).filter _)).mpr ?_
    intro index
    rw [hwritten.mem index, List.mem_filter]
    constructor
    · rintro ⟨chunkTask, hmem, hindex, _, hoffset⟩
      subst hindex
      rw [← hwritten.queue, hplaced chunkTask hmem]
      exact ⟨List.mem_map_of_mem hmem, hoffset⟩
    · rintro ⟨hindex, hoffset⟩
      obtain ⟨chunkTask, hmem, rfl⟩ := hspawned index hindex
      rw [hplaced chunkTask hmem] at hoffset
      exact ⟨chunkTask, hmem, rfl, hdone chunkTask hmem, hoffset⟩

section Regions

variable (hdisjoint : ctx.task.chunks.Pairwise RegionsApart)

include hdisjoint

/-- The writes of different chunks are apart. -/
theorem placedWrite_apart {other : Nat} {write write' : Nat × Bytes} (hne : index ≠ other)
    (hwrite : ctx.placedWrite index = some write)
    (hwrite' : ctx.placedWrite other = some write') :
    Bytes.Apart write.1 write.2.length write'.1 write'.2.length := by
  obtain ⟨chunk, hchunk, hoffset, hdelivered⟩ := placedWrite_eq_some.mp hwrite
  obtain ⟨chunk', hchunk', hoffset', hdelivered'⟩ := placedWrite_eq_some.mp hwrite'
  exact RegionsApart.of_pairwise hdisjoint hchunk hchunk' hne _ _ _ _ hoffset
    (delivered_ok hchunk hdelivered).1 hoffset' (delivered_ok hchunk' hdelivered').1

/-- After writes over disjoint regions a chunk is valid when it has been written or
was valid before. -/
theorem chunkValid_overlay {base : Bytes} (horder : order.Nodup)
    (hdelivered : ∀ index ∈ order, (ctx.delivered index).isSome)
    (hfits : ∀ write ∈ order.filterMap ctx.placedWrite, Bytes.Fits base.length write.1 write.2)
    (hchunk : ctx.task.chunks[index]? = some chunk) (hoffset : chunk.offset.isSome) :
    chunkValid (Bytes.overlay base (order.filterMap ctx.placedWrite)) chunk = true ↔
      index ∈ order ∨ chunkValid base chunk = true := by
  obtain ⟨offset, hoffset⟩ := Option.isSome_iff_exists.mp hoffset
  by_cases hmem : index ∈ order
  · obtain ⟨data, hdata⟩ := Option.isSome_iff_exists.mp (hdelivered index hmem)
    have hmatches := delivered_ok hchunk hdata
    have hwrite : ctx.placedWrite index = some (offset, data) :=
      placedWrite_eq_some.mpr ⟨chunk, hchunk, hoffset, hdata⟩
    have hpairwise : (order.filterMap ctx.placedWrite).Pairwise fun left right =>
        Bytes.Apart left.1 left.2.length right.1 right.2.length := by
      refine List.Pairwise.filterMap _ ?_ horder
      intro left right hne write hleft write' hright
      exact placedWrite_apart hdisjoint hne hleft hright
    have hread := Bytes.readAt_overlay_of_mem hfits hpairwise
      (List.mem_filterMap.mpr ⟨index, hmem, hwrite⟩)
    exact iff_of_true
      (chunkValid_iff.mpr ⟨offset, data.length, data, hoffset, hmatches.1, hread, hmatches⟩)
      (.inl hmem)
  · rw [or_iff_right hmem]
    refine Bool.eq_iff_iff.mp (chunkValid_congr ?_)
    intro offset size hoffset hsize
    refine Bytes.readAt_overlay_of_apart hfits fun write hwrite => ?_
    obtain ⟨other, hother, hplaced⟩ := List.mem_filterMap.mp hwrite
    obtain ⟨otherChunk, hotherChunk, hoffset', hdata⟩ := placedWrite_eq_some.mp hplaced
    have hne : index ≠ other := by
      rintro rfl
      exact hmem hother
    exact RegionsApart.of_pairwise hdisjoint hchunk hotherChunk hne _ _ _ _ hoffset hsize hoffset'
      (delivered_ok hotherChunk hdata).1

end Regions

end FileContext

end DepotDownloader.SteamClient
