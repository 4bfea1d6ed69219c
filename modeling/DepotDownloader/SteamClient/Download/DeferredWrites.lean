import DepotDownloader.Foundation.BackgroundWrites
import DepotDownloader.SteamClient.Download.FreshFile

/-! # Writes of the staging file in the background

The staging file is a tokio file: a write returns when its bytes are handed over, and a
failure behind it is reported by a later operation on the same handle. The file task
drops the handle before the rename without waiting for it. This module puts such a
handle under the file task and says when a failure gets lost.
-/

namespace DepotDownloader.SteamClient

open Foundation Foundation.LexPath Steam

/-- The file task with its handle: whether a failure waits to be reported, and how the
writes in the background ended (`true` for a failure), the last one first. -/
structure DeferredConfig where
  world : World
  state : FileState
  unreported : Bool
  results : List Bool

def DeferredConfig.initial (disk : Disk) : DeferredConfig := ⟨⟨disk, []⟩, .initial, false, []⟩

/-- A move with the faults of the writes that it hands over, buffer by buffer. -/
structure DeferredMove where
  actor : FileActor
  fault : Option Nat
  writeFaults : Nat → Option Nat

namespace FileContext

variable (ctx : FileContext) (maxBufSize : Nat)

/-- The write that a move would make: the shared file, the position and the bytes. -/
def writing (world : World) (state : FileState) : FileActor → Option (SharedFile × Nat × Bytes)
  | .main =>
      match state.stage, state.file with
      | .copyChunks oldIno index, some file => do
          let chunk ← ctx.task.chunks[index]?
          let old ← chunk.id.bind ctx.oldMatch
          let oldOffset ← old.offset
          let newOffset ← chunk.offset
          let size ← chunk.uncompressedSize
          let buffer ← ctx.readOld (world.disk.data oldIno) index oldOffset size
          return (file, newOffset, buffer)
      | _, _ => none
  | .chunk position =>
      match state.chunkTasks[position]?, state.file with
      | some chunkTask, some file =>
          match chunkTask.stage with
          | .write data => some (file, file.cursor, data)
          | _ => none
      | _, _ => none

/-- Hand the bytes over in buffers of the size that tokio takes at once. -/
def handOver (config : DeferredConfig) (file : SharedFile) (offset : Nat) (data : Bytes)
    (writeFaults : Nat → Option Nat) : BackgroundFile × Bool :=
  BackgroundFile.writeAll
    ⟨config.world.disk.data file.ino, offset, config.unreported, config.results⟩
    ((data.buffers maxBufSize).mapIdx fun index buffer => (buffer, writeFaults index))

/-- A move over the handle. A move that writes goes on as the handle returns, whatever
becomes of the bytes; a fault of its own comes before anything is handed over. -/
def deferredStep (config : DeferredConfig) (move : DeferredMove) : Option DeferredConfig :=
  match ctx.writing config.world config.state move.actor, move.fault with
  | some (file, offset, data), none =>
      let (after, ok) := handOver maxBufSize config file offset data move.writeFaults
      (ctx.step (config.world, config.state)
          ⟨move.actor, if ok then none else some 0⟩).map fun next =>
        { world := next.1.withDisk (config.world.disk.store file.ino after.data)
          state := next.2
          unreported := after.unreported
          results := after.results }
  | some _, some _ =>
      (ctx.step (config.world, config.state) ⟨move.actor, some 0⟩).map fun next =>
        { config with world := next.1, state := next.2 }
  | none, fault =>
      (ctx.step (config.world, config.state) ⟨move.actor, fault⟩).map fun next =>
        { config with world := next.1, state := next.2 }

def deferredMachine : Machine DeferredConfig DeferredMove := ⟨ctx.deferredStep maxBufSize⟩

/-- No failure is swallowed: once a write has failed the task does not return Ok, and
nothing has been moved onto the final path. -/
def NothingSwallowed (config : DeferredConfig) : Prop :=
  true ∈ config.results →
    (∀ outcome, config.state.stage = .done outcome → ∃ error, outcome = .error error) ∧
      .rename ctx.stagingPath ctx.task.path ∉ config.world.log

/-- The move puts the staging file onto the final path. -/
def Replaces (config : DeferredConfig) (move : DeferredMove) : Prop :=
  config.state.stage = .rename ∧
    ∃ next, ctx.deferredStep maxBufSize config move = some next ∧
      next.state.stage = .done (.ok ())

/-- Before the final path is replaced, the last write to the staging file has not failed. -/
def LastWriteReached (config : DeferredConfig) (move : DeferredMove) : Prop :=
  ctx.Replaces maxBufSize config move → config.results.head? ≠ some true

/-- The task or one of its chunk tasks has ended with an error. -/
def Erred (state : FileState) : Prop :=
  (∃ error, state.stage = .done (.error error)) ∨
    ∃ chunkTask ∈ state.chunkTasks, ∃ error, chunkTask.stage = .done (.error error)

variable {ctx} {world world' : World} {state state' : FileState}

theorem chunkStep_running {position : Nat} {fault : Option Nat}
    (hstep : ctx.ChunkStep world state position fault world' state') :
    ∃ chunkTask stage, state.chunkTasks[position]? = some chunkTask ∧
      (∀ outcome, chunkTask.stage ≠ .done outcome) ∧
      state'.chunkTasks = state.chunkTasks.set position { chunkTask with stage := stage } ∧
      state'.stage = state.stage := by
  cases hstep with
  | fetch htask hstage | accepted htask hstage | unplaced htask hstage | locked htask _ hstage
  | sought htask _ hstage | seekFault htask _ hstage | wrote htask _ hstage
  | writeFault htask _ hstage | noAttempt htask hstage | rejected htask hstage =>
      exact ⟨_, _, htask, by simp [hstage], rfl, rfl⟩

/-- An error stays. -/
theorem erred_step {move : FileMove} (herred : Erred state)
    (hstep : ctx.step (world, state) move = some (world', state')) : Erred state' := by
  rcases herred with ⟨error, hdone⟩ | ⟨chunkTask, hmem, error, hdone⟩
  · exact .inl ⟨error, stage_of_done hdone hstep⟩
  · right
    rcases step_cases hstep with hmain | ⟨position, hchunk⟩
    · cases hmain with
      | chunkSpawned => exact ⟨chunkTask, List.mem_append_left _ hmem, error, hdone⟩
      | _ => exact ⟨chunkTask, hmem, error, hdone⟩
    · obtain ⟨other, stage, hother, hrunning, htasks, _⟩ := chunkStep_running hchunk
      obtain ⟨index, hindex⟩ := List.mem_iff_getElem?.mp hmem
      have hne : position ≠ index := by
        rintro rfl
        obtain rfl := Option.some.inj (hother.symm.trans hindex)
        exact hrunning _ hdone
      refine ⟨chunkTask, ?_, error, hdone⟩
      rw [htasks]
      exact List.mem_of_getElem? ((List.getElem?_set_ne hne).trans hindex)

/-- What a move that writes does. It fails when its write fails. -/
structure Wrote (file : SharedFile) (offset : Nat) (data : Bytes) (fault : Option Nat)
    (world : World) (state : FileState) (world' : World) (state' : FileState) : Prop where
  disk : ∃ bytes, world'.disk = world.disk.store file.ino bytes ∧
    (fault = none → bytes = Bytes.writeAt (world.disk.data file.ino) offset data)
  opened : state'.file.isSome
  unrenamed : .rename ctx.stagingPath ctx.task.path ∈ world'.log →
    .rename ctx.stagingPath ctx.task.path ∈ world.log
  running : state'.stage = .done (.ok ()) → state.stage = .done (.ok ())
  erred : fault.isSome → Erred state'

theorem mainStep_writing {fault : Option Nat} {file : SharedFile} {offset : Nat} {data : Bytes}
    (hwriting : ctx.writing world state .main = some (file, offset, data))
    (hstep : ctx.mainStep world state fault = some (world', state')) :
    ctx.Wrote file offset data fault world state world' state' := by
  simp only [writing] at hwriting
  split at hwriting
  next oldIno index shared hstage hfile =>
    simp only [Option.bind_eq_bind, Option.bind_eq_some_iff, Option.pure_def,
      Option.some.injEq] at hwriting
    obtain ⟨chunk, hchunk, old, hold, oldOffset, holdOffset, newOffset, hnewOffset, size, hsize,
      buffer, hread, heq⟩ := hwriting
    cases heq
    have hmatch : chunk.id.bind ctx.oldMatch = some old := Option.bind_eq_some_iff.mpr hold
    simp only [mainStep, hstage, hchunk, hfile, copyChunk, hmatch, holdOffset, hnewOffset, hsize,
      hread] at hstep
    cases fault with
    | none =>
        cases hstep
        exact ⟨⟨_, rfl, fun _ => rfl⟩, rfl, id, by simp, by simp⟩
    | some count =>
        cases hstep
        exact ⟨⟨_, rfl, fun hnone => by cases hnone⟩, rfl, id, by simp, fun _ => .inl ⟨.io, rfl⟩⟩
  next => cases hwriting

theorem chunkStep_writing {position : Nat} {fault : Option Nat} {file : SharedFile}
    {offset : Nat} {data : Bytes}
    (hwriting : ctx.writing world state (.chunk position) = some (file, offset, data))
    (hstep : ctx.chunkStep world state position fault = some (world', state')) :
    ctx.Wrote file offset data fault world state world' state' := by
  simp only [writing] at hwriting
  split at hwriting
  next chunkTask shared htask hfile =>
    split at hwriting
    next hstage =>
      cases hwriting
      simp only [chunkStep, htask, hfile, hstage] at hstep
      cases fault with
      | none =>
          cases hstep
          exact ⟨⟨_, rfl, fun _ => rfl⟩, rfl, by simp [writeChunk, World.emit, World.withDisk], id,
            by simp⟩
      | some count =>
          cases hstep
          have hlt := (List.getElem?_eq_some_iff.mp htask).1
          have hset : { chunkTask with stage := ChunkStage.done (.error .io) } ∈
              state.chunkTasks.set position { chunkTask with stage := .done (.error .io) } :=
            List.mem_set hlt _
          exact ⟨⟨_, rfl, fun hnone => by cases hnone⟩, rfl, id, id,
            fun _ => .inr ⟨_, hset, .io, rfl⟩⟩
    next => cases hwriting
  next => cases hwriting

theorem step_writing {actor : FileActor} {fault : Option Nat} {file : SharedFile} {offset : Nat}
    {data : Bytes} (hwriting : ctx.writing world state actor = some (file, offset, data))
    (hstep : ctx.step (world, state) ⟨actor, fault⟩ = some (world', state')) :
    ctx.Wrote file offset data fault world state world' state' := by
  cases actor with
  | main => exact mainStep_writing hwriting hstep
  | chunk position => exact chunkStep_writing hwriting hstep

/-- An open staging file stays open. -/
theorem file_none_of_step {move : FileMove} (hclosed : state'.file = none)
    (hstep : ctx.step (world, state) move = some (world', state')) : state.file = none := by
  rcases step_cases hstep with hmain | ⟨position, hchunk⟩
  · cases hmain with
    | resumed | created | copied | copyFault => cases hclosed
    | _ => exact hclosed
  · cases hchunk with
    | locked | sought | seekFault | wrote | writeFault => cases hclosed
    | _ => exact hclosed

/-- The rename is what ends the task with Ok, unless its final file is valid already. -/
theorem step_renamed {move : FileMove}
    (hstep : ctx.step (world, state) move = some (world', state'))
    (hlog : .rename ctx.stagingPath ctx.task.path ∈ world'.log) :
    .rename ctx.stagingPath ctx.task.path ∈ world.log ∨ state'.stage = .done (.ok ()) := by
  rcases step_cases hstep with hmain | ⟨position, hchunk⟩
  · cases hmain with
    | renamed => exact .inr rfl
    | stagingDir | finalDir | resumed | created =>
        exact .inl (by simpa [World.emit, World.withDisk] using hlog)
    | _ => exact .inl hlog
  · cases hchunk with
    | fetch | unplaced | wrote =>
        exact .inl (by simpa [World.emit, World.withDisk, writeChunk] using hlog)
    | _ => exact .inl hlog

/-- What holds of the file task and its handle after every run. -/
structure DeferredShape (ctx : FileContext) (config : DeferredConfig) : Prop where
  shape : ctx.FileShape config.world.disk config.state
  consistent : config.unreported = true → config.results.head? = some true
  reported : true ∈ config.results → config.unreported = true ∨ Erred config.state
  early : config.state.file = none → config.results = []
  renamed : .rename ctx.stagingPath ctx.task.path ∈ config.world.log →
    config.state.stage = .done (.ok ())

theorem DeferredShape.initial (disk : Disk) : ctx.DeferredShape (.initial disk) where
  shape := .initial
  consistent hunreported := by cases hunreported
  reported hfailed := by cases hfailed
  early _ := rfl
  renamed hmem := by cases hmem

/-- A move that writes nothing leaves what the handle records alone. -/
theorem DeferredShape.other {config : DeferredConfig} (hshape : ctx.DeferredShape config)
    {move : FileMove} (hstep : ctx.step (config.world, config.state) move = some (world', state')) :
    ctx.DeferredShape { config with world := world', state := state' } where
  shape := hshape.shape.step hstep
  consistent := hshape.consistent
  reported hfailed := (hshape.reported hfailed).imp_right fun herred => erred_step herred hstep
  early hclosed := hshape.early (file_none_of_step hclosed hstep)
  renamed hmem := by
    rcases step_renamed hstep hmem with hbefore | hdone
    · exact stage_of_done (hshape.renamed hbefore) hstep
    · exact hdone

/-- A move that writes through the handle. -/
theorem DeferredShape.handOver {config : DeferredConfig} (hshape : ctx.DeferredShape config)
    {actor : FileActor} {file : SharedFile} {offset : Nat} {data : Bytes}
    {writeFaults : Nat → Option Nat} {maxBufSize : Nat} {after : BackgroundFile} {ok : Bool}
    (hwriting : ctx.writing config.world config.state actor = some (file, offset, data))
    (hwrite : handOver maxBufSize config file offset data writeFaults = (after, ok))
    (hstep : ctx.step (config.world, config.state) ⟨actor, if ok then none else some 0⟩ =
      some (world', state')) :
    ctx.DeferredShape
      ⟨world'.withDisk (config.world.disk.store file.ino after.data), state', after.unreported,
        after.results⟩ := by
  have hwrote := step_writing hwriting hstep
  constructor
  · obtain ⟨bytes, hdisk, _⟩ := hwrote.disk
    refine (hshape.shape.step hstep).of_link_eq ?_
    rw [hdisk]
    rfl
  · have hconsistent : BackgroundFile.Consistent
        ⟨config.world.disk.data file.ino, offset, config.unreported, config.results⟩ :=
      hshape.consistent
    exact hconsistent.writeAll hwrite
  · intro hfailed
    cases ok with
    | true =>
        rcases BackgroundFile.writeAll_failed hwrite hfailed with hwaits | ⟨hbefore, hnone⟩
        · exact .inl hwaits
        · right
          refine erred_step ((hshape.reported hbefore).resolve_left ?_) hstep
          simpa using hnone
    | false => exact .inr (hwrote.erred rfl)
  · intro hclosed
    have hopened := hwrote.opened
    simp only at hclosed
    rw [hclosed] at hopened
    cases hopened
  · intro hmem
    exact stage_of_done (hshape.renamed (hwrote.unrenamed hmem)) hstep

variable {maxBufSize : Nat} {config next : DeferredConfig} {move : DeferredMove}

/-- A move writes through the handle, or it is a move of the task and the handle is left
alone. -/
theorem deferredStep_cases (hstep : ctx.deferredStep maxBufSize config move = some next) :
    (∃ file offset data after ok, move.fault = none ∧
      ctx.writing config.world config.state move.actor = some (file, offset, data) ∧
      handOver maxBufSize config file offset data move.writeFaults = (after, ok) ∧
      ∃ world' state', ctx.step (config.world, config.state)
          ⟨move.actor, if ok then none else some 0⟩ = some (world', state') ∧
        next = ⟨world'.withDisk (config.world.disk.store file.ino after.data), state',
          after.unreported, after.results⟩) ∨
    (∃ fault world' state', (ctx.writing config.world config.state move.actor = none ∧
          fault = move.fault ∨
        (ctx.writing config.world config.state move.actor).isSome ∧ fault = some 0) ∧
      ctx.step (config.world, config.state) ⟨move.actor, fault⟩ = some (world', state') ∧
      next = { config with world := world', state := state' }) := by
  unfold deferredStep at hstep
  split at hstep
  next file offset data hwriting hfault =>
    left
    simp only at hstep
    obtain ⟨⟨world', state'⟩, hnext, rfl⟩ := Option.map_eq_some_iff.mp hstep
    exact ⟨file, offset, data, _, _, hfault, hwriting, rfl, world', state', hnext, rfl⟩
  next written count hwriting hfault =>
    right
    obtain ⟨⟨world', state'⟩, hnext, rfl⟩ := Option.map_eq_some_iff.mp hstep
    exact ⟨some 0, world', state', .inr ⟨by rw [hwriting]; rfl, rfl⟩, hnext, rfl⟩
  next hwriting =>
    right
    obtain ⟨⟨world', state'⟩, hnext, rfl⟩ := Option.map_eq_some_iff.mp hstep
    exact ⟨move.fault, world', state', .inl ⟨hwriting, rfl⟩, hnext, rfl⟩

theorem DeferredShape.step (hshape : ctx.DeferredShape config)
    (hstep : ctx.deferredStep maxBufSize config move = some next) : ctx.DeferredShape next := by
  rcases deferredStep_cases hstep with ⟨file, offset, data, after, ok, _, hwriting, hwrite,
    world', state', hnext, rfl⟩ | ⟨fault, world', state', _, hnext, rfl⟩
  · exact hshape.handOver hwriting hwrite hnext
  · exact hshape.other hnext

theorem step_done_ok {move : FileMove} (hshape : ctx.FileShape world.disk state)
    (hdone : state.stage = .done (.ok ())) : ctx.step (world, state) move = none := by
  cases hstep : ctx.step (world, state) move with
  | none => rfl
  | some next =>
      unfold FileContext.step at hstep
      split at hstep
      next => simp [mainStep, hdone] at hstep
      next position _ =>
        obtain ⟨chunkTask, _, htask, hrunning, _⟩ := chunkStep_running (chunkStep_cases hstep)
        exact absurd (hshape.complete (.inr hdone) _ (List.mem_of_getElem? htask)) (hrunning _)

/-- A task that has returned Ok makes no more moves. -/
theorem DeferredShape.stuck (hshape : ctx.DeferredShape config)
    (hdone : config.state.stage = .done (.ok ())) :
    ctx.deferredStep maxBufSize config move = none := by
  cases hstep : ctx.deferredStep maxBufSize config move with
  | none => rfl
  | some next =>
      rcases deferredStep_cases hstep with ⟨_, _, _, _, _, _, _, _, _, _, hnext, _⟩ |
        ⟨_, _, _, _, hnext, _⟩
      · rw [step_done_ok hshape.shape hdone] at hnext
        cases hnext
      · rw [step_done_ok hshape.shape hdone] at hnext
        cases hnext

/-- The task returns Ok with no failed write behind it, if the last write before a rename
has not failed. -/
theorem DeferredShape.unfailed (hshape : ctx.DeferredShape config)
    (hreached : ctx.LastWriteReached maxBufSize config move)
    (hstep : ctx.deferredStep maxBufSize config move = some next)
    (hdone : next.state.stage = .done (.ok ())) : true ∉ next.results := by
  have hrunning : config.state.stage ≠ .done (.ok ()) := by
    intro hbefore
    rw [hshape.stuck hbefore] at hstep
    cases hstep
  rcases deferredStep_cases hstep with ⟨file, offset, data, after, ok, _, hwriting, _, world',
    state', hnext, rfl⟩ | ⟨fault, world', state', _, hnext, rfl⟩
  · exact absurd ((step_writing hwriting hnext).running hdone) hrunning
  · rcases step_cases hnext with hmain | ⟨position, hchunk⟩
    · cases hmain with
      | finalValid hstage =>
          have hclosed := hshape.shape.unopened (by rw [hstage]; decide)
          simp [hshape.early hclosed]
      | renamed hstage =>
          intro hfailed
          apply hreached ⟨hstage, _, hstep, hdone⟩
          apply hshape.consistent
          refine (hshape.reported hfailed).resolve_right ?_
          rintro (⟨error, herror⟩ | ⟨chunkTask, hmem, error, herror⟩)
          · rw [hstage] at herror
            cases herror
          · rw [hshape.shape.complete (.inl hstage) chunkTask hmem] at herror
            cases herror
      | _ => cases hdone
    · obtain ⟨_, _, _, _, _, hsame⟩ := chunkStep_running hchunk
      exact absurd (hsame ▸ hdone) hrunning

/-- Without failures in the background the moves are those of the file task alone. -/
theorem deferredStep_faultless (hfaultless : ∀ index, move.writeFaults index = none)
    (hwaiting : config.unreported = false)
    (hfault : ctx.writing config.world config.state move.actor = none ∨ move.fault = none) :
    (ctx.deferredStep maxBufSize config move).map (fun next => (next.world, next.state)) =
      ctx.step (config.world, config.state) ⟨move.actor, move.fault⟩ := by
  unfold deferredStep
  split
  next file offset data hwriting hnone =>
    have hpieces : ∀ part ∈ (data.buffers maxBufSize).mapIdx fun index buffer =>
        (buffer, move.writeFaults index), part.2 = none := by
      intro part hmem
      obtain ⟨index, _, rfl⟩ := List.mem_mapIdx.mp hmem
      exact hfaultless index
    have hflat : (((data.buffers maxBufSize).mapIdx fun index buffer =>
        (buffer, move.writeFaults index)).map Prod.fst).flatten = data := by
      have hbuffers : ((data.buffers maxBufSize).mapIdx fun index buffer =>
          (buffer, move.writeFaults index)).map Prod.fst = data.buffers maxBufSize :=
        List.ext_getElem (by simp) (by simp)
      rw [hbuffers, Bytes.flatten_buffers]
    obtain ⟨hok, -, hdata⟩ := @BackgroundFile.writeAll_faultless
      ⟨config.world.disk.data file.ino, offset, config.unreported, config.results⟩ _
      hwaiting hpieces
    rw [hflat] at hdata
    simp only [handOver, hok, hdata, if_true, Option.map_map]
    cases hstep : ctx.step (config.world, config.state) ⟨move.actor, none⟩ with
    | none => rw [hnone, hstep, Option.map_none]
    | some next =>
        obtain ⟨bytes, hdisk, hbytes⟩ := (step_writing hwriting hstep).disk
        rw [hbytes rfl] at hdisk
        rw [hnone, hstep, Option.map_some, Function.comp_apply, ← hdisk]
        rfl
  next hwriting hsome =>
    rcases hfault with hfault | hfault
    · rw [hwriting] at hfault
      cases hfault
    · rw [hsome] at hfault
      cases hfault
  next =>
    rw [Option.map_map]
    exact congrFun Option.map_id _

/-- Every state of a run in which the last write before a rename has not failed. -/
structure Unswallowed (ctx : FileContext) (config : DeferredConfig) : Prop where
  shape : ctx.DeferredShape config
  sound : config.state.stage = .done (.ok ()) → true ∉ config.results

theorem Unswallowed.nothingSwallowed (hsound : ctx.Unswallowed config) :
    ctx.NothingSwallowed config := by
  intro hfailed
  have hrunning : config.state.stage ≠ .done (.ok ()) := fun hdone => hsound.sound hdone hfailed
  constructor
  · rintro (error | ⟨⟨⟩⟩) hdone
    · exact ⟨error, rfl⟩
    · exact absurd hdone hrunning
  · intro hmem
    exact hrunning (hsound.shape.renamed hmem)

/-- In a run that swallows nothing every rename comes after a write that has not failed:
behind the rename of a failed one the task has ended and says Ok. -/
theorem DeferredShape.lastWriteReached {moves : List DeferredMove} {final : DeferredConfig}
    (hshape : ctx.DeferredShape config)
    (hrun : (ctx.deferredMachine maxBufSize).run config moves = some final)
    (hnothing : ctx.NothingSwallowed final) :
    (ctx.deferredMachine maxBufSize).RunWhere (ctx.LastWriteReached maxBufSize) config moves
      final := by
  induction moves generalizing config with
  | nil => exact Option.some.inj hrun
  | cons move rest ih =>
      obtain ⟨middle, hstep, hrest⟩ := (Machine.run_cons_eq_some _).mp hrun
      have hmiddle : ctx.DeferredShape middle := hshape.step hstep
      refine ⟨?_, middle, hstep, ih hmiddle hrest⟩
      rintro ⟨hstage, next, hnext, hdone⟩ hlast
      obtain rfl : next = middle := Option.some.inj (hnext.symm.trans hstep)
      have hfinal : final = next := by
        cases rest with
        | nil => exact (Option.some.inj hrest).symm
        | cons move rest =>
            obtain ⟨_, hstuck, _⟩ := (Machine.run_cons_eq_some _).mp hrest
            cases (hmiddle.stuck hdone).symm.trans hstuck
      have hsame : next.results = config.results := by
        rcases deferredStep_cases hnext with ⟨file, offset, data, after, ok, _, hwriting, _,
          world', state', hmoved, rfl⟩ | ⟨fault, world', state', _, _, rfl⟩
        · have hdone' := (step_writing hwriting hmoved).running hdone
          rw [hstage] at hdone'
          cases hdone'
        · rfl
      subst hfinal
      obtain ⟨herror, _⟩ := hnothing (hsame ▸ List.mem_of_mem_head? hlast)
      obtain ⟨error, hok⟩ := herror _ hdone
      cases hok

/-- No failed write is swallowed, in any order of the writes and whichever of them fail in
the background, exactly when no rename comes after a last write that has failed. -/
theorem nothingSwallowed_iff (ctx : FileContext) (maxBufSize : Nat) {disk : Disk}
    {moves : List DeferredMove} {final : DeferredConfig}
    (hrun : (ctx.deferredMachine maxBufSize).run (.initial disk) moves = some final) :
    ctx.NothingSwallowed final ↔
      (ctx.deferredMachine maxBufSize).RunWhere (ctx.LastWriteReached maxBufSize)
        (.initial disk) moves final := by
  constructor
  · exact DeferredShape.lastWriteReached (.initial disk) hrun
  · intro hreached
    have hstep : ∀ config move next, ctx.Unswallowed config →
        ctx.LastWriteReached maxBufSize config move →
          (ctx.deferredMachine maxBufSize).step config move = some next →
            ctx.Unswallowed next := fun _ _ _ hsound hlast hnext =>
      ⟨hsound.shape.step hnext, hsound.shape.unfailed hlast hnext⟩
    have hinitial : ctx.Unswallowed (.initial disk) := ⟨.initial disk, fun hdone => by cases hdone⟩
    exact (Machine.RunWhere.invariant _ hstep hinitial hreached).nothingSwallowed

/-- A download of the file with two chunks up to its error: the write of the second chunk
fails in the background. -/
def pairFailingMoves : List DeferredMove :=
  (pairMoves.take 23).map fun move =>
    ⟨move.actor, none, fun _ => if move.actor = .chunk 1 then some 0 else none⟩

/-- The chunk task that writes next reports the failure, and the download ends with it. -/
theorem nothingSwallowed_iff_sample :
    ∃ final, (pairFile.deferredMachine 2097152).run (.initial .empty) pairFailingMoves =
        some final ∧
      final.results = [true] ∧ final.state.stage = .done (.error .io) ∧
      (pairFile.deferredMachine 2097152).RunWhere (pairFile.LastWriteReached 2097152)
        (.initial .empty) pairFailingMoves final := by
  have hany : ((pairFile.deferredMachine 2097152).run (.initial .empty) pairFailingMoves).any
      (fun final => final.results == [true] && final.state.stage == .done (.error .io)) = true := by
    decide +kernel
  obtain ⟨final, hrun, hboth⟩ := Machine.exists_of_run_any _ hany
  rw [Bool.and_eq_true, beq_iff_eq, beq_iff_eq] at hboth
  obtain ⟨hresults, hstage⟩ := hboth
  have hshape : pairFile.DeferredShape final :=
    Machine.run_invariant _ (fun _ _ _ hshape (_ : True) hstep => hshape.step hstep)
      (fun _ _ => trivial) (.initial .empty) hrun
  refine ⟨final, hrun, hresults, hstage, (nothingSwallowed_iff pairFile 2097152 hrun).mp ?_⟩
  refine fun _ => ⟨fun outcome hdone => ⟨.io, ?_⟩, fun hrenamed => ?_⟩
  · rw [hstage] at hdone
    exact (FileStage.done.inj hdone).symm
  · have hok := hshape.renamed hrenamed
    rw [hstage] at hok
    cases hok

/-- A download of the sample file whose writes in the background all end in the same way. -/
def sampleMoves (writeFault : Option Nat) : List DeferredMove :=
  let actors : List FileActor :=
    List.replicate 9 .main ++ List.replicate 6 (.chunk 0) ++ List.replicate 3 .main
  actors.map fun actor => ⟨actor, none, fun _ => writeFault⟩

/-- The only write fails behind the task, which renames the file of zero bytes and
returns Ok. -/
theorem last_failure_swallowed :
    ∃ final, (sampleFile.deferredMachine 2097152).run (.initial .empty) (sampleMoves (some 0)) =
        some final ∧ ¬ sampleFile.NothingSwallowed final := by
  have hany : ((sampleFile.deferredMachine 2097152).run (.initial .empty)
      (sampleMoves (some 0))).any (fun final =>
        final.results == [true] && final.state.stage == .done (.ok ())) = true := by decide
  obtain ⟨final, hrun, hfinal⟩ := Machine.exists_of_run_any _ hany
  simp only [Bool.and_eq_true, beq_iff_eq] at hfinal
  refine ⟨final, hrun, fun hnothing => ?_⟩
  obtain ⟨herror, _⟩ := hnothing (by simp [hfinal.1])
  obtain ⟨error, hok⟩ := herror _ hfinal.2
  cases hok

end FileContext

end DepotDownloader.SteamClient
