import DepotDownloader.SteamClient.Download.WriteHistory

/-! # Every order of the writes is possible

When the fetcher delivers every chunk, the scheduler is free to let the chunk
tasks write in any order: it holds each of them back at the lock until its turn.
So a property of the file that a fresh download leaves holds of every run only
when it holds of every order of the writes.
-/

namespace DepotDownloader.SteamClient

open Foundation Foundation.LexPath Steam

namespace FileContext

variable (ctx : FileContext)

/-- The chunk indices that a fresh download writes. -/
def writeQueue : List Nat := (ctx.queue [] ctx.task.chunks.length).filter ctx.placed

/-- Some chunk that a fresh download fetches is not delivered. -/
def Undelivered : Prop := ∃ index ∈ ctx.queue [] ctx.task.chunks.length, ctx.delivered index = none

/-- A run without failures that has made some writes and is to make others. Only
the task whose turn is next holds the file. -/
structure Guided (start : Disk) (written rest : List Nat) (config : FileConfig) : Prop where
  shape : ctx.FileShape config.1.disk config.2
  healthy : config.2.Healthy
  unfailed : ∀ error, config.2.stage ≠ .done (.error error)
  history : ctx.History start written config.1.disk config.2
  turn : ∀ (position : Nat) (chunkTask : ChunkTask),
    config.2.chunkTasks[position]? = some chunkTask → chunkTask.stage.holding = true →
      rest.head? = some chunkTask.index

variable {ctx} {start : Disk} {order written rest : List Nat} {position : Nat}
  {chunkTask : ChunkTask} {world world' : World} {state state' : FileState}

/-- Without faults a chunk task whose chunk is delivered does not fail, takes the
file only by the lock and gives it back with the write. -/
theorem ChunkStep.sure (hstep : ctx.ChunkStep world state position none world' state')
    (htrack : ∀ chunkTask, state.chunkTasks[position]? = some chunkTask →
      ctx.OnTrack chunkTask ∧ (ctx.delivered chunkTask.index).isSome) :
    ∃ chunkTask stage, state.chunkTasks[position]? = some chunkTask ∧
      state'.chunkTasks = (state.advance position chunkTask stage).chunkTasks ∧
      (∀ error, stage ≠ .done (.error error)) ∧
      (stage.holding = true →
        (∃ offset data, chunkTask.stage = .lock offset data) ∨ chunkTask.stage.holding = true) ∧
      (∀ data, chunkTask.stage = .write data → stage.holding = false) := by
  cases hstep with
  | @fetch chunkTask attempt htask hstage hattempt =>
      obtain ⟨honTrack, hdelivered⟩ := htrack chunkTask htask
      have hsound := honTrack.fetched_ne_error hstage hattempt hdelivered
      refine ⟨chunkTask, _, htask, rfl, hsound, ?_⟩
      rcases ctx.fetched_cases chunkTask attempt with ⟨_, heq⟩ | heq | ⟨error, heq⟩
      · rw [heq]
        exact ⟨by simp [ChunkStage.holding], by simp [hstage]⟩
      · rw [heq]
        exact ⟨by simp [ChunkStage.holding], by simp [hstage]⟩
      · exact absurd heq (hsound error)
  | noAttempt htask hstage hattempt =>
      obtain ⟨honTrack, hdelivered⟩ := htrack _ htask
      simp only [OnTrack, hstage, Nat.sub_eq_zero_of_le hattempt, retried] at honTrack
      rw [honTrack] at hdelivered
      cases hdelivered
  | rejected htask hstage hprocessed =>
      obtain ⟨honTrack, hdelivered⟩ := htrack _ htask
      simp only [OnTrack, hstage, hprocessed] at honTrack
      rw [honTrack] at hdelivered
      cases hdelivered
  | seekFault _ _ _ hfault => cases hfault
  | writeFault _ _ _ hfault => cases hfault
  | accepted htask hstage | unplaced htask hstage =>
      exact ⟨_, _, htask, rfl, by simp, by simp [ChunkStage.holding], by simp [hstage]⟩
  | locked htask _ hstage =>
      exact ⟨_, _, htask, rfl, by simp, fun _ => .inl ⟨_, _, hstage⟩, by simp [hstage]⟩
  | sought htask _ hstage =>
      exact ⟨_, _, htask, rfl, by simp, fun _ => .inr (by rw [hstage]; rfl), by simp [hstage]⟩
  | wrote htask _ hstage =>
      exact ⟨_, _, htask, rfl, by simp, by simp [ChunkStage.holding], by simp [ChunkStage.holding]⟩

theorem Guided.delivered (hguided : ctx.Guided start written rest (world, state))
    (hdelivered : ∀ index ∈ ctx.queue [] ctx.task.chunks.length, (ctx.delivered index).isSome)
    (hmem : chunkTask ∈ state.chunkTasks) : (ctx.delivered chunkTask.index).isSome := by
  have hshape := hguided.shape.tasks chunkTask hmem
  exact hdelivered _ (mem_queue.mpr
    ⟨chunkTask.chunk, chunkTask.chunkId, hshape.indexed, hshape.named, by simp⟩)

/-- A task at its turn, or one that does not take the file, goes on. -/
theorem Guided.chunkStep (hguided : ctx.Guided start written rest (world, state))
    (hdelivered : ∀ index ∈ ctx.queue [] ctx.task.chunks.length, (ctx.delivered index).isSome)
    (htrack : ∀ chunkTask ∈ state.chunkTasks, ctx.OnTrack chunkTask)
    (hturn : ∀ (chunkTask : ChunkTask) (offset : Nat) (data : Bytes),
      state.chunkTasks[position]? = some chunkTask → chunkTask.stage = .lock offset data →
        rest.head? = some chunkTask.index)
    (hstep : ctx.ChunkStep world state position none world' state') :
    ∃ written' rest', written' ++ rest' = written ++ rest ∧
      ctx.Guided start written' rest' (world', state') := by
  have hshape := hguided.shape
  have hshape' : ctx.FileShape world'.disk state' := hshape.chunkStep hstep
  obtain ⟨chunkTask, stage, htask, htasks, hsound, htakes, hgives⟩ := hstep.sure
    fun chunkTask htask =>
      have hmem := List.mem_of_getElem? htask
      ⟨htrack _ hmem, hguided.delivered hdelivered hmem⟩
  have hhealthy : state'.Healthy := by
    intro other hmem error
    rw [htasks] at hmem
    rcases FileState.mem_advance hmem with rfl | hold
    · exact hsound error
    · exact hguided.healthy other hold error
  have hunfailed : ∀ error, state'.stage ≠ .done (.error error) := by
    intro error
    rw [(chunkStep_pending hstep).1]
    exact hguided.unfailed error
  obtain ⟨written', hhistory', hextends⟩ := hguided.history.chunkStep hshape hstep
  rcases hextends with rfl | ⟨writer, data, hwriter, hwrite, rfl⟩
  · refine ⟨written', rest, rfl, hshape', hhealthy, hunfailed, hhistory', ?_⟩
    intro other otherTask hget hholds
    rw [htasks] at hget
    rcases FileState.getElem?_advance hget with ⟨_, rfl⟩ | ⟨_, hold⟩
    · rcases htakes hholds with ⟨offset, data, hlock⟩ | hheld
      · exact hturn chunkTask offset data htask hlock
      · exact hguided.turn position chunkTask htask hheld
    · exact hguided.turn other otherTask hold hholds
  · -- the writer held the file, so nobody holds it now
    rw [htask, Option.some.injEq] at hwriter
    subst hwriter
    have hholding : chunkTask.stage.holding = true := by rw [hwrite]; rfl
    have hhead := hguided.turn position chunkTask htask hholding
    refine ⟨written ++ [chunkTask.index], rest.tail, ?_, hshape', hhealthy, hunfailed,
      hhistory', ?_⟩
    · rw [List.append_assoc, List.singleton_append, List.cons_head?_tail hhead]
    · intro other otherTask hget hholds
      rw [htasks] at hget
      rcases FileState.getElem?_advance hget with ⟨_, rfl⟩ | ⟨hne, hold⟩
      · have hfree : stage.holding = true := hholds
        rw [hgives data hwrite] at hfree
        cases hfree
      · obtain ⟨file, hfile⟩ := Option.isSome_iff_exists.mp
          (hshape.shared (List.ne_nil_of_mem (List.mem_of_getElem? htask)))
        have hself := hshape.held file position chunkTask hfile htask hholding
        have hother := hshape.held file other otherTask hfile hold hholds
        rw [hself, Option.some.injEq] at hother
        exact absurd hother.symm hne

/-- Without faults and without a staging file to resume the file task does not
fail. -/
theorem Guided.unfailed_mainStep (hguided : ctx.Guided start written rest (world, state))
    (hstaging : start.read ctx.stagingPlace = none)
    (hstep : ctx.MainStep world state none world' state') (error : DownloadError) :
    state'.stage ≠ .done (.error error) := by
  have hresumable : ctx.resumable (start.read ctx.stagingPlace) = none := by
    rw [hstaging, resumable_none]
  have hhistory := hguided.history
  unfold History at hhistory
  simp only at hhistory
  refine hstep.unfailed hguided.healthy ?_ ?_ error
  · intro hstage
    rw [hstage] at hhistory
    have hresuming := hhistory.2.2
    rw [hresumable] at hresuming
    cases hresuming
  · intro hstage
    rw [hstage] at hhistory
    rcases hhistory with ⟨⟨data, hdata, _⟩, _⟩ | ⟨_, hstaged⟩
    · rw [hresumable] at hdata
      cases hdata
    · exact ⟨_, hstaged hguided.healthy⟩

theorem Guided.mainStep (hguided : ctx.Guided start written rest (world, state))
    (hnone : ctx.task.oldChunks = none) (hstaging : start.read ctx.stagingPlace = none)
    (hstep : ctx.MainStep world state none world' state') :
    ctx.Guided start written rest (world', state') := by
  refine ⟨hguided.shape.mainStep hstep, hstep.healthy hguided.healthy,
    hguided.unfailed_mainStep hstaging hstep,
    hguided.history.mainStep hnone hguided.shape hstep, ?_⟩
  intro position chunkTask hget hholds
  rcases hstep.chunkTasks with hsame | ⟨spawned, hfetch, hmore⟩
  · exact hguided.turn position chunkTask (hsame ▸ hget) hholds
  · simp only [hmore] at hget
    by_cases hlt : position < state.chunkTasks.length
    · rw [List.getElem?_append_left hlt] at hget
      exact hguided.turn position chunkTask hget hholds
    · have hnew := List.mem_of_getElem? (List.getElem?_append_right (Nat.le_of_not_lt hlt) ▸ hget)
      rw [List.mem_singleton.mp hnew, hfetch] at hholds
      cases hholds

/-- A chunk task that waits for the file has its turn still to come. -/
theorem Guided.waiting (hguided : ctx.Guided start written rest (world, state))
    (hwritten : ctx.Written start written ctx.task.chunks.length state)
    (hstaging : start.read ctx.stagingPlace = none)
    (horder : (written ++ rest).Perm ctx.writeQueue) (hmem : chunkTask ∈ state.chunkTasks)
    {offset : Nat} {data : Bytes} (hlock : chunkTask.stage = .lock offset data) : rest ≠ [] := by
  have hshape := hguided.shape.tasks chunkTask hmem
  have hqueue := hwritten.queue
  rw [hstaging, foundValid_none] at hqueue
  have hindex : chunkTask.index ∈ written ++ rest := by
    refine horder.mem_iff.mpr (List.mem_filter.mpr ⟨?_, ?_⟩)
    · exact hqueue ▸ List.mem_map_of_mem hmem
    · rw [placed_eq_offset hshape, hshape.placed offset (by rw [hlock]; rfl)]
      rfl
  rintro rfl
  rw [List.append_nil, hwritten.mem] at hindex
  obtain ⟨other, hother, hdone⟩ := hindex
  have hsame := hwritten.unique hmem hother hdone.index.symm
  have hstage := hdone.done
  rw [← hsame, hlock] at hstage
  cases hstage

/-- The task whose turn is next has been spawned and has not finished. -/
theorem Guided.next_task {first : Nat} {later : List Nat}
    (hguided : ctx.Guided start written (first :: later) (world, state))
    (hwritten : ctx.Written start written ctx.task.chunks.length state)
    (hstaging : start.read ctx.stagingPlace = none)
    (horder : (written ++ first :: later).Perm ctx.writeQueue) :
    ∃ (position : Nat) (chunkTask : ChunkTask), state.chunkTasks[position]? = some chunkTask ∧
      chunkTask.index = first ∧ ∀ outcome, chunkTask.stage ≠ .done outcome := by
  have hqueue := hwritten.queue
  rw [hstaging, foundValid_none] at hqueue
  have hlisted : first ∈ ctx.writeQueue := horder.mem_iff.mp (by simp)
  obtain ⟨hfirst, hplaced⟩ := List.mem_filter.mp hlisted
  obtain ⟨chunkTask, hmem, rfl⟩ := List.mem_map.mp (hqueue.symm ▸ hfirst)
  obtain ⟨position, hposition⟩ := List.mem_iff_getElem?.mp hmem
  refine ⟨position, chunkTask, hposition, rfl, ?_⟩
  rintro (error | ⟨⟨⟩⟩) hdone
  · exact hguided.healthy chunkTask hmem error hdone
  · have hwrote : chunkTask.index ∈ written := (hwritten.mem _).mpr
      ⟨chunkTask, hmem, rfl, hdone, placed_eq_offset (hguided.shape.tasks _ hmem) ▸ hplaced⟩
    have hnodup : (written ++ chunkTask.index :: later).Nodup :=
      horder.nodup_iff.mpr ((queue_nodup _ _).filter _)
    exact (List.nodup_append.mp hnodup).2.2 _ hwrote _ List.mem_cons_self rfl

/-- As long as some chunk task has not finished, one that does not wait for the
file, or the one whose turn it is, can go on. -/
theorem Guided.chunk_progress (hguided : ctx.Guided start written rest (world, state))
    (hwritten : ctx.Written start written ctx.task.chunks.length state)
    (hstaging : start.read ctx.stagingPlace = none)
    (hdelivered : ∀ index ∈ ctx.queue [] ctx.task.chunks.length, (ctx.delivered index).isSome)
    (horder : (written ++ rest).Perm ctx.writeQueue)
    (htask : state.chunkTasks[position]? = some chunkTask)
    (hpending : ∀ outcome, chunkTask.stage ≠ .done outcome) :
    ∃ move next, ctx.step (world, state) move = some next ∧
      ∃ written' rest', written' ++ rest' = written ++ rest ∧
        ctx.Guided start written' rest' next := by
  have hshape := hguided.shape
  obtain ⟨file, hfile⟩ := Option.isSome_iff_exists.mp
    (hshape.shared (List.ne_nil_of_mem (List.mem_of_getElem? htask)))
  have hgo {position : Nat} {chunkTask : ChunkTask}
      (htask : state.chunkTasks[position]? = some chunkTask)
      (hpending : ∀ outcome, chunkTask.stage ≠ .done outcome)
      (hturn : ∀ offset data, chunkTask.stage = .lock offset data →
        file.holder = none ∧ rest.head? = some chunkTask.index) :
      ∃ move next, ctx.step (world, state) move = some next ∧
        ∃ written' rest', written' ++ rest' = written ++ rest ∧
          ctx.Guided start written' rest' next := by
    obtain ⟨next, hnext⟩ : ∃ next, ctx.chunkStep world state position none = some next :=
      chunk_enabled htask hfile hpending fun offset data hlock => (hturn offset data hlock).1
    refine ⟨⟨.chunk position, none⟩, next, hnext, ?_⟩
    refine hguided.chunkStep hdelivered hwritten.tasks ?_ (chunkStep_cases hnext)
    intro other offset data hother hlock
    rw [htask, Option.some.injEq] at hother
    exact hother ▸ (hturn offset data (hother ▸ hlock)).2
  by_cases hready : ∃ (position : Nat) (chunkTask : ChunkTask),
      state.chunkTasks[position]? = some chunkTask ∧ (∀ outcome, chunkTask.stage ≠ .done outcome) ∧
        ∀ offset data, chunkTask.stage ≠ .lock offset data
  · obtain ⟨other, otherTask, hother, hotherPending, hnoLock⟩ := hready
    exact hgo hother hotherPending fun offset data hlock => absurd hlock (hnoLock offset data)
  · -- all that is left waits for the file, and nobody holds it
    push Not at hready
    have hfree : file.holder = none := by
      refine Option.eq_none_iff_forall_ne_some.mpr fun holder hholder => ?_
      obtain ⟨holderTask, hget, hholds⟩ := hshape.owned file holder hfile hholder
      obtain ⟨_, _, hlock⟩ := hready holder holderTask hget fun outcome hdone => by
        rw [hdone] at hholds
        cases hholds
      rw [hlock] at hholds
      cases hholds
    obtain ⟨offset, data, hlock⟩ := hready position chunkTask htask hpending
    have hrest := hguided.waiting hwritten hstaging horder (List.mem_of_getElem? htask) hlock
    obtain ⟨first, later, rfl⟩ := List.exists_cons_of_ne_nil hrest
    obtain ⟨turn, turnTask, hturn, hindex, hturnPending⟩ :=
      hguided.next_task hwritten hstaging horder
    exact hgo hturn hturnPending fun _ _ _ => ⟨hfree, congrArg some hindex.symm⟩

theorem Guided.progress (hguided : ctx.Guided start written rest (world, state))
    (hnone : ctx.task.oldChunks = none) (hstaging : start.read ctx.stagingPlace = none)
    (hdelivered : ∀ index ∈ ctx.queue [] ctx.task.chunks.length, (ctx.delivered index).isSome)
    (horder : (written ++ rest).Perm ctx.writeQueue)
    (hrunning : ∀ outcome, state.stage ≠ .done outcome) :
    ∃ move next, ctx.step (world, state) move = some next ∧
      ∃ written' rest', written' ++ rest' = written ++ rest ∧
        ctx.Guided start written' rest' next := by
  by_cases hwaits : ∃ position chunkTask, state.stage = .awaitChunks position ∧
      state.chunkTasks[position]? = some chunkTask ∧ ∀ outcome, chunkTask.stage ≠ .done outcome
  · obtain ⟨position, chunkTask, hstage, htask, hpending⟩ := hwaits
    have hhistory : ctx.HistoryAt start written world.disk state state.stage := hguided.history
    rw [hstage] at hhistory
    exact hguided.chunk_progress hhistory.1 hstaging hdelivered horder htask hpending
  · push Not at hwaits
    obtain ⟨next, hnext⟩ := main_enabled hguided.shape hrunning hwaits
    exact ⟨⟨.main, none⟩, next, hnext, written, rest, rfl,
      hguided.mainStep hnone hstaging (mainStep_cases hnext)⟩

/-- A fresh download whose chunks are all delivered may write them in any order,
and returns Ok then. -/
theorem exists_run_in_order (hnone : ctx.task.oldChunks = none)
    (hstaging : world.disk.read ctx.stagingPlace = none)
    (hfinal : ctx.finalValid world.disk = false)
    (hdelivered : ¬ ctx.Undelivered) (horder : order.Perm ctx.writeQueue) :
    ∃ moves world' state', ctx.machine.run (world, .initial) moves = some (world', state') ∧
      state'.stage = .done (.ok ()) ∧
      world'.disk.read ctx.finalPlace = some (ctx.assembledBy world.disk order) := by
  have hall : ∀ index ∈ ctx.queue [] ctx.task.chunks.length, (ctx.delivered index).isSome := by
    intro index hindex
    by_contra hmissing
    exact hdelivered ⟨index, hindex, Option.not_isSome_iff_eq_none.mp hmissing⟩
  let guided : FileConfig → Prop := fun config =>
    ∃ written rest, written ++ rest = order ∧ ctx.Guided world.disk written rest config
  have hprogress : ∀ config, guided config → ¬ (∃ outcome, config.2.stage = .done outcome) →
      ∃ move next, ctx.machine.step config move = some next ∧ guided next ∧
        ctx.rank next.2 < ctx.rank config.2 := by
    rintro config ⟨written, rest, hsplit, hguided⟩ hrunning
    obtain ⟨move, next, hnext, written', rest', hsplit', hguided'⟩ :=
      hguided.progress hnone hstaging hall (hsplit ▸ horder)
        fun outcome hstage => hrunning ⟨outcome, hstage⟩
    exact ⟨move, next, hnext, ⟨written', rest', hsplit'.trans hsplit, hguided'⟩, rank_step hnext⟩
  have hinitial : guided (world, .initial) :=
    ⟨[], order, rfl, .initial, by simp [FileState.Healthy, FileState.initial],
      by simp [FileState.initial], History.initial rfl, by simp [FileState.initial]⟩
  obtain ⟨moves, ⟨world', state'⟩, hrun, ⟨written, rest, hsplit, hguided⟩, outcome, hstage⟩ :=
    Machine.exists_run_to_final hprogress _ hinitial
  cases outcome with
  | error error => exact absurd hstage (hguided.unfailed error)
  | ok =>
      refine ⟨moves, world', state', hrun, hstage, ?_⟩
      have hended : ctx.HistoryAt world.disk written world'.disk state' state'.stage :=
        hguided.history
      simp only at hstage
      rw [hstage] at hended
      cases hended with
      | valid hvalid =>
          rw [hvalid] at hfinal
          cases hfinal
      | finished hresumable =>
          rw [hstaging, resumable_none] at hresumable
          cases hresumable
      | written hwritten hread =>
          obtain ⟨_, hperm⟩ := hwritten.complete hguided.shape
            (hguided.shape.complete (.inr hstage))
          rw [hstaging, foundValid_none] at hperm
          -- all the writes have been made, so none is left
          have hlength := (hperm.trans (hsplit ▸ horder).symm).length_eq
          rw [List.length_append] at hlength
          obtain rfl := List.length_eq_zero_iff.mp (by omega : rest.length = 0)
          rw [List.append_nil] at hsplit
          exact hsplit ▸ hread

end FileContext

end DepotDownloader.SteamClient
