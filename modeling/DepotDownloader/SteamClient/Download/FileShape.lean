import DepotDownloader.SteamClient.Download.FileStep

/-! # The shape of a file task

What the stage of a file task says about its shared file, its chunk tasks and
the staging file, whatever its chunks hold and whatever fails. From it follows
which names a step can touch.
-/

namespace DepotDownloader.SteamClient

open Foundation Foundation.LexPath Steam

/-- The task is between locking the file and releasing it. -/
def ChunkStage.holding : ChunkStage → Bool
  | .seek _ _ => true
  | .write _ => true
  | _ => false

/-- The place at which the task will write, once it knows it. -/
def ChunkStage.target : ChunkStage → Option Nat
  | .lock offset _ => some offset
  | .seek offset _ => some offset
  | _ => none

/-- A chunk task goes on: the tasks at the other positions are the same. -/
theorem FileState.getElem?_advance {state : FileState} {position other : Nat}
    {chunkTask otherTask : ChunkTask} {stage : ChunkStage}
    (hget : (state.advance position chunkTask stage).chunkTasks[other]? = some otherTask) :
    (other = position ∧ otherTask = { chunkTask with stage := stage }) ∨
      (other ≠ position ∧ state.chunkTasks[other]? = some otherTask) := by
  rw [advance, List.getElem?_set] at hget
  split at hget
  next heq =>
    split at hget <;> cases hget
    exact .inl ⟨heq.symm, rfl⟩
  next hne => exact .inr ⟨fun heq => hne heq.symm, hget⟩

namespace FileContext

variable (ctx : FileContext)

/-- A chunk task belongs to the chunk at its index, and writes where that chunk
says. -/
structure TaskShape (chunkTask : ChunkTask) : Prop where
  indexed : ctx.task.chunks[chunkTask.index]? = some chunkTask.chunk
  named : chunkTask.chunk.id = some chunkTask.chunkId
  placed : ∀ offset, chunkTask.stage.target = some offset → chunkTask.chunk.offset = some offset

structure FileShape (disk : Disk) (state : FileState) : Prop where
  unopened : state.stage.phase ≤ 4 → state.file = none
  opened : 5 ≤ state.stage.phase → state.stage.phase ≤ 9 → state.file.isSome
  idle : state.stage.phase ≤ 7 → state.chunkTasks = []
  shared : state.chunkTasks ≠ [] → state.file.isSome
  linked : ∀ file, state.file = some file → state.stage ≠ .done (.ok ()) →
    disk.link ctx.stagingPlace = some file.ino
  old : ∀ oldIno index, state.stage = .copyChunks oldIno index →
    disk.link ctx.finalPlace = some oldIno ∧ ctx.task.oldChunks.isSome
  awaited : ∀ position, state.stage = .awaitChunks position → ∀ earlier < position,
    ∃ chunkTask, state.chunkTasks[earlier]? = some chunkTask ∧ chunkTask.stage = .done (.ok ())
  complete : state.stage = .rename ∨ state.stage = .done (.ok ()) →
    ∀ chunkTask ∈ state.chunkTasks, chunkTask.stage = .done (.ok ())
  tasks : ∀ chunkTask ∈ state.chunkTasks, ctx.TaskShape chunkTask
  held : ∀ (file : SharedFile) (position : Nat) (chunkTask : ChunkTask),
    state.file = some file →
    state.chunkTasks[position]? = some chunkTask → chunkTask.stage.holding →
    file.holder = some position
  owned : ∀ (file : SharedFile) (position : Nat), state.file = some file →
    file.holder = some position →
    ∃ chunkTask, state.chunkTasks[position]? = some chunkTask ∧ chunkTask.stage.holding
  cursor : ∀ (file : SharedFile) (position : Nat) (chunkTask : ChunkTask) (data : Bytes),
    state.file = some file →
    state.chunkTasks[position]? = some chunkTask → chunkTask.stage = .write data →
    chunkTask.chunk.offset = some file.cursor

variable {ctx} {disk disk' : Disk} {world world' : World} {state state' : FileState}
  {fault : Option Nat}

theorem FileShape.initial : ctx.FileShape disk .initial where
  unopened _ := rfl
  opened hlow _ := by simp [FileState.initial] at hlow
  idle _ := rfl
  shared h := absurd rfl h
  linked _ hfile := by cases hfile
  old _ _ hstage := by cases hstage
  awaited _ hstage := by cases hstage
  complete hstage := by rcases hstage with hstage | hstage <;> cases hstage
  tasks _ hmem := by cases hmem
  held _ _ _ hfile := by cases hfile
  owned _ _ hfile := by cases hfile
  cursor _ _ _ _ hfile := by cases hfile

/-- The file task goes on to a stage, and nothing else changes. -/
theorem FileShape.goto (hshape : ctx.FileShape disk state) {stage : FileStage}
    (validChunks : List ChunkId) (hphase : state.stage.phase ≤ stage.phase)
    (hnotDone : state.stage.phase ≤ 10)
    (hopened : 5 ≤ stage.phase → stage.phase ≤ 9 → 5 ≤ state.stage.phase)
    (hold : ∀ oldIno index, stage = .copyChunks oldIno index →
      disk.link ctx.finalPlace = some oldIno ∧ ctx.task.oldChunks.isSome)
    (hawaited : ∀ position, stage = .awaitChunks position → ∀ earlier < position,
      ∃ chunkTask, state.chunkTasks[earlier]? = some chunkTask ∧
        chunkTask.stage = .done (.ok ()))
    (hcomplete : stage = .rename ∨ stage = .done (.ok ()) →
      ∀ chunkTask ∈ state.chunkTasks, chunkTask.stage = .done (.ok ())) :
    ctx.FileShape disk { state with stage := stage, validChunks := validChunks } where
  unopened h := hshape.unopened (hphase.trans h)
  opened hlow hhigh := hshape.opened (hopened hlow hhigh) (hphase.trans hhigh)
  idle h := hshape.idle (hphase.trans h)
  shared := hshape.shared
  linked file hfile _ := hshape.linked file hfile fun heq => by simp [heq] at hnotDone
  old := hold
  awaited := hawaited
  complete := hcomplete
  tasks := hshape.tasks
  held := hshape.held
  owned := hshape.owned
  cursor := hshape.cursor

/-- Steps of other tasks leave both names of the file alone. -/
theorem FileShape.of_sameAt (hshape : ctx.FileShape disk state)
    (hstaging : FileTree.SameAt ctx.stagingPlace disk disk')
    (hfinal : FileTree.SameAt ctx.finalPlace disk disk') : ctx.FileShape disk' state :=
  { hshape with
    linked := fun file hfile hstage => hstaging.1.trans (hshape.linked file hfile hstage)
    old := fun oldIno index hstage => by
      rw [hfinal.1]
      exact hshape.old oldIno index hstage }

/-- Writing the open file keeps every name where it leads. -/
theorem FileShape.of_link_eq (hshape : ctx.FileShape disk state) (hlink : disk'.link = disk.link) :
    ctx.FileShape disk' state :=
  { hshape with
    linked := fun file hfile hstage => hlink ▸ hshape.linked file hfile hstage
    old := fun oldIno index hstage => hlink ▸ hshape.old oldIno index hstage }

/-- A chunk task goes on. It may change what the shared file records only while
nobody else holds the file. -/
theorem FileShape.advance (hshape : ctx.FileShape disk state) {position : Nat}
    {chunkTask : ChunkTask} {stage : ChunkStage} {file' : Option SharedFile}
    (htask : state.chunkTasks[position]? = some chunkTask)
    (hpending : chunkTask.stage ≠ .done (.ok ()))
    (hino : file'.map SharedFile.ino = state.file.map SharedFile.ino)
    (hfree : (file' = state.file ∧ chunkTask.stage.holding = false) ∨
      ((∀ file, state.file = some file → file.holder = none ∨ file.holder = some position) ∧
        ∀ file other, file' = some file → file.holder = some other →
          other = position ∧ stage.holding))
    (hplaced : ∀ offset, stage.target = some offset → chunkTask.chunk.offset = some offset)
    (hheld : ∀ file, file' = some file → stage.holding → file.holder = some position)
    (hcursor : ∀ file data, file' = some file → stage = .write data →
      chunkTask.chunk.offset = some file.cursor) :
    ctx.FileShape disk { state.advance position chunkTask stage with file := file' } := by
  have hmem := List.mem_of_getElem? htask
  have hsame {file : SharedFile} (hfile : file' = some file) :
      ∃ before, state.file = some before ∧ before.ino = file.ino := by
    rw [hfile, Option.map_some, eq_comm, Option.map_eq_some_iff] at hino
    exact hino
  -- a task that holds the file is not disturbed by the others
  have hkeeps {file : SharedFile} {other : Nat} {otherTask : ChunkTask}
      (hfile : file' = some file) (hne : other ≠ position)
      (hget : state.chunkTasks[other]? = some otherTask) (hholds : otherTask.stage.holding) :
      state.file = some file := by
    rcases hfree with ⟨heq, _⟩ | ⟨hfree, _⟩
    · exact heq ▸ hfile
    · obtain ⟨before, hbefore, _⟩ := hsame hfile
      have hholder := hshape.held before other otherTask hbefore hget hholds
      rcases hfree before hbefore with hnone | hsome
      · rw [hnone] at hholder
        cases hholder
      · rw [hsome, Option.some.injEq] at hholder
        exact absurd hholder.symm hne
  refine ⟨fun h => ?_, fun hlow hhigh => ?_, fun h => ?_, fun _ => ?_, ?_, hshape.old,
    ?_, ?_, ?_, ?_, ?_, ?_⟩
  · have hnone := hshape.unopened h
    rw [hnone] at hino
    simpa using hino
  · have hsome := hshape.opened hlow hhigh
    obtain ⟨before, hbefore⟩ := Option.isSome_iff_exists.mp hsome
    rw [hbefore] at hino
    cases file' <;> simp_all
  · rw [hshape.idle h] at hmem
    cases hmem
  · have hsome := hshape.shared (List.ne_nil_of_mem hmem)
    obtain ⟨before, hbefore⟩ := Option.isSome_iff_exists.mp hsome
    rw [hbefore] at hino
    cases file' <;> simp_all
  · intro file hfile hstage
    obtain ⟨before, hbefore, heq⟩ := hsame hfile
    exact heq ▸ hshape.linked before hbefore hstage
  · intro last hstage earlier hearlier
    obtain ⟨earlierTask, hget, hdone⟩ := hshape.awaited last hstage earlier hearlier
    refine ⟨earlierTask, ?_, hdone⟩
    have hne : position ≠ earlier := by
      rintro rfl
      rw [htask, Option.some.injEq] at hget
      exact hpending (hget ▸ hdone)
    exact (List.getElem?_set_ne hne).trans hget
  · intro hstage
    exact absurd (hshape.complete hstage chunkTask hmem) hpending
  · intro otherTask hmemOther
    obtain ⟨other, hget⟩ := List.mem_iff_getElem?.mp hmemOther
    rcases FileState.getElem?_advance hget with ⟨_, rfl⟩ | ⟨_, hget⟩
    · exact ⟨(hshape.tasks _ hmem).indexed, (hshape.tasks _ hmem).named, hplaced⟩
    · exact hshape.tasks _ (List.mem_of_getElem? hget)
  · intro file other otherTask hfile hget hholds
    rcases FileState.getElem?_advance hget with ⟨rfl, rfl⟩ | ⟨hne, hget⟩
    · exact hheld file hfile hholds
    · exact hshape.held file other otherTask (hkeeps hfile hne hget hholds) hget hholds
  · intro file holder hfile hholder
    rcases hfree with ⟨heq, hnot⟩ | ⟨_, howned⟩
    · obtain ⟨holderTask, hget, hholds⟩ := hshape.owned file holder (heq ▸ hfile) hholder
      refine ⟨holderTask, (List.getElem?_set_ne ?_).trans hget, hholds⟩
      rintro rfl
      rw [htask, Option.some.injEq] at hget
      rw [hget, hholds] at hnot
      cases hnot
    · obtain ⟨rfl, hholds⟩ := howned file holder hfile hholder
      exact ⟨_, List.getElem?_set_self (List.getElem?_eq_some_iff.mp htask).1, hholds⟩
  · intro file other otherTask data hfile hget hwrite
    rcases FileState.getElem?_advance hget with ⟨rfl, rfl⟩ | ⟨hne, hget⟩
    · exact hcursor file data hfile hwrite
    · refine hshape.cursor file other otherTask data ?_ hget hwrite
      exact hkeeps hfile hne hget (by rw [hwrite]; rfl)

theorem FileShape.unheld (hshape : ctx.FileShape disk state) {file : SharedFile}
    (hidle : state.chunkTasks = []) (hfile : state.file = some file) : file.holder = none := by
  cases hholder : file.holder with
  | none => rfl
  | some position =>
      obtain ⟨_, hget, _⟩ := hshape.owned file position hfile hholder
      simp [hidle] at hget

/-- No chunk task has been spawned and the staging file is open. -/
theorem FileShape.of_idle {file : SharedFile} (hidle : state.chunkTasks = [])
    (hfile : state.file = some file) (hfree : file.holder = none)
    (hphase : 5 ≤ state.stage.phase) (hlinked : disk.link ctx.stagingPlace = some file.ino)
    (hold : ∀ oldIno index, state.stage = .copyChunks oldIno index →
      disk.link ctx.finalPlace = some oldIno ∧ ctx.task.oldChunks.isSome)
    (hawaited : ∀ position, state.stage ≠ .awaitChunks position) :
    ctx.FileShape disk state where
  unopened h := by omega
  opened _ _ := by simp [hfile]
  idle _ := hidle
  shared h := absurd hidle h
  linked other hother _ := by
    rw [hfile, Option.some.injEq] at hother
    exact hother ▸ hlinked
  old := hold
  awaited position hstage := absurd hstage (hawaited position)
  complete _ := by simp [hidle]
  tasks := by simp [hidle]
  held := by simp [hidle]
  owned other holder hother hholder := by
    rw [hfile, Option.some.injEq] at hother
    rw [← hother, hfree] at hholder
    cases hholder
  cursor := by simp [hidle]

theorem FileShape.spawn (hshape : ctx.FileShape disk state) {index : Nat} {chunk : ManifestChunk}
    {chunkId : ChunkId} (hstage : state.stage = .spawnChunks index)
    (hchunk : ctx.task.chunks[index]? = some chunk) (hid : chunk.id = some chunkId) :
    ctx.FileShape disk
      { state with
        stage := .spawnChunks (index + 1)
        chunkTasks := state.chunkTasks ++ [⟨index, chunk, chunkId, .fetch 0⟩] } := by
  have hopened := hshape.opened (by simp [hstage]) (by simp [hstage])
  have hother {position : Nat} {chunkTask : ChunkTask}
      (hget : (state.chunkTasks ++ [⟨index, chunk, chunkId, .fetch 0⟩])[position]? =
        some chunkTask) (hholds : chunkTask.stage.holding) :
      state.chunkTasks[position]? = some chunkTask := by
    by_cases hlt : position < state.chunkTasks.length
    · rwa [List.getElem?_append_left hlt] at hget
    · rw [List.getElem?_append_right (Nat.le_of_not_lt hlt), List.getElem?_singleton] at hget
      split at hget <;> cases hget
      cases hholds
  exact
    { unopened := fun h => by simp at h
      opened := fun _ _ => hopened
      idle := fun h => by simp at h
      shared := fun _ => hopened
      linked := fun file hfile _ => hshape.linked file hfile (by simp [hstage])
      old := fun _ _ h => by cases h
      awaited := fun _ h => by cases h
      complete := fun h => by rcases h with h | h <;> cases h
      tasks := by
        intro chunkTask hmem
        rcases List.mem_append.mp hmem with hmem | hmem
        · exact hshape.tasks chunkTask hmem
        · rw [List.mem_singleton.mp hmem]
          exact ⟨hchunk, hid, fun _ h => by cases h⟩
      held := fun file position chunkTask hfile hget hholds =>
        hshape.held file position chunkTask hfile (hother hget hholds) hholds
      owned := fun file position hfile hholder => by
        obtain ⟨chunkTask, hget, hholds⟩ := hshape.owned file position hfile hholder
        refine ⟨chunkTask, ?_, hholds⟩
        rwa [List.getElem?_append_left (List.getElem?_eq_some_iff.mp hget).1]
      cursor := fun file position chunkTask data hfile hget hwrite =>
        hshape.cursor file position chunkTask data hfile
          (hother hget (by rw [hwrite]; rfl)) hwrite }

theorem FileShape.mainStep (hshape : ctx.FileShape world.disk state)
    (hstep : ctx.MainStep world state fault world' state') :
    ctx.FileShape world'.disk state' := by
  have hidleComplete (hphase : state.stage.phase ≤ 7) :
      ∀ chunkTask ∈ state.chunkTasks, chunkTask.stage = .done (.ok ()) := by
    simp [hshape.idle hphase]
  cases hstep with
  | stagingDir hstage | noStagingDir hstage | finalDir hstage | noFinalDir hstage
  | finalInvalid hstage | stagingMissing hstage =>
      exact hshape.goto state.validChunks (by simp [hstage]) (by simp [hstage])
        (by simp) (by simp) (by simp) (by simp)
  | finalValid hstage =>
      exact hshape.goto state.validChunks (by simp [hstage]) (by simp [hstage])
        (by simp) (by simp) (by simp) fun _ => hidleComplete (by simp [hstage])
  | stagingComplete hstage =>
      exact hshape.goto _ (by simp [hstage]) (by simp [hstage])
        (by simp) (by simp) (by simp) fun _ => hidleComplete (by simp [hstage])
  | stagingPartial hstage =>
      exact hshape.goto _ (by simp [hstage]) (by simp [hstage])
        (by simp) (by simp) (by simp) (by simp)
  | resumed hstage hlink =>
      exact .of_idle (hshape.idle (by simp [hstage])) rfl rfl (by simp) hlink (by simp) (by simp)
  | created hstage =>
      exact .of_idle (hshape.idle (by simp [hstage])) rfl rfl (by simp)
        (FileTree.openTruncate_link ..) (by simp) (by simp)
  | sized hstage hsize hfile =>
      have hidle := hshape.idle (by simp [hstage])
      exact .of_idle hidle hfile (hshape.unheld hidle hfile) (by simp)
        (hshape.linked _ hfile (by simp [hstage])) (by simp) (by simp)
  | unsized hstage =>
      exact hshape.goto state.validChunks (by simp [hstage]) (by simp [hstage])
        (by simp [hstage]) (by simp) (by simp) (by simp)
  | oldOpened hstage hold hlink =>
      refine hshape.goto state.validChunks (by simp [hstage]) (by simp [hstage])
        (by simp [hstage]) ?_ (by simp) (by simp)
      rintro _ _ ⟨⟩
      exact ⟨hlink, hold⟩
  | oldMissing hstage =>
      exact hshape.goto state.validChunks (by simp [hstage]) (by simp [hstage])
        (by simp [hstage]) (by simp) (by simp) (by simp)
  | copied hstage _ hfile =>
      have hlink := hshape.linked _ hfile (by simp [hstage])
      have hidle := hshape.idle (by simp [hstage])
      have hfree := hshape.unheld hidle hfile
      refine .of_idle hidle rfl hfree (by simp) hlink ?_ (by simp)
      rintro _ _ ⟨⟩
      exact hshape.old _ _ hstage
  | copyFault hstage _ hfile =>
      have hlink := hshape.linked _ hfile (by simp [hstage])
      have hidle := hshape.idle (by simp [hstage])
      have hfree := hshape.unheld hidle hfile
      exact .of_idle hidle rfl hfree (by simp) hlink (by simp) (by simp)
  | notCopied hstage =>
      refine hshape.goto state.validChunks (by simp [hstage]) (by simp [hstage])
        (by simp [hstage]) ?_ (by simp) (by simp)
      rintro _ _ ⟨⟩
      exact hshape.old _ _ hstage
  | copyDone hstage | chunkSkipped hstage =>
      exact hshape.goto state.validChunks (by simp [hstage]) (by simp [hstage])
        (by simp [hstage]) (by simp) (by simp) (by simp)
  | chunkSpawned hstage hchunk hid => exact hshape.spawn hstage hchunk hid
  | spawnDone hstage =>
      refine hshape.goto state.validChunks (by simp [hstage]) (by simp [hstage])
        (by simp [hstage]) (by simp) ?_ (by simp)
      rintro _ ⟨⟩ earlier hearlier
      omega
  | @awaited position chunkTask hstage htask hdone =>
      refine hshape.goto state.validChunks (by simp [hstage]) (by simp [hstage])
        (by simp [hstage]) (by simp) ?_ (by simp)
      rintro _ ⟨⟩ earlier hearlier
      rcases Nat.lt_succ_iff_lt_or_eq.mp hearlier with hlt | rfl
      · exact hshape.awaited position hstage earlier hlt
      · exact ⟨chunkTask, htask, hdone⟩
  | @awaitDone position hstage hend =>
      refine hshape.goto state.validChunks (by simp [hstage]) (by simp [hstage])
        (by simp) (by simp) (by simp) fun _ chunkTask hmem => ?_
      -- the awaiting loop has come past every chunk task
      obtain ⟨other, hget⟩ := List.mem_iff_getElem?.mp hmem
      obtain ⟨hlt, _⟩ := List.getElem?_eq_some_iff.mp hget
      have hle := List.getElem?_eq_none_iff.mp hend
      obtain ⟨found, hfound, hdone⟩ := hshape.awaited position hstage other (by omega)
      rw [hget, Option.some.injEq] at hfound
      exact hfound ▸ hdone
  | renamed hstage hrename =>
      exact
        { unopened := fun h => by simp at h
          opened := fun _ h => by simp at h
          idle := fun h => by simp at h
          shared := hshape.shared
          linked := fun _ _ h => absurd rfl h
          old := fun _ _ h => by cases h
          awaited := fun _ h => by cases h
          complete := fun _ => hshape.complete (.inl hstage)
          tasks := hshape.tasks
          held := hshape.held
          owned := hshape.owned
          cursor := hshape.cursor }
  | failed hphase =>
      exact hshape.goto state.validChunks (Nat.le_succ_of_le hphase) hphase
        (by simp) (by simp) (by simp) (by simp)

theorem FileShape.chunkStep {position : Nat} (hshape : ctx.FileShape world.disk state)
    (hstep : ctx.ChunkStep world state position fault world' state') :
    ctx.FileShape world'.disk state' := by
  cases hstep with
  | @fetch chunkTask attempt htask hstage =>
      have hfetched : (ctx.fetched chunkTask attempt).target = none ∧
          (ctx.fetched chunkTask attempt).holding = false ∧
          ∀ data, ctx.fetched chunkTask attempt ≠ .write data := by
        unfold fetched
        split
        · exact ⟨rfl, rfl, by simp⟩
        · split
          · split <;> exact ⟨rfl, rfl, by simp⟩
          · exact ⟨rfl, rfl, by simp⟩
      obtain ⟨htarget, hholding, hwrite⟩ := hfetched
      exact hshape.advance htask (by simp [hstage]) rfl
        (.inl ⟨rfl, by simp [hstage, ChunkStage.holding]⟩) (by simp [htarget])
        (by simp [hholding]) fun _ data _ h => absurd h (hwrite data)
  | accepted htask hstage _ hoffset =>
      refine hshape.advance htask (by simp [hstage]) rfl
        (.inl ⟨rfl, by simp [hstage, ChunkStage.holding]⟩) ?_ (by simp [ChunkStage.holding])
        (by simp)
      rintro _ ⟨⟩
      exact hoffset
  | unplaced htask hstage | noAttempt htask hstage | rejected htask hstage =>
      exact hshape.advance htask (by simp [hstage]) rfl
        (.inl ⟨rfl, by simp [hstage, ChunkStage.holding]⟩) (by simp [ChunkStage.target])
        (by simp [ChunkStage.holding]) (by simp)
  -- only a free file is locked, so two tasks never hold it
  | locked htask hfile hstage hfree =>
      refine hshape.advance htask (by simp [hstage]) (by simp [hfile]) (.inr ⟨?_, ?_⟩) ?_
        (by simp) (by simp)
      · intro file hsome
        rw [hfile, Option.some.injEq] at hsome
        exact .inl (hsome ▸ hfree)
      · rintro _ _ ⟨⟩ ⟨⟩
        exact ⟨rfl, rfl⟩
      · rintro _ ⟨⟩
        exact (hshape.tasks _ (List.mem_of_getElem? htask)).placed _ (by rw [hstage]; rfl)
  -- the holder seeks, and nobody moves the cursor before its write
  | @sought chunkTask file offset data htask hfile hstage =>
      have hholder := hshape.held file position chunkTask hfile htask (by rw [hstage]; rfl)
      refine hshape.advance htask (by simp [hstage]) (by simp [hfile]) (.inr ⟨?_, ?_⟩)
        (by simp [ChunkStage.target]) ?_ ?_
      · intro other hsome
        rw [hfile, Option.some.injEq] at hsome
        exact .inr (hsome ▸ hholder)
      · rintro _ other ⟨⟩ hother
        rw [hholder, Option.some.injEq] at hother
        exact ⟨hother.symm, rfl⟩
      · rintro _ ⟨⟩ _
        exact hholder
      · rintro _ _ ⟨⟩ _
        exact (hshape.tasks _ (List.mem_of_getElem? htask)).placed _ (by rw [hstage]; rfl)
  | @seekFault chunkTask file offset data htask hfile hstage =>
      have hholder := hshape.held file position chunkTask hfile htask (by rw [hstage]; rfl)
      refine hshape.advance htask (by simp [hstage]) (by simp [hfile]) (.inr ⟨?_, ?_⟩)
        (by simp [ChunkStage.target]) (by simp [ChunkStage.holding]) (by simp)
      · intro other hsome
        rw [hfile, Option.some.injEq] at hsome
        exact .inr (hsome ▸ hholder)
      · rintro _ _ ⟨⟩ ⟨⟩
  -- with the write, whole or short, the holder gives the file back
  | @wrote chunkTask file data htask hfile hstage
  | @writeFault chunkTask file data _ htask hfile hstage =>
      have hholder := hshape.held file position chunkTask hfile htask (by rw [hstage]; rfl)
      refine .of_link_eq (hshape.advance htask (by simp [hstage]) ?_ (.inr ⟨?_, ?_⟩) ?_ ?_ ?_) rfl
      · simp [hfile, writeChunk]
      · intro other hsome
        rw [hfile, Option.some.injEq] at hsome
        exact .inr (hsome ▸ hholder)
      · rintro _ _ ⟨⟩ ⟨⟩
      · simp [ChunkStage.target]
      · simp [ChunkStage.holding]
      · simp

/-- Every move keeps the shape of the file task that makes it. -/
theorem FileShape.step {move : FileMove} (hshape : ctx.FileShape world.disk state)
    (hstep : ctx.step (world, state) move = some (world', state')) :
    ctx.FileShape world'.disk state' := by
  rcases step_cases hstep with hmain | ⟨_, hchunk⟩
  · exact hshape.mainStep hmain
  · exact hshape.chunkStep hchunk

/-- The file task moves its staging file onto the final name. -/
structure Renames (ctx : FileContext) (world : World) (state : FileState) (world' : World)
    (state' : FileState) : Prop where
  stage : state.stage = .rename
  outcome : state'.stage = .done (.ok ())
  disk : world.disk.rename ctx.stagingPlace ctx.finalPlace = some world'.disk
  complete : ∀ chunkTask ∈ state.chunkTasks, chunkTask.stage = .done (.ok ())

/-- A move changes only the staging file, or it is the rename. -/
theorem FileShape.touches {move : FileMove} (hshape : ctx.FileShape world.disk state)
    (hstep : ctx.step (world, state) move = some (world', state')) :
    FileTree.ChangesOnly (· = ctx.stagingPlace) world.disk world'.disk ∨
      ctx.Renames world state world' state' := by
  have hstore {file : SharedFile} (hfile : state.file = some file)
      (hstage : state.stage ≠ .done (.ok ())) (bytes : Bytes) :
      FileTree.ChangesOnly (· = ctx.stagingPlace) world.disk (world.disk.store file.ino bytes) :=
    FileTree.store_changesOnly (hshape.linked file hfile hstage) bytes
  rcases step_cases hstep with hmain | ⟨_, hchunk⟩
  · cases hmain with
    | created hstage => exact .inl (FileTree.openTruncate_changesOnly _ _)
    | sized hstage _ hfile | copied hstage _ hfile | copyFault hstage _ hfile =>
        exact .inl (hstore hfile (by simp [hstage]) _)
    | renamed hstage hrename =>
        exact .inr ⟨hstage, rfl, hrename, hshape.complete (.inl hstage)⟩
    | _ => exact .inl (FileTree.ChangesOnly.refl _ _)
  · have hrunning {position : Nat} {chunkTask : ChunkTask} {data : Bytes}
        (htask : state.chunkTasks[position]? = some chunkTask)
        (hwrite : chunkTask.stage = .write data) : state.stage ≠ .done (.ok ()) := fun hdone => by
      have hcomplete := hshape.complete (.inr hdone) _ (List.mem_of_getElem? htask)
      rw [hwrite] at hcomplete
      cases hcomplete
    cases hchunk with
    | wrote htask hfile hstage | writeFault htask hfile hstage =>
        exact .inl (hstore hfile (hrunning htask hstage) _)
    | _ => exact .inl (FileTree.ChangesOnly.refl _ _)

/-- A move touches no name but the two of its file. -/
theorem FileShape.step_changesOnly {move : FileMove} (hshape : ctx.FileShape world.disk state)
    (hstep : ctx.step (world, state) move = some (world', state')) :
    FileTree.ChangesOnly (fun name => name = ctx.stagingPlace ∨ name = ctx.finalPlace)
      world.disk world'.disk := by
  rcases hshape.touches hstep with hstaging | hrename
  · exact hstaging.mono fun name => .inl
  · exact FileTree.rename_changesOnly hrename.disk

/-- A file task that has returned Ok is through with the disk. -/
theorem FileShape.of_done (hshape : ctx.FileShape disk state)
    (hdone : state.stage = .done (.ok ())) : ctx.FileShape disk' state :=
  { hshape with
    linked := fun _ _ hstage => absurd hdone hstage
    old := fun _ _ hstage => by rw [hdone] at hstage; cases hstage }

/-- What a file task has returned stays. -/
theorem stage_of_done {move : FileMove} {outcome : Outcome} (hdone : state.stage = .done outcome)
    (hstep : ctx.step (world, state) move = some (world', state')) :
    state'.stage = .done outcome := by
  rcases step_cases hstep with hmain | ⟨_, hchunk⟩
  · cases hmain with
    | failed hphase => simp [hdone] at hphase
    | stagingDir hstage | noStagingDir hstage | finalDir hstage | noFinalDir hstage
    | finalValid hstage | finalInvalid hstage | stagingComplete hstage | stagingPartial hstage
    | stagingMissing hstage | resumed hstage | created hstage | sized hstage | unsized hstage
    | oldOpened hstage | oldMissing hstage | copied hstage | copyFault hstage | notCopied hstage
    | copyDone hstage | chunkSkipped hstage | chunkSpawned hstage | spawnDone hstage
    | awaited hstage | awaitDone hstage | renamed hstage =>
        rw [hdone] at hstage
        cases hstage
  · cases hchunk <;> exact hdone

/-- A file task that returns Ok leaves a file under its name. -/
theorem present_of_done {move : FileMove} (hrunning : state.stage ≠ .done (.ok ()))
    (hdone : state'.stage = .done (.ok ()))
    (hstep : ctx.step (world, state) move = some (world', state')) :
    world'.disk.present ctx.finalPlace = true := by
  rcases step_cases hstep with hmain | ⟨_, hchunk⟩
  · cases hmain with
    | finalValid hstage hvalid =>
        obtain ⟨data, hread, _⟩ := fileHasValidChunks_iff.mp (fileHasValidChunks_of_failing hvalid)
        exact FileTree.present_iff_read.mpr ⟨data, hread⟩
    | renamed hstage hrename =>
        obtain ⟨ino, hlink⟩ := FileTree.rename_source hrename
        rw [FileTree.present_iff_read, World.emit_disk, World.withDisk_disk,
          FileTree.rename_read_target hrename]
        exact ⟨_, FileTree.read_of_link hlink⟩
    | _ => cases hdone
  · cases hchunk <;> exact absurd hdone hrunning

end FileContext

end DepotDownloader.SteamClient
