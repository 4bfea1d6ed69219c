import DepotDownloader.SteamClient.Download.DeltaCopy

/-! # Reusing chunks of the previous version

A download over a previous version installs every listed chunk if and only if the
previous version or the staging file supplies it.
-/

namespace DepotDownloader.SteamClient

open Foundation Foundation.LexPath Steam

namespace FileContext

variable {ctx : FileContext} {oldData data buffer : Bytes} {staging : Option Bytes}
  {passed written : Nat → Prop} {chunk : ManifestChunk} {index offset length : Nat}
  {disk : Disk} {world world' : World} {state state' : FileState}

variable (ctx) in
/-- Without a previous version every chunk is found valid or fetched. -/
def AllFetched (state : FileState) : Prop :=
  state.stage = .done (.ok ()) → state.file.isSome →
    ∀ index chunk, ctx.task.chunks[index]? = some chunk →
      (∃ chunkId ∈ state.validChunks, chunk.id = some chunkId) ∨
        ∃ chunkTask ∈ state.chunkTasks, chunkTask.index = index

theorem AllFetched.step {spec : Assembly} {move : FileMove} (hnone : spec.final = none)
    (hcontent : ctx.FileContent spec world.disk state) (hshape : ctx.FileShape world.disk state)
    (hstep : ctx.step (world, state) move = some (world', state')) : ctx.AllFetched state' := by
  intro hdone hopened index chunk hchunk
  rcases step_cases hstep with hmain | ⟨_, hmove⟩
  · cases hmain with
    | finalValid hstage =>
        have hfile : state.file.isSome := hopened
        rw [hshape.unopened (by simp [hstage])] at hfile
        cases hfile
    | renamed hstage =>
        rcases hcontent.covered (by simp [hstage]) index chunk hchunk (by simp [hstage]) with
          (hvalid | ⟨chunkTask, hspawned, heq, _⟩ | ⟨hsome, _⟩) | hspawned
        · exact .inl hvalid
        · exact .inr ⟨chunkTask, hspawned, heq⟩
        · rw [hnone] at hsome
          cases hsome
        · exact .inr hspawned
    | _ => cases hdone
  · obtain ⟨hstage, chunkTask, htask, hpending⟩ := chunkStep_pending hmove
    exact absurd (hshape.complete (.inr (hstage.symm.trans hdone)) chunkTask htask) hpending

variable (ctx) in
/-- Delta reuse is sound in a download that returned Ok: every listed chunk is
valid in the final file, and a listed chunk that was neither found valid nor
fetched was copied, and what was copied is right. -/
structure DeltaSound (start disk : Disk) (state : FileState) : Prop where
  installed : ∀ chunk ∈ ctx.task.chunks, ctx.Listed chunk →
    ∃ data, disk.read ctx.finalPlace = some data ∧ chunkValid data chunk = true
  copied : state.file.isSome → ∀ index chunk, ctx.task.chunks[index]? = some chunk →
    ctx.Listed chunk →
    (∀ chunkId ∈ state.validChunks, chunk.id ≠ some chunkId) →
    (∀ chunkTask ∈ state.chunkTasks, chunkTask.index ≠ index) →
      ∃ oldData data offset buffer, start.read ctx.finalPlace = some oldData ∧
        ctx.planned oldData index chunk = some buffer ∧ Matches chunk buffer ∧
        disk.read ctx.finalPlace = some data ∧ chunk.offset = some offset ∧
        Bytes.readAt data offset buffer.length = some buffer

variable (ctx) in
/-- The final file is found valid, or the staging file is found complete, or there is no
previous version, or every listed chunk is supplied. -/
def SuppliesListed (start : Disk) : Prop :=
  fileHasValidChunks start ctx.finalPlace ctx.task.size ctx.task.chunks ctx.silent.final = true ∨
  ctx.StagingComplete (start.read ctx.stagingPlace) ∨
  ∀ oldData, start.read ctx.finalPlace = some oldData →
    ∀ index chunk, ctx.task.chunks[index]? = some chunk → ctx.Listed chunk →
      ctx.Supplied oldData (start.read ctx.stagingPlace) index chunk

theorem chunkValid_congr {data data' : Bytes}
    (hread : ∀ offset size, chunk.offset = some offset → chunk.uncompressedSize = some size →
      Bytes.readAt data offset size = Bytes.readAt data' offset size) :
    chunkValid data chunk = chunkValid data' chunk := by
  unfold chunkValid
  cases hoffset : chunk.offset with
  | none => rfl
  | some offset =>
      cases hsize : chunk.uncompressedSize with
      | none => rfl
      | some size =>
          cases chunk.checksum with
          | none => rfl
          | some checksum => simp only [hread offset size hoffset hsize]

/-- A region that the copy loop has filled is right when what was read is. -/
theorem ListedRegions.valid_iff_matches
    (hregions : ctx.ListedRegions oldData staging (fun _ => True) written data)
    (hlayout : Layout ctx.task.size ctx.task.chunks length)
    (hchunk : ctx.task.chunks[index]? = some chunk) (hlisted : ctx.Listed chunk)
    (hunwritten : ¬ written index) (hplanned : ctx.planned oldData index chunk = some buffer) :
    chunkValid data chunk = true ↔ Matches chunk buffer := by
  obtain ⟨offset, size, hoffset, hsize, _⟩ :=
    (hlayout.complete chunk (List.mem_of_getElem? hchunk)).region
  have hread := (hregions.region index chunk offset size hchunk hlisted hoffset hsize).taken buffer
    hunwritten trivial hplanned
  rw [chunkValid_iff]
  constructor
  · intro hvalid
    obtain ⟨offset', size', bytes, hoffset', hsize', hread', hmatches⟩ := hvalid
    rw [hoffset, Option.some.injEq] at hoffset'
    rw [hsize, Option.some.injEq] at hsize'
    rw [← hoffset', ← hsize', hread, Option.some.injEq] at hread'
    exact hread' ▸ hmatches
  · intro hmatches
    exact ⟨offset, size, buffer, hoffset, hsize, hread, hmatches⟩

/-- A region that the copy loop has left alone is as the file was prepared. -/
theorem ListedRegions.valid_iff_prepared
    (hregions : ctx.ListedRegions oldData staging (fun _ => True) written data)
    (hchunk : ctx.task.chunks[index]? = some chunk) (hlisted : ctx.Listed chunk)
    (hunwritten : ¬ written index) (hplanned : ctx.planned oldData index chunk = none) :
    chunkValid data chunk = chunkValid (ctx.prepared staging) chunk := by
  apply chunkValid_congr
  intro offset size hoffset hsize
  exact (hregions.region index chunk offset size hchunk hlisted hoffset hsize).kept hunwritten
    (.inr hplanned)

/-- A region that a chunk task has written is right. -/
theorem ListedRegions.valid_of_written
    (hregions : ctx.ListedRegions oldData staging passed written data)
    (hlayout : Layout ctx.task.size ctx.task.chunks length)
    (hchunk : ctx.task.chunks[index]? = some chunk) (hlisted : ctx.Listed chunk)
    (hwritten : written index) : chunkValid data chunk = true := by
  obtain ⟨offset, size, hoffset, hsize, _⟩ :=
    (hlayout.complete chunk (List.mem_of_getElem? hchunk)).region
  obtain ⟨bytes, hread, hmatches⟩ :=
    (hregions.region index chunk offset size hchunk hlisted hoffset hsize).fetched hwritten
  exact chunkValid_iff.mpr ⟨offset, size, bytes, hoffset, hsize, hread, hmatches⟩

/-- With distinct identifiers a chunk that was found valid in the staging file is valid in
what the file was prepared with. -/
theorem prepared_valid (hdistinct : DistinctIds ctx.task.chunks) (hmem : chunk ∈ ctx.task.chunks)
    (hfound : ¬ ctx.NotFound staging chunk) :
    chunkValid (ctx.prepared staging) chunk = true := by
  simp only [NotFound, not_forall, not_not] at hfound
  obtain ⟨chunkId, hfound, hid⟩ := hfound
  unfold foundValid at hfound
  unfold prepared
  cases hresumable : ctx.resumable staging with
  | none =>
      rw [hresumable] at hfound
      cases hfound
  | some data =>
      rw [hresumable] at hfound
      obtain ⟨_, other, hother, _, hvalid, hotherId⟩ := mem_validChunkIds.mp hfound
      rwa [hdistinct chunk hmem other (List.mem_of_getElem? hother) (hid.trans hotherId.symm)]

/-- A copied download is sound exactly when every listed chunk is supplied. -/
theorem ListedRegions.sound_iff {start : Disk}
    (hregions : ctx.ListedRegions oldData staging (fun _ => True) state.HasWritten data)
    (hlayout : Layout ctx.task.size ctx.task.chunks length)
    (hdistinct : DistinctIds ctx.task.chunks)
    (hfinal : start.read ctx.finalPlace = some oldData)
    (hread : disk.read ctx.finalPlace = some data) (hopened : state.file.isSome)
    (hvalid : state.validChunks = ctx.foundValid staging)
    (hunfetched : ∀ chunkTask ∈ state.chunkTasks, ctx.Listed chunkTask.chunk →
      ctx.Refetched staging chunkTask.index chunkTask.chunk)
    (hwritten : ∀ index chunk, ctx.task.chunks[index]? = some chunk → ctx.Listed chunk →
      (state.HasWritten index ↔ ctx.Refetched staging index chunk))
    (hshape : ctx.FileShape disk state) :
    ctx.DeltaSound start disk state ↔
      ∀ index chunk, ctx.task.chunks[index]? = some chunk → ctx.Listed chunk →
        ctx.Supplied oldData staging index chunk := by
  constructor
  · intro hsound index chunk hchunk hlisted
    obtain ⟨found, hfound, hvalidChunk⟩ :=
      hsound.installed chunk (List.mem_of_getElem? hchunk) hlisted
    rw [hread, Option.some.injEq] at hfound
    subst hfound
    refine or_iff_not_imp_left.mpr fun hkept => ?_
    have hunwritten : ¬ state.HasWritten index :=
      fun hwrote => hkept ((hwritten index chunk hchunk hlisted).mp hwrote)
    cases hplanned : ctx.planned oldData index chunk with
    | some buffer =>
        exact (hregions.valid_iff_matches hlayout hchunk hlisted hunwritten hplanned).mp
          hvalidChunk
    | none =>
        intro hmissing
        -- The chunk was not found valid and not fetched, so it has been copied.
        have hnotFetched : ∀ chunkTask ∈ state.chunkTasks, chunkTask.index ≠ index := by
          intro chunkTask hmem hindex
          have hindexed := (hshape.tasks chunkTask hmem).indexed
          rw [hindex, hchunk, Option.some.injEq] at hindexed
          have hrefetched := hunfetched chunkTask hmem (hindexed ▸ hlisted)
          rw [hindex, ← hindexed] at hrefetched
          exact hkept hrefetched
        obtain ⟨other, _, _, buffer, hother, hbuffer, _⟩ :=
          hsound.copied hopened index chunk hchunk hlisted (by rw [hvalid]; exact hmissing)
            hnotFetched
        rw [hfinal, Option.some.injEq] at hother
        subst hother
        rw [hplanned] at hbuffer
        cases hbuffer
  · intro hsupplied
    refine ⟨?_, ?_⟩
    · intro chunk hmem hlisted
      obtain ⟨index, hchunk⟩ := List.mem_iff_getElem?.mp hmem
      refine ⟨data, hread, ?_⟩
      by_cases hwrote : state.HasWritten index
      · exact hregions.valid_of_written hlayout hchunk hlisted hwrote
      · have hkept := fun hrefetched =>
          hwrote ((hwritten index chunk hchunk hlisted).mpr hrefetched)
        have hsource := (hsupplied index chunk hchunk hlisted).resolve_left hkept
        split at hsource
        next buffer hplanned =>
          exact (hregions.valid_iff_matches hlayout hchunk hlisted hwrote hplanned).mpr hsource
        next hplanned =>
          rw [hregions.valid_iff_prepared hchunk hlisted hwrote hplanned]
          exact prepared_valid hdistinct hmem hsource
    · intro _ index chunk hchunk hlisted hnotFound hnotFetched
      have hwrote : ¬ state.HasWritten index := by
        rintro ⟨chunkTask, hmem, hdone⟩
        exact hnotFetched chunkTask hmem hdone.index
      have hkept := fun hrefetched =>
        hwrote ((hwritten index chunk hchunk hlisted).mpr hrefetched)
      have hsource := (hsupplied index chunk hchunk hlisted).resolve_left hkept
      split at hsource
      next buffer hplanned =>
        obtain ⟨offset, _, hoffset, _⟩ :=
          (hlayout.complete chunk (List.mem_of_getElem? hchunk)).region
        have hregion := hregions.region index chunk offset buffer.length hchunk hlisted hoffset
          (planned_length hplanned)
        exact ⟨oldData, data, offset, buffer, hfinal, hplanned, hsource, hread, hoffset,
          hregion.taken buffer hwrote trivial hplanned⟩
      next =>
        rw [hvalid] at hnotFound
        exact absurd hnotFound hsource

theorem Reused.sound_iff {start : Disk} (hreused : ctx.Reused oldData staging disk state)
    (hlayout : Layout ctx.task.size ctx.task.chunks length)
    (hdistinct : DistinctIds ctx.task.chunks)
    (hfinal : start.read ctx.finalPlace = some oldData)
    (hstaging : start.read ctx.stagingPlace = staging) (hshape : ctx.FileShape disk state) :
    ctx.DeltaSound start disk state ↔ ctx.SuppliesListed start := by
  have hclosed {found : Bytes} (hfile : state.file = none)
      (hread : disk.read ctx.finalPlace = some found)
      (hall : ∀ chunk ∈ ctx.task.chunks, chunkValid found chunk = true) :
      ctx.DeltaSound start disk state := by
    refine ⟨fun chunk hmem _ => ⟨found, hread, hall chunk hmem⟩, ?_⟩
    intro hopened
    rw [hfile] at hopened
    cases hopened
  cases hreused with
  | valid hread hfile hsees =>
      refine ⟨fun _ => ?_, fun _ => hclosed hfile hread hsees.chunk_valid⟩
      exact .inl ((finalValid_iff hfinal).mpr hsees)
  | finished hread hfile hresumable hall =>
      refine ⟨fun _ => .inr (.inl ⟨_, hstaging ▸ hresumable, hall⟩), fun _ => ?_⟩
      exact hclosed hfile hread (chunkValid_of_validChunkIds_length hall)
  | copied hread hmissed hopened hvalid hunfetched hwritten hregions =>
      have hiff := hregions.sound_iff hlayout hdistinct hfinal hread hopened hvalid hunfetched
        hwritten hshape
      rw [hiff]
      constructor
      · intro hsupplied
        refine .inr (.inr ?_)
        intro other hother
        rw [hfinal, Option.some.injEq] at hother
        rw [hstaging, ← hother]
        exact hsupplied
      · intro hsupplies
        rcases hsupplies with hcomplete | hcomplete | hsupplied
        · exact absurd ((finalValid_iff hfinal).mp hcomplete) hmissed.final
        · exact absurd (hstaging ▸ hcomplete) hmissed.staging
        · exact hstaging ▸ hsupplied oldData hfinal

/-- Delta reuse is sound in a download that returns Ok if and only if the
previous version and the staging file supply every listed chunk, unless one of
the two files is complete or there is no previous version. -/
theorem deltaReuse_sound_iff (hlayout : Layout ctx.task.size ctx.task.chunks length)
    (hdistinct : DistinctIds ctx.task.chunks) (hapart : ctx.stagingPlace ≠ ctx.finalPlace)
    {moves : List FileMove} (hrun : ctx.machine.run (world, .initial) moves = some (world', state'))
    (hok : state'.stage = .done (.ok ())) :
    ctx.DeltaSound world.disk world'.disk state' ↔ ctx.SuppliesListed world.disk := by
  cases hfinal : world.disk.read ctx.finalPlace with
  | some oldData =>
      have hstep : ∀ (config : FileConfig) (move : FileMove) (next : FileConfig),
          ctx.FileShape config.1.disk config.2 ∧
            ctx.Reusing oldData (world.disk.read ctx.stagingPlace) config.1.disk config.2 → True →
          ctx.machine.step config move = some next →
            ctx.FileShape next.1.disk next.2 ∧
              ctx.Reusing oldData (world.disk.read ctx.stagingPlace) next.1.disk next.2 := by
        intro config move next hconfig _ hstep
        exact ⟨hconfig.1.step hstep, hconfig.2.step hlayout hapart hconfig.1 hstep⟩
      obtain ⟨hshape, hreusing⟩ := ctx.machine.run_invariant hstep (fun _ _ => trivial)
        ⟨FileShape.initial, .initial hfinal rfl⟩ hrun
      have hreused : ctx.Reused oldData (world.disk.read ctx.stagingPlace) world'.disk state' := by
        unfold Reusing at hreusing
        rwa [hok] at hreusing
      exact hreused.sound_iff hlayout hdistinct hfinal rfl hshape
  | none =>
      have hsound : ctx.Sound (ctx.checkedAssembly none (world.disk.read ctx.stagingPlace)) :=
        checked_sound hlayout hapart (.inr hdistinct) (by simp) (by simp)
      have hstep : ∀ (config : FileConfig) (move : FileMove) (next : FileConfig),
          (ctx.FileShape config.1.disk config.2 ∧ ctx.FileContent
            (ctx.checkedAssembly none (world.disk.read ctx.stagingPlace)) config.1.disk config.2 ∧
              ctx.AllFetched config.2) → True → ctx.machine.step config move = some next →
            ctx.FileShape next.1.disk next.2 ∧ ctx.FileContent
              (ctx.checkedAssembly none (world.disk.read ctx.stagingPlace)) next.1.disk next.2 ∧
                ctx.AllFetched next.2 := by
        intro config move next hconfig _ hstep
        exact ⟨hconfig.1.step hstep, hconfig.2.1.step hsound hconfig.1 hstep,
          .step rfl hconfig.2.1 hconfig.1 hstep⟩
      obtain ⟨hshape, hcontent, hfetched⟩ := ctx.machine.run_invariant hstep (fun _ _ => trivial)
        ⟨FileShape.initial, .initial hfinal rfl, by simp [AllFetched, FileState.initial]⟩ hrun
      refine ⟨fun _ => .inr (.inr (by simp [hfinal])), fun _ => ⟨?_, ?_⟩⟩
      · intro chunk hmem _
        obtain ⟨data, hread, hcomplete⟩ := hcontent.result hok
        exact ⟨data, hread, (valid_of_complete hlayout hcomplete).2 chunk hmem⟩
      · intro hopened index chunk hchunk _ hnotFound hnotFetched
        rcases hfetched hok hopened index chunk hchunk with
          ⟨chunkId, hfound, hid⟩ | ⟨task, htask, heq⟩
        · exact absurd hid (hnotFound chunkId hfound)
        · exact absurd heq (hnotFetched task htask)

/-- The file of eight bytes after an update: the previous version had its chunk at
offset zero. -/
def updatedFile : FileContext :=
  { sampleFile with
    task := { sampleFile.task with
      oldChunks := some [⟨some ⟨.replicate 20 7⟩, some 0x62A021C, some 0, some 32, some 5⟩] } }

/-- A disk with some bytes as the previous version. -/
def previousVersion (oldData : Bytes) : World where
  disk := ((FileTree.empty.openTruncate updatedFile.finalPlace).1.store 0 oldData)
  log := []

theorem updatedFile_layout : Layout updatedFile.task.size updatedFile.task.chunks 8 where
  size := rfl
  complete chunk hmem := by
    rw [List.mem_singleton.mp hmem]
    exact ⟨rfl, rfl, 2, 5, rfl, rfl, by decide⟩
  disjoint := List.pairwise_singleton _ _

theorem updatedFile_distinct : DistinctIds updatedFile.task.chunks := by
  intro chunk hmem chunk' hmem' _
  rw [List.mem_singleton.mp hmem, List.mem_singleton.mp hmem']

theorem updatedFile_listed {chunk : ManifestChunk} (hmem : chunk ∈ updatedFile.task.chunks) :
    updatedFile.Listed chunk := by
  rw [List.mem_singleton.mp hmem]
  exact ⟨_, rfl, by decide⟩

/-- The chunk is read from the previous version and written at its new offset. -/
theorem deltaReuse_sound_iff_sample :
    ∃ world' state', updatedFile.machine.run
        (previousVersion [100, 101, 112, 111, 116], .initial)
          (List.replicate 13 ⟨.main, none⟩) = some (world', state') ∧
      state'.stage = .done (.ok ()) ∧
      updatedFile.DeltaSound (previousVersion [100, 101, 112, 111, 116]).disk world'.disk
        state' := by
  have hany : (updatedFile.machine.run (previousVersion [100, 101, 112, 111, 116], .initial)
      (List.replicate 13 ⟨.main, none⟩)).any
        (fun config => config.2.stage == .done (.ok ())) = true := by decide
  obtain ⟨⟨world', state'⟩, hrun, hdone⟩ := Machine.exists_of_run_any _ hany
  have hstage : state'.stage = .done (.ok ()) := by simpa using hdone
  refine ⟨world', state', hrun, hstage, ?_⟩
  apply (deltaReuse_sound_iff updatedFile_layout updatedFile_distinct (by decide) hrun hstage).mpr
  refine .inr (.inr ?_)
  intro oldData hread index chunk hchunk _
  obtain rfl : [100, 101, 112, 111, 116] = oldData := Option.some.inj hread
  obtain ⟨rfl, rfl⟩ : index = 0 ∧ updatedFile.task.chunks[0] = chunk := by
    cases index with
    | zero => exact ⟨rfl, Option.some.inj hchunk⟩
    | succ index => cases hchunk
  refine .inr ?_
  exact ⟨rfl, by decide⟩

/-- The previous version has lost its last byte. The copy loop cannot read the
chunk, no task fetches it, and a file without it is installed. -/
theorem truncated_version_reused :
    Layout updatedFile.task.size updatedFile.task.chunks 8 ∧
    DistinctIds updatedFile.task.chunks ∧
    ∃ world' state', updatedFile.machine.run (previousVersion [100, 101, 112, 111], .initial)
          (List.replicate 13 ⟨.main, none⟩) = some (world', state') ∧
      state'.stage = .done (.ok ()) ∧
      world'.disk.read updatedFile.finalPlace = some (List.replicate 8 0) ∧
      ¬ updatedFile.DeltaSound (previousVersion [100, 101, 112, 111]).disk world'.disk state' := by
  have hany : (updatedFile.machine.run (previousVersion [100, 101, 112, 111], .initial)
      (List.replicate 13 ⟨.main, none⟩)).any (fun config =>
        config.2.stage == .done (.ok ()) &&
          config.1.disk.read updatedFile.finalPlace == some (List.replicate 8 0)) = true := by
    decide
  obtain ⟨⟨world', state'⟩, hrun, hfound⟩ := Machine.exists_of_run_any _ hany
  obtain ⟨hdone, hread⟩ := Bool.and_eq_true_iff.mp hfound
  refine ⟨updatedFile_layout, updatedFile_distinct, world', state', hrun, by simpa using hdone,
    by simpa using hread, ?_⟩
  intro hsound
  obtain ⟨data, hdata, hvalid⟩ :=
    hsound.installed _ List.mem_cons_self (updatedFile_listed List.mem_cons_self)
  rw [beq_iff_eq.mp hread, Option.some.injEq] at hdata
  subst hdata
  revert hvalid
  decide

/-- A read that fails on a whole previous version ends alike. -/
example :
    let unread : FileContext :=
      { updatedFile with silent := { SilentFailures.none with oldChunk := fun _ => true } }
    (unread.machine.run (previousVersion [100, 101, 112, 111, 116], .initial)
      (List.replicate 13 ⟨.main, none⟩)).any (fun config => config.2.stage == .done (.ok ()) &&
        config.1.disk.read updatedFile.finalPlace == some (List.replicate 8 0)) = true := by
  decide

end FileContext

end DepotDownloader.SteamClient
