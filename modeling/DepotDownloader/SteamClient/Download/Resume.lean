import DepotDownloader.SteamClient.Download.WriteHistory

/-! # Resuming an interrupted download

The check of a resumed staging file goes chunk by chunk, the loop that spawns the
chunk tasks looks identifiers up. Over disjoint regions the chunks that are
spawned end up valid and the others stay as they were found, so a resumed
download is right exactly when no chunk found bad shares its identifier with one
found valid.
-/

namespace DepotDownloader.SteamClient

open Foundation Foundation.LexPath Steam

namespace FileContext

variable (ctx : FileContext)

/-- The chunk at an index of a resumed staging file is found valid. -/
structure FoundValid (data : Bytes) (index : Nat) (chunk : ManifestChunk) : Prop where
  read : ctx.silent.staging.chunk index = false
  valid : chunkValid data chunk = true

/-- No chunk that the bytes lack shares its identifier with one that is found valid. -/
def BadApart (data : Bytes) : Prop :=
  ∀ chunk ∈ ctx.task.chunks, ∀ index other, ctx.task.chunks[index]? = some other →
    chunk.id = other.id → ctx.FoundValid data index other → chunkValid data chunk = true

/-- No chunk that is found bad shares its identifier with one that is found valid. -/
def ReportedApart (data : Bytes) : Prop :=
  ∀ index chunk, ctx.task.chunks[index]? = some chunk →
    ∀ otherIndex other, ctx.task.chunks[otherIndex]? = some other →
      chunk.id = other.id → ctx.FoundValid data otherIndex other → ctx.FoundValid data index chunk

/-- The final file is found valid, or the staging file is not resumed, or the
chunks that it lacks share no identifier with those found valid. -/
def ResumesSafely (start : Disk) : Prop :=
  ctx.finalValid start = true ∨
  ∀ data, ctx.resumable (start.read ctx.stagingPlace) = some data → ctx.BadApart data

/-- The final file is found valid, or the staging file is not resumed, or the
chunks found bad in it share no identifier with those found valid. -/
def RewritesSafely (start : Disk) : Prop :=
  ctx.finalValid start = true ∨
  ∀ data, ctx.resumable (start.read ctx.stagingPlace) = some data → ctx.ReportedApart data

/-- Every chunk index found bad in a resumed staging file has been fetched and
written. -/
def RewritesBad (start : Disk) (state : FileState) : Prop :=
  ctx.finalValid start = false →
  ∀ data, ctx.resumable (start.read ctx.stagingPlace) = some data →
    ∀ index ∈ verifyChunks data ctx.task.chunks ctx.silent.staging, state.HasWritten index

variable {ctx} {start disk : Disk} {order : List Nat} {index length : Nat} {data : Bytes}
  {chunk : ManifestChunk} {world world' : World} {state state' : FileState}

theorem mem_seenValid {chunkId : ChunkId} : chunkId ∈ ctx.seenValid data ↔
    ∃ index chunk, ctx.task.chunks[index]? = some chunk ∧ ctx.FoundValid data index chunk ∧
      chunk.id = some chunkId := by
  rw [seenValid, mem_validChunkIds]
  constructor
  · rintro ⟨index, chunk, hchunk, hread, hvalid, hid⟩
    exact ⟨index, chunk, hchunk, ⟨hread, hvalid⟩, hid⟩
  · rintro ⟨index, chunk, hchunk, hfound, hid⟩
    exact ⟨index, chunk, hchunk, hfound.read, hfound.valid, hid⟩

/-- A chunk is reported bad exactly when it is not found valid. -/
theorem foundValid_iff_notMem (hchunk : ctx.task.chunks[index]? = some chunk) :
    ctx.FoundValid data index chunk ↔
      index ∉ verifyChunks data ctx.task.chunks ctx.silent.staging := by
  rw [mem_verifyChunks]
  constructor
  · rintro hfound ⟨other, hother, hbad⟩
    rw [hchunk, Option.some.injEq] at hother
    subst hother
    rcases hbad with hfailing | hinvalid
    · rw [hfound.read] at hfailing
      cases hfailing
    · rw [hfound.valid] at hinvalid
      cases hinvalid
  · intro hgood
    simp only [not_exists, not_and, not_or, Bool.not_eq_true, Bool.not_eq_false] at hgood
    exact ⟨(hgood chunk hchunk).1, (hgood chunk hchunk).2⟩

/-- A chunk that is found bad although its bytes are right is one that cannot be read. -/
theorem ReportedApart.badApart (hapart : ctx.ReportedApart data) : ctx.BadApart data := by
  intro chunk hmem otherIndex other hother heq hgood
  obtain ⟨index, hindex⟩ := List.mem_iff_getElem?.mp hmem
  exact (hapart index chunk hindex otherIndex other hother heq hgood).valid

/-- When every chunk of the staging file can be read, what is found bad is bad. -/
theorem rewritesSafely_iff (hread : ∀ index, ctx.silent.staging.chunk index = false) :
    ctx.RewritesSafely start ↔ ctx.ResumesSafely start := by
  refine or_congr_right (forall₂_congr fun data _ => ⟨ReportedApart.badApart, ?_⟩)
  intro hapart index chunk hchunk otherIndex other hother heq hgood
  exact ⟨hread index, hapart chunk (List.mem_of_getElem? hchunk) otherIndex other hother heq hgood⟩

section Layout

variable (hlayout : Layout ctx.task.size ctx.task.chunks length)

include hlayout

/-- Every write of a chunk fits into the prepared staging file. -/
theorem placedWrites_fit (staging : Option Bytes) :
    ∀ write ∈ order.filterMap ctx.placedWrite,
      Bytes.Fits (ctx.prepared staging).length write.1 write.2 := by
  intro write hmem
  obtain ⟨index, _, hwrite⟩ := List.mem_filterMap.mp hmem
  obtain ⟨chunk, hchunk, hoffset, hdelivered⟩ := placedWrite_eq_some.mp hwrite
  obtain ⟨hsize, _⟩ := delivered_ok hchunk hdelivered
  obtain ⟨offset, size, hoffset', hsize', hle⟩ :=
    (hlayout.complete chunk (List.mem_of_getElem? hchunk)).region
  have hprepared : ctx.task.size = some (ctx.prepared staging).length := prepared_length hlayout
  have hlength := hlayout.size.symm.trans hprepared
  rw [Option.some.injEq] at hlength
  rw [hoffset, Option.some.injEq] at hoffset'
  rw [hsize, Option.some.injEq] at hsize'
  exact .inr (by omega)

theorem assembledBy_length :
    ctx.task.size = some (ctx.assembledBy start order).length := by
  unfold assembledBy
  rw [Bytes.length_overlay_iff.mpr (placedWrites_fit hlayout _)]
  exact prepared_length hlayout

/-- The chunks that are skipped are those whose identifier some valid chunk has. -/
theorem badApart_iff : ctx.BadApart data ↔ ∀ chunk ∈ ctx.task.chunks, ∀ chunkId,
    chunk.id = some chunkId → chunkId ∈ ctx.seenValid data → chunkValid data chunk = true := by
  constructor
  · intro hapart chunk hmem chunkId hid hfound
    obtain ⟨index, other, hother, hgood, hotherId⟩ := mem_seenValid.mp hfound
    exact hapart chunk hmem index other hother (hid.trans hotherId.symm) hgood
  · intro hskipped chunk hmem index other hother heq hgood
    obtain ⟨chunkId, hid⟩ := Option.isSome_iff_exists.mp (hlayout.complete chunk hmem).id
    exact hskipped chunk hmem chunkId hid
      (mem_seenValid.mpr ⟨index, other, hother, hgood, heq.symm.trans hid⟩)

theorem reportedApart_iff : ctx.ReportedApart data ↔
    ∀ index chunk, ctx.task.chunks[index]? = some chunk → ∀ chunkId, chunk.id = some chunkId →
      chunkId ∈ ctx.seenValid data → ctx.FoundValid data index chunk := by
  constructor
  · intro hapart index chunk hchunk chunkId hid hfound
    obtain ⟨otherIndex, other, hother, hgood, hotherId⟩ := mem_seenValid.mp hfound
    exact hapart index chunk hchunk otherIndex other hother (hid.trans hotherId.symm) hgood
  · intro hskipped index chunk hchunk otherIndex other hother heq hgood
    obtain ⟨chunkId, hid⟩ :=
      Option.isSome_iff_exists.mp (hlayout.complete chunk (List.mem_of_getElem? hchunk)).id
    exact hskipped index chunk hchunk chunkId hid
      (mem_seenValid.mpr ⟨otherIndex, other, hother, hgood, heq.symm.trans hid⟩)

/-- The chunks written are those whose identifiers were not found valid. -/
theorem Written.mem_iff (hwritten : ctx.Written start order ctx.task.chunks.length state)
    (hshape : ctx.FileShape disk state)
    (hdone : ∀ chunkTask ∈ state.chunkTasks, chunkTask.stage = .done (.ok ()))
    {chunkId : ChunkId} (hchunk : ctx.task.chunks[index]? = some chunk)
    (hid : chunk.id = some chunkId) :
    index ∈ order ↔ chunkId ∉ ctx.foundValid (start.read ctx.stagingPlace) := by
  obtain ⟨_, _, hoffset, _⟩ := (hlayout.complete chunk (List.mem_of_getElem? hchunk)).region
  rw [(hwritten.complete hshape hdone).2.mem_iff, List.mem_filter, mem_queue]
  constructor
  · rintro ⟨⟨other, otherId, hother, hotherId, hnot⟩, _⟩
    rw [hchunk, Option.some.injEq] at hother
    rw [← hother, hid, Option.some.injEq] at hotherId
    rwa [hotherId]
  · intro hnot
    exact ⟨⟨chunk, chunkId, hchunk, hid, hnot⟩, by simp [placed, hchunk, hoffset]⟩

/-- After all writes every chunk is valid exactly when the staging file was
resumed safely. -/
theorem Written.valid_iff (hwritten : ctx.Written start order ctx.task.chunks.length state)
    (hshape : ctx.FileShape disk state)
    (hdone : ∀ chunkTask ∈ state.chunkTasks, chunkTask.stage = .done (.ok ())) :
    (∀ chunk ∈ ctx.task.chunks, chunkValid (ctx.assembledBy start order) chunk = true) ↔
      ∀ data, ctx.resumable (start.read ctx.stagingPlace) = some data → ctx.BadApart data := by
  obtain ⟨hdelivered, hperm⟩ := hwritten.complete hshape hdone
  have horder : ∀ index ∈ order, (ctx.delivered index).isSome := by
    intro index hmem
    exact (hdelivered index (List.mem_filter.mp (hperm.mem_iff.mp hmem)).1).1
  have hvalid {index : Nat} {chunk : ManifestChunk}
      (hchunk : ctx.task.chunks[index]? = some chunk) :
      chunkValid (ctx.assembledBy start order) chunk = true ↔ index ∈ order ∨
        chunkValid (ctx.prepared (start.read ctx.stagingPlace)) chunk = true := by
    obtain ⟨_, _, hoffset, _⟩ := (hlayout.complete chunk (List.mem_of_getElem? hchunk)).region
    exact chunkValid_overlay hlayout.disjoint hwritten.nodup horder (placedWrites_fit hlayout _)
      hchunk (by simp [hoffset])
  constructor
  · intro hall data hresumable
    have hprepared : ctx.prepared (start.read ctx.stagingPlace) = data := by
      rw [prepared, hresumable, Option.getD_some]
    refine (badApart_iff hlayout).mpr fun chunk hmem chunkId hid hfound => ?_
    obtain ⟨index, hindex⟩ := List.mem_iff_getElem?.mp hmem
    have hskipped : index ∉ order := by
      rw [hwritten.mem_iff hlayout hshape hdone hindex hid, not_not, foundValid, hresumable]
      exact hfound
    exact hprepared ▸ ((hvalid hindex).mp (hall chunk hmem)).resolve_left hskipped
  · intro hsafe chunk hmem
    obtain ⟨index, hindex⟩ := List.mem_iff_getElem?.mp hmem
    obtain ⟨chunkId, hid⟩ := Option.isSome_iff_exists.mp (hlayout.complete chunk hmem).id
    refine (hvalid hindex).mpr ?_
    rw [hwritten.mem_iff hlayout hshape hdone hindex hid, prepared, foundValid]
    cases hresumable : ctx.resumable (start.read ctx.stagingPlace) with
    | none => exact .inl (by simp)
    | some data =>
        refine or_iff_not_imp_left.mpr fun hfound => ?_
        exact (badApart_iff hlayout).mp (hsafe data hresumable) chunk hmem chunkId hid
          (not_not.mp hfound)

/-- The chunks found bad have all been written exactly when none of them was skipped. -/
theorem Written.rewrites_iff (hwritten : ctx.Written start order ctx.task.chunks.length state)
    (hshape : ctx.FileShape disk state)
    (hdone : ∀ chunkTask ∈ state.chunkTasks, chunkTask.stage = .done (.ok ())) :
    ctx.RewritesBad start state ↔
      ∀ data, ctx.resumable (start.read ctx.stagingPlace) = some data → ctx.ReportedApart data := by
  constructor
  · intro hrewrites data hresumable
    refine (reportedApart_iff hlayout).mpr fun index chunk hchunk chunkId hid hfound => ?_
    rw [foundValid_iff_notMem hchunk]
    intro hbad
    have hwrote := hrewrites hwritten.invalid data hresumable index hbad
    rw [← hwritten.mem, hwritten.mem_iff hlayout hshape hdone hchunk hid, foundValid,
      hresumable] at hwrote
    exact hwrote hfound
  · intro hsafe _ data hresumable index hbad
    obtain ⟨chunk, hchunk, _⟩ := mem_verifyChunks.mp hbad
    obtain ⟨chunkId, hid⟩ :=
      Option.isSome_iff_exists.mp (hlayout.complete chunk (List.mem_of_getElem? hchunk)).id
    rw [← hwritten.mem, hwritten.mem_iff hlayout hshape hdone hchunk hid, foundValid, hresumable]
    intro hfound
    have hgood := (reportedApart_iff hlayout).mp (hsafe data hresumable) index chunk hchunk chunkId
      hid hfound
    exact (foundValid_iff_notMem hchunk).mp hgood hbad

/-- A download without a previous version that returns Ok has left a valid file if and
only if the final file was found valid or no chunk that the staging file lacks shares
its identifier with one found valid there. It has fetched and written every chunk found
bad if and only if none of these shares its identifier with one found valid, which is the
same unless a read of the staging file has failed. -/
theorem resume_sound_iff (hnone : ctx.task.oldChunks = none) {moves : List FileMove}
    (hrun : ctx.machine.run (world, .initial) moves = some (world', state'))
    (hok : state'.stage = .done (.ok ())) :
    (fileHasValidChunks world'.disk ctx.finalPlace ctx.task.size ctx.task.chunks = true ↔
      ctx.ResumesSafely world.disk) ∧
    (ctx.RewritesBad world.disk state' ↔ ctx.RewritesSafely world.disk) ∧
    ((∀ index, ctx.silent.staging.chunk index = false) →
      (ctx.RewritesSafely world.disk ↔ ctx.ResumesSafely world.disk)) := by
  rw [← and_assoc]
  refine ⟨?_, rewritesSafely_iff⟩
  obtain ⟨hshape, order, hended⟩ := history_of_run hnone hrun hok
  cases hended with
  | valid hvalid hread =>
      refine ⟨iff_of_true ?_ (.inl hvalid), iff_of_true ?_ (.inl hvalid)⟩
      · rw [fileHasValidChunks_congr hread]
        exact fileHasValidChunks_of_failing hvalid
      · intro hinvalid
        rw [hvalid] at hinvalid
        cases hinvalid
  | @finished data hresumable hall hread =>
      have hchunks := chunkValid_of_validChunkIds_length hall
      have hgood := verifyChunks_of_validChunkIds_length hall
      have hreported : ctx.RewritesSafely world.disk := by
        refine .inr fun other hother index chunk hchunk _ _ _ _ _ => ?_
        rw [hresumable, Option.some.injEq] at hother
        rw [← hother, foundValid_iff_notMem hchunk, hgood]
        exact List.not_mem_nil
      have hsafe : ctx.ResumesSafely world.disk :=
        hreported.imp_right fun hapart data hdata => (hapart data hdata).badApart
      refine ⟨iff_of_true ?_ hsafe, iff_of_true ?_ hreported⟩
      · exact fileHasValidChunks_iff.mpr
          ⟨data, hread, (resumable_eq_some.mp hresumable).2, hchunks⟩
      · intro _ other hother index hindex
        rw [hresumable, Option.some.injEq] at hother
        rw [← hother, hgood] at hindex
        cases hindex
  | written hwritten hread =>
      have hdone := hshape.complete (.inr hok)
      have hmissed {safe : Prop} : ctx.finalValid world.disk = true ∨ safe ↔ safe :=
        or_iff_right (by simp [hwritten.invalid])
      rw [ResumesSafely, RewritesSafely, hmissed, hmissed]
      refine ⟨?_, hwritten.rewrites_iff hlayout hshape hdone⟩
      rw [← hwritten.valid_iff hlayout hshape hdone, fileHasValidChunks_iff]
      constructor
      · rintro ⟨data, hdata, _, hall⟩
        rw [hread, Option.some.injEq] at hdata
        exact hdata ▸ hall
      · intro hall
        exact ⟨_, hread, assembledBy_length hlayout, hall⟩

end Layout

/-- The bytes `depot` twice in a file of ten bytes: two chunks with one identifier. -/
def repeatedFile : FileContext :=
  { sampleFile with
    task := { sampleFile.task with
      size := some 10
      chunks :=
        [⟨some ⟨.replicate 20 7⟩, some 0x62A021C, some 0, some 32, some 5⟩,
          ⟨some ⟨.replicate 20 7⟩, some 0x62A021C, some 5, some 32, some 5⟩] } }

/-- A disk with some bytes in the staging file. -/
def interrupted (data : Bytes) : World where
  disk := (FileTree.empty.openTruncate repeatedFile.stagingPlace).1.store 0 data
  log := []

theorem repeatedFile_layout : Layout repeatedFile.task.size repeatedFile.task.chunks 10 where
  size := rfl
  complete chunk hmem := by
    rcases List.mem_cons.mp hmem with rfl | hmem
    · exact ⟨rfl, rfl, 0, 5, rfl, rfl, by decide⟩
    · rw [List.mem_singleton.mp hmem]
      exact ⟨rfl, rfl, 5, 5, rfl, rfl, by decide⟩
  disjoint := by
    refine List.pairwise_pair.mpr ?_
    rintro _ _ _ _ ⟨⟩ ⟨⟩ ⟨⟩ ⟨⟩ position hin hin'
    unfold Bytes.InRegion at hin hin'
    omega

/-- Neither chunk is found in a staging file of zero bytes, and both are
fetched. -/
theorem resume_sound_iff_sample :
    ∃ world' state', repeatedFile.machine.run (interrupted (List.replicate 10 0), .initial)
        (List.replicate 9 ⟨.main, none⟩ ++ List.replicate 6 ⟨.chunk 1, none⟩ ++
          List.replicate 6 ⟨.chunk 0, none⟩ ++ List.replicate 4 ⟨.main, none⟩) =
            some (world', state') ∧
      state'.stage = .done (.ok ()) ∧
      fileHasValidChunks world'.disk repeatedFile.finalPlace repeatedFile.task.size
        repeatedFile.task.chunks = true ∧
      repeatedFile.RewritesBad (interrupted (List.replicate 10 0)).disk state' := by
  have hany : (repeatedFile.machine.run (interrupted (List.replicate 10 0), .initial)
      (List.replicate 9 ⟨.main, none⟩ ++ List.replicate 6 ⟨.chunk 1, none⟩ ++
        List.replicate 6 ⟨.chunk 0, none⟩ ++ List.replicate 4 ⟨.main, none⟩)).any
          (fun config => config.2.stage == .done (.ok ())) = true := by decide +kernel
  obtain ⟨⟨world', state'⟩, hrun, hdone⟩ := Machine.exists_of_run_any _ hany
  have hstage : state'.stage = .done (.ok ()) := by simpa using hdone
  have hsafe : repeatedFile.ResumesSafely (interrupted (List.replicate 10 0)).disk := by
    refine .inr fun data hresumable chunk _ index other hother _ hfound => ?_
    obtain rfl : List.replicate 10 0 = data := Option.some.inj hresumable
    have hbad : ∀ other ∈ repeatedFile.task.chunks,
        chunkValid (List.replicate 10 0) other = false := by decide
    have hvalid := hfound.valid
    rw [hbad other (List.mem_of_getElem? hother)] at hvalid
    cases hvalid
  obtain ⟨hvalid, hrewrites, hsame⟩ := resume_sound_iff repeatedFile_layout rfl hrun hstage
  exact ⟨world', state', hrun, hstage, hvalid.mpr hsafe,
    hrewrites.mpr ((hsame fun _ => rfl).mpr hsafe)⟩

/-- The first chunk is in the staging file and the second is not. Its identifier
counts as valid, no task fetches it, and the file is installed without it. -/
theorem repeated_chunk_skipped :
    Layout repeatedFile.task.size repeatedFile.task.chunks 10 ∧
    repeatedFile.task.oldChunks = none ∧
    (interrupted [100, 101, 112, 111, 116, 0, 0, 0, 0, 0]).disk.read repeatedFile.stagingPlace =
      some [100, 101, 112, 111, 116, 0, 0, 0, 0, 0] ∧
    verifyChunks [100, 101, 112, 111, 116, 0, 0, 0, 0, 0] repeatedFile.task.chunks = [1] ∧
    ∃ world' state', repeatedFile.machine.run
        (interrupted [100, 101, 112, 111, 116, 0, 0, 0, 0, 0], .initial)
          (List.replicate 11 ⟨.main, none⟩) = some (world', state') ∧
      state'.stage = .done (.ok ()) ∧ state'.chunkTasks = [] ∧
      fileHasValidChunks world'.disk repeatedFile.finalPlace repeatedFile.task.size
        repeatedFile.task.chunks = false := by
  have hany : (repeatedFile.machine.run
      (interrupted [100, 101, 112, 111, 116, 0, 0, 0, 0, 0], .initial)
        (List.replicate 11 ⟨.main, none⟩)).any (fun config =>
          config.2.stage == .done (.ok ()) && config.2.chunkTasks.isEmpty &&
            !fileHasValidChunks config.1.disk repeatedFile.finalPlace repeatedFile.task.size
              repeatedFile.task.chunks) = true := by decide +kernel
  obtain ⟨⟨world', state'⟩, hrun, hfound⟩ := Machine.exists_of_run_any _ hany
  simp only [Bool.and_eq_true, beq_iff_eq, List.isEmpty_iff, Bool.not_eq_true'] at hfound
  exact ⟨repeatedFile_layout, rfl, by decide, by decide, world', state', hrun, hfound.1.1,
    hfound.1.2, hfound.2⟩

end FileContext

end DepotDownloader.SteamClient
