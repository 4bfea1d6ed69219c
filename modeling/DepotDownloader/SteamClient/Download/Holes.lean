import DepotDownloader.SteamClient.Download.WriteOrder

/-! # Incomplete manifests

The download skips a chunk without an identifier, fetches one without an offset
and drops its data, and fails on one without a size or a checksum. The check of
a file counts the last three as bad and does not look at identifiers. So a fresh
download may return Ok and leave a hole. It never does when every chunk that is
fetched is placed inside the file and the others are right without being fetched,
or when some chunk is not delivered and nothing is reported as complete.
-/

namespace DepotDownloader.SteamClient

open Foundation Foundation.LexPath Steam

namespace FileContext

variable (ctx : FileContext)

/-- Every download from a world that returns Ok leaves a valid file. -/
def InstallsValid (world : World) : Prop :=
  ∀ moves world' state', ctx.machine.run (world, .initial) moves = some (world', state') →
    state'.stage = .done (.ok ()) →
      fileHasValidChunks world'.disk ctx.finalPlace ctx.task.size ctx.task.chunks = true

/-- The bytes that the writes of an order leave in a fresh file. -/
def freshBytes (order : List Nat) : Bytes :=
  Bytes.overlay (ctx.prepared none) (order.filterMap ctx.placedWrite)

/-- No write extends the file, and after the writes in any order every chunk is
valid, be it one that was fetched or not. -/
structure Seamless : Prop where
  inside : ∀ index ∈ ctx.writeQueue, ∀ write, ctx.placedWrite index = some write →
    Bytes.Fits (ctx.prepared none).length write.1 write.2
  restored : ∀ order : List Nat, order.Perm ctx.writeQueue →
    ∀ chunk ∈ ctx.task.chunks, chunkValid (ctx.freshBytes order) chunk = true

/-- A chunk with an identifier has an offset and lies inside a file of that
length, one without is valid in a file of zero bytes. -/
structure NoHoles (length : Nat) : Prop where
  placed : ∀ chunk ∈ ctx.task.chunks, chunk.id.isSome → ∃ offset, chunk.offset = some offset ∧
    ∀ size, chunk.uncompressedSize = some size → size = 0 ∨ offset + size ≤ length
  blank : ∀ chunk ∈ ctx.task.chunks, chunk.id = none →
    chunkValid (List.replicate length 0) chunk = true

variable {ctx} {world : World} {order : List Nat} {index length : Nat} {chunk : ManifestChunk}

theorem prepared_none (hsize : ctx.task.size = some length) :
    ctx.prepared none = List.replicate length 0 := by
  rw [prepared, resumable_none, hsize]
  exact Bytes.resize_nil length

theorem mem_queue_nil : index ∈ ctx.queue [] ctx.task.chunks.length ↔
    ∃ chunk, ctx.task.chunks[index]? = some chunk ∧ chunk.id.isSome := by
  rw [mem_queue]
  constructor
  · rintro ⟨chunk, chunkId, hchunk, hid, _⟩
    exact ⟨chunk, hchunk, by simp [hid]⟩
  · rintro ⟨chunk, hchunk, hid⟩
    obtain ⟨chunkId, hid⟩ := Option.isSome_iff_exists.mp hid
    exact ⟨chunk, chunkId, hchunk, hid, by simp⟩

/-- The writes of an order are those of the queue. -/
theorem placedWrites_fit_iff (horder : order.Perm ctx.writeQueue) :
    (∀ write ∈ order.filterMap ctx.placedWrite, Bytes.Fits length write.1 write.2) ↔
      ∀ index ∈ ctx.writeQueue, ∀ write, ctx.placedWrite index = some write →
        Bytes.Fits length write.1 write.2 := by
  constructor
  · intro hfits index hindex write hwrite
    exact hfits write (List.mem_filterMap.mpr ⟨index, horder.mem_iff.mpr hindex, hwrite⟩)
  · intro hfits write hmem
    obtain ⟨index, hindex, hwrite⟩ := List.mem_filterMap.mp hmem
    exact hfits index (horder.mem_iff.mp hindex) write hwrite

/-- Every fresh download that returns Ok leaves a valid file exactly when some
chunk is not delivered, so that none returns Ok, or the writes restore the file
in every order. -/
theorem installsValid_iff_seamless (hnone : ctx.task.oldChunks = none)
    (hsize : ctx.task.size = some length) (hstaging : world.disk.read ctx.stagingPlace = none)
    (hfinal : world.disk.read ctx.finalPlace = none) :
    ctx.InstallsValid world ↔ ctx.Undelivered ∨ ctx.Seamless := by
  have hinvalid : ctx.finalValid world.disk = false := by
    rw [Bool.eq_false_iff, Ne, fileHasValidChunks_iff_of_failing]
    rintro ⟨_, data, hread, _⟩
    rw [hfinal] at hread
    cases hread
  have hfresh (order : List Nat) : ctx.assembledBy world.disk order = ctx.freshBytes order := by
    rw [assembledBy, hstaging, freshBytes]
  have hlength : ctx.task.size = some (ctx.prepared none).length := by
    rw [prepared_none hsize, hsize, List.length_replicate]
  constructor
  -- every order of the writes is that of some run, so each of them has to restore the file
  · intro hinstalls
    refine or_iff_not_imp_left.mpr fun hdelivered => ?_
    have hvalid {order : List Nat} (horder : order.Perm ctx.writeQueue) :
        (ctx.freshBytes order).length = (ctx.prepared none).length ∧
          ∀ chunk ∈ ctx.task.chunks, chunkValid (ctx.freshBytes order) chunk = true := by
      obtain ⟨moves, world', state', hrun, hok, hread⟩ :=
        exists_run_in_order hnone hstaging hinvalid hdelivered horder
      obtain ⟨data, hdata, hdataSize, hall⟩ :=
        fileHasValidChunks_iff.mp (hinstalls moves world' state' hrun hok)
      rw [hread, hfresh, Option.some.injEq] at hdata
      subst hdata
      rw [hlength, Option.some.injEq] at hdataSize
      exact ⟨hdataSize.symm, hall⟩
    refine ⟨?_, fun order horder => (hvalid horder).2⟩
    exact (placedWrites_fit_iff (.refl _)).mp (Bytes.length_overlay_iff.mp (hvalid (.refl _)).1)
  -- the history of a run is one of the orders
  · intro hcondition moves world' state' hrun hok
    obtain ⟨hshape, order, hended⟩ := history_of_run hnone hrun hok
    cases hended with
    | valid hvalid =>
        rw [hinvalid] at hvalid
        cases hvalid
    | finished hresumable =>
        rw [hstaging, resumable_none] at hresumable
        cases hresumable
    | written hwritten hread =>
        obtain ⟨hdelivered, hperm⟩ := hwritten.complete hshape (hshape.complete (.inr hok))
        rw [hstaging, foundValid_none] at hdelivered hperm
        rcases hcondition with ⟨index, hindex, hmissing⟩ | hseamless
        · have hgot := (hdelivered index hindex).1
          rw [hmissing] at hgot
          cases hgot
        · have hfits := (placedWrites_fit_iff hperm).mpr hseamless.inside
          refine fileHasValidChunks_iff.mpr ⟨_, hread, ?_, ?_⟩
          · rw [hfresh, freshBytes, Bytes.length_overlay_iff.mpr hfits]
            exact hlength
          · rw [hfresh]
            exact hseamless.restored order hperm

section Disjoint

variable (hsize : ctx.task.size = some length) (hdisjoint : ctx.task.chunks.Pairwise RegionsApart)
  (hdelivered : ¬ ctx.Undelivered)

include hdelivered in
theorem delivered_of_mem_queue (hindex : index ∈ ctx.queue [] ctx.task.chunks.length) :
    ∃ data, ctx.delivered index = some data := by
  refine Option.ne_none_iff_exists'.mp fun hmissing => ?_
  exact hdelivered ⟨index, hindex, hmissing⟩

include hsize hdisjoint hdelivered

/-- Over disjoint regions the order of the writes does not matter: a chunk is valid
when it is written, or valid in a file of zero bytes. -/
theorem chunkValid_freshBytes (horder : order.Perm ctx.writeQueue)
    (hinside : ∀ index ∈ ctx.writeQueue, ∀ write, ctx.placedWrite index = some write →
      Bytes.Fits (ctx.prepared none).length write.1 write.2)
    (hchunk : ctx.task.chunks[index]? = some chunk) (hoffset : chunk.offset.isSome) :
    chunkValid (ctx.freshBytes order) chunk = true ↔
      index ∈ ctx.writeQueue ∨ chunkValid (List.replicate length 0) chunk = true := by
  rw [← horder.mem_iff, ← prepared_none hsize]
  refine chunkValid_overlay hdisjoint ?_ ?_ ((placedWrites_fit_iff horder).mpr hinside) hchunk
    hoffset
  · exact horder.nodup_iff.mpr ((queue_nodup _ _).filter _)
  · intro other hother
    have hqueued := (List.mem_filter.mp (horder.mem_iff.mp hother)).1
    obtain ⟨data, hdata⟩ := delivered_of_mem_queue hdelivered hqueued
    simp [hdata]

theorem Seamless.noHoles (hseamless : ctx.Seamless) : ctx.NoHoles length := by
  have hgood := hseamless.restored ctx.writeQueue (.refl _)
  have hlength : (ctx.prepared none).length = length := by
    rw [prepared_none hsize, List.length_replicate]
  constructor
  · intro chunk hmem hid
    obtain ⟨index, hchunk⟩ := List.mem_iff_getElem?.mp hmem
    obtain ⟨offset, _, _, hoffset, _⟩ := chunkValid_iff.mp (hgood chunk hmem)
    have hindex := mem_queue_nil.mpr ⟨chunk, hchunk, hid⟩
    obtain ⟨data, hdata⟩ := delivered_of_mem_queue hdelivered hindex
    refine ⟨offset, hoffset, fun size hchunkSize => ?_⟩
    have hfits := hseamless.inside index
      (List.mem_filter.mpr ⟨hindex, by simp [placed, hchunk, hoffset]⟩) (offset, data)
      (placedWrite_eq_some.mpr ⟨chunk, hchunk, hoffset, hdata⟩)
    rw [(delivered_ok hchunk hdata).1, Option.some.injEq] at hchunkSize
    rw [hlength] at hfits
    rw [← hchunkSize, List.length_eq_zero_iff]
    exact hfits
  · intro chunk hmem hid
    obtain ⟨index, hchunk⟩ := List.mem_iff_getElem?.mp hmem
    obtain ⟨offset, _, _, hoffset, _⟩ := chunkValid_iff.mp (hgood chunk hmem)
    have hvalid := chunkValid_freshBytes hsize hdisjoint hdelivered (.refl _) hseamless.inside
      hchunk (by simp [hoffset])
    -- a chunk without an identifier is not fetched, so the zero bytes are its content
    refine (hvalid.mp (hgood chunk hmem)).resolve_left fun hindex => ?_
    obtain ⟨other, hother, hotherId⟩ := mem_queue_nil.mp (List.mem_filter.mp hindex).1
    rw [hchunk, Option.some.injEq] at hother
    rw [← hother, hid] at hotherId
    cases hotherId

theorem NoHoles.seamless (hholes : ctx.NoHoles length) : ctx.Seamless := by
  have hlength : (ctx.prepared none).length = length := by
    rw [prepared_none hsize, List.length_replicate]
  have hinside : ∀ index ∈ ctx.writeQueue, ∀ write, ctx.placedWrite index = some write →
      Bytes.Fits (ctx.prepared none).length write.1 write.2 := by
    intro index hindex write hwrite
    obtain ⟨chunk, hchunk, hoffset, hdata⟩ := placedWrite_eq_some.mp hwrite
    obtain ⟨other, hother, hid⟩ := mem_queue_nil.mp (List.mem_filter.mp hindex).1
    rw [hchunk, Option.some.injEq] at hother
    obtain ⟨offset, hoffset', hfits⟩ :=
      hholes.placed chunk (List.mem_of_getElem? hchunk) (hother ▸ hid)
    rw [hoffset, Option.some.injEq] at hoffset'
    have hregion := hfits _ (delivered_ok hchunk hdata).1
    rw [List.length_eq_zero_iff, ← hoffset', ← hlength] at hregion
    exact hregion
  refine ⟨hinside, fun order horder chunk hmem => ?_⟩
  obtain ⟨index, hchunk⟩ := List.mem_iff_getElem?.mp hmem
  have hvalid := fun hoffset : chunk.offset.isSome =>
    chunkValid_freshBytes hsize hdisjoint hdelivered horder hinside hchunk hoffset
  cases hid : chunk.id with
  | none =>
      have hblank := hholes.blank chunk hmem hid
      obtain ⟨offset, _, _, hoffset, _⟩ := chunkValid_iff.mp hblank
      exact (hvalid (by simp [hoffset])).mpr (.inr hblank)
  | some chunkId =>
      obtain ⟨offset, hoffset, _⟩ := hholes.placed chunk hmem (by simp [hid])
      refine (hvalid (by simp [hoffset])).mpr (.inl ?_)
      refine List.mem_filter.mpr ⟨mem_queue_nil.mpr ⟨chunk, hchunk, by simp [hid]⟩, ?_⟩
      simp [FileContext.placed, hchunk, hoffset]

/-- What is left over disjoint regions are the chunks that are not placed or not
fetched. -/
theorem seamless_iff_noHoles : ctx.Seamless ↔ ctx.NoHoles length :=
  ⟨Seamless.noHoles hsize hdisjoint hdelivered, NoHoles.seamless hsize hdisjoint hdelivered⟩

end Disjoint

/-- Every fresh download that returns Ok leaves a file that passes the check, if
and only if some chunk is not delivered or the writes restore the file in every
order. Over disjoint regions the latter says that every chunk with an identifier
is placed inside the file and every other one is valid in zero bytes. -/
theorem installsValid_iff (hnone : ctx.task.oldChunks = none)
    (hsize : ctx.task.size = some length) (hstaging : world.disk.read ctx.stagingPlace = none)
    (hfinal : world.disk.read ctx.finalPlace = none) :
    (ctx.InstallsValid world ↔ ctx.Undelivered ∨ ctx.Seamless) ∧
    (ctx.task.chunks.Pairwise RegionsApart →
      (ctx.InstallsValid world ↔ ctx.Undelivered ∨ ctx.NoHoles length)) := by
  have hseamless : ctx.InstallsValid world ↔ ctx.Undelivered ∨ ctx.Seamless :=
    installsValid_iff_seamless hnone hsize hstaging hfinal
  refine ⟨hseamless, fun hdisjoint => hseamless.trans ?_⟩
  by_cases hmissing : ctx.Undelivered
  · exact iff_of_true (.inl hmissing) (.inl hmissing)
  · rw [or_iff_right hmissing, or_iff_right hmissing]
    exact seamless_iff_noHoles hsize hdisjoint hmissing

/-- The chunk of the sample file is placed inside it. -/
theorem installsValid_iff_sample : sampleFile.InstallsValid ⟨.empty, []⟩ := by
  have hiff : sampleFile.task.chunks.Pairwise RegionsApart →
      (sampleFile.InstallsValid ⟨.empty, []⟩ ↔
        sampleFile.Undelivered ∨ sampleFile.NoHoles 8) :=
    (installsValid_iff rfl rfl rfl rfl).2
  refine (hiff (List.pairwise_singleton _ _)).mpr (.inr ⟨?_, ?_⟩)
  · intro chunk hmem _
    rw [List.mem_singleton.mp hmem]
    refine ⟨2, rfl, ?_⟩
    rintro _ ⟨⟩
    exact .inr (by decide)
  · intro chunk hmem hid
    rw [List.mem_singleton.mp hmem] at hid
    cases hid

/-- The sample file with other chunks. -/
def partialFile (chunks : List ManifestChunk) : FileContext :=
  { sampleFile with task := { sampleFile.task with chunks := chunks } }

/-- A chunk without an offset is fetched and dropped, one without an identifier is
skipped. Either way eight zero bytes are installed as the complete file. -/
theorem hole_installed :
    (∃ moves world' state',
      (partialFile [⟨some ⟨.replicate 20 7⟩, some 0x62A021C, none, some 32, some 5⟩]).machine.run
        (⟨.empty, []⟩, .initial) moves = some (world', state') ∧
      state'.stage = .done (.ok ()) ∧
      world'.disk.read sampleFile.finalPlace = some (List.replicate 8 0) ∧
      fileHasValidChunks world'.disk sampleFile.finalPlace (some 8)
        [⟨some ⟨.replicate 20 7⟩, some 0x62A021C, none, some 32, some 5⟩] = false) ∧
    (∃ moves world' state',
      (partialFile [⟨none, some 0x62A021C, some 2, some 32, some 5⟩]).machine.run
        (⟨.empty, []⟩, .initial) moves = some (world', state') ∧
      state'.stage = .done (.ok ()) ∧
      world'.disk.read sampleFile.finalPlace = some (List.replicate 8 0) ∧
      fileHasValidChunks world'.disk sampleFile.finalPlace (some 8)
        [⟨none, some 0x62A021C, some 2, some 32, some 5⟩] = false) := by
  have hleaves (chunks : List ManifestChunk) (moves : List FileMove)
      (hany : ((partialFile chunks).machine.run (⟨.empty, []⟩, .initial) moves).any (fun config =>
        config.2.stage == .done (.ok ()) &&
          (config.1.disk.read sampleFile.finalPlace == some (List.replicate 8 0) &&
            !fileHasValidChunks config.1.disk sampleFile.finalPlace (some 8) chunks)) = true) :
      ∃ moves world' state',
        (partialFile chunks).machine.run (⟨.empty, []⟩, .initial) moves =
            some (world', state') ∧
          state'.stage = .done (.ok ()) ∧
          world'.disk.read sampleFile.finalPlace = some (List.replicate 8 0) ∧
          fileHasValidChunks world'.disk sampleFile.finalPlace (some 8) chunks = false := by
    obtain ⟨⟨world', state'⟩, hrun, hfound⟩ := Machine.exists_of_run_any _ hany
    simp only [Bool.and_eq_true, beq_iff_eq, Bool.not_eq_true'] at hfound
    exact ⟨moves, world', state', hrun, hfound⟩
  refine ⟨hleaves _ (List.replicate 9 ⟨.main, none⟩ ++ List.replicate 3 ⟨.chunk 0, none⟩ ++
    List.replicate 3 ⟨.main, none⟩) ?_, hleaves _ (List.replicate 11 ⟨.main, none⟩) ?_⟩
  · decide +kernel
  · decide +kernel

end FileContext

end DepotDownloader.SteamClient
