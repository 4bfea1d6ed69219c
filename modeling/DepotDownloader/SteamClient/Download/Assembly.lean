import DepotDownloader.SteamClient.Download.FileTask

/-! # Assembling a file from chunks

What a file made of chunks has to look like, apart from how it is downloaded: a
layout of disjoint regions inside a size, and bytes that hold an acceptable
content in the regions settled so far and a given background elsewhere. Writing
one region settles it and disturbs no other.
-/

namespace DepotDownloader.SteamClient

open Foundation Foundation.LexPath Steam

/-- The regions of two chunks share no position. -/
def RegionsApart (left right : ManifestChunk) : Prop :=
  ∀ offset size offset' size', left.offset = some offset → left.uncompressedSize = some size →
    right.offset = some offset' → right.uncompressedSize = some size' →
    Bytes.Apart offset size offset' size'

/-- The chunk carries all that its download and its check need, and lies inside
a file of that length. -/
structure CompleteChunk (length : Nat) (chunk : ManifestChunk) : Prop where
  id : chunk.id.isSome
  checksum : chunk.checksum.isSome
  region : ∃ offset size, chunk.offset = some offset ∧ chunk.uncompressedSize = some size ∧
    offset + size ≤ length

/-- Chunks with complete metadata over disjoint regions within the size. -/
structure Layout (size : Option Nat) (chunks : List ManifestChunk) (length : Nat) : Prop where
  size : size = some length
  complete : ∀ chunk ∈ chunks, CompleteChunk length chunk
  disjoint : chunks.Pairwise RegionsApart

theorem RegionsApart.of_pairwise {chunks : List ManifestChunk} {index index' : Nat}
    {chunk chunk' : ManifestChunk} (hdisjoint : chunks.Pairwise RegionsApart)
    (hchunk : chunks[index]? = some chunk) (hchunk' : chunks[index']? = some chunk')
    (hne : index ≠ index') : RegionsApart chunk chunk' := by
  obtain ⟨hlt, rfl⟩ := List.getElem?_eq_some_iff.mp hchunk
  obtain ⟨hlt', rfl⟩ := List.getElem?_eq_some_iff.mp hchunk'
  have hpairwise := List.pairwise_iff_getElem.mp hdisjoint
  rcases Nat.lt_or_gt_of_ne hne with hless | hgreater
  · exact hpairwise index index' hlt hlt' hless
  · intro offset size offset' size' hoffset hsize hoffset' hsize'
    exact (hpairwise index' index hlt' hlt hgreater _ _ _ _ hoffset' hsize' hoffset hsize).symm

theorem Layout.apart {size : Option Nat} {chunks : List ManifestChunk}
    {length index index' : Nat} {chunk chunk' : ManifestChunk} (hlayout : Layout size chunks length)
    (hchunk : chunks[index]? = some chunk) (hchunk' : chunks[index']? = some chunk')
    (hne : index ≠ index') : RegionsApart chunk chunk' :=
  .of_pairwise hlayout.disjoint hchunk hchunk' hne

/-- No chunk covers the position. -/
def Uncovered (chunks : List ManifestChunk) (position : Nat) : Prop :=
  ∀ chunk ∈ chunks, ∀ offset size, chunk.offset = some offset →
    chunk.uncompressedSize = some size → ¬ Bytes.InRegion offset size position

/-- What the download of one file starts from and aims at: the length, which
bytes are acceptable for the chunk at an index, and the final and the staging
file before the download. -/
structure Assembly where
  length : Nat
  good : Nat → Bytes → Prop
  final : Option Bytes
  staging : Option Bytes

namespace Assembly

variable (spec : Assembly)

/-- The bytes between the chunks: those of a staging file that is resumed, or
zero bytes. -/
def background : Bytes :=
  match spec.staging with
  | some data => if data.length = spec.length then data else Bytes.resize [] spec.length
  | none => Bytes.resize [] spec.length

/-- The region of a chunk holds acceptable bytes. -/
def Placed (data : Bytes) (index : Nat) (chunk : ManifestChunk) : Prop :=
  ∃ offset size bytes, chunk.offset = some offset ∧ chunk.uncompressedSize = some size ∧
    Bytes.readAt data offset size = some bytes ∧ spec.good index bytes

/-- The bytes are right as far as the settled chunks go. -/
structure Assembled (chunks : List ManifestChunk) (settled : Nat → ManifestChunk → Prop)
    (data : Bytes) : Prop where
  length : data.length = spec.length
  outside : ∀ position, Uncovered chunks position → data[position]? = spec.background[position]?
  placed : ∀ index chunk, chunks[index]? = some chunk → settled index chunk →
    spec.Placed data index chunk

variable {spec} {chunks : List ManifestChunk} {settled settled' : Nat → ManifestChunk → Prop}
  {data : Bytes}

theorem Assembled.mono (hassembled : spec.Assembled chunks settled data)
    (hsub : ∀ index chunk, chunks[index]? = some chunk → settled' index chunk →
      settled index chunk) : spec.Assembled chunks settled' data where
  length := hassembled.length
  outside := hassembled.outside
  placed index chunk hchunk hsettled :=
    hassembled.placed index chunk hchunk (hsub index chunk hchunk hsettled)

/-- Writing acceptable bytes to the region of a chunk settles that chunk and
keeps the others as they are. -/
theorem Assembled.write (hassembled : spec.Assembled chunks settled data) {size : Option Nat}
    (hlayout : Layout size chunks spec.length) {index offset : Nat} {chunk : ManifestChunk}
    {bytes : Bytes} (hchunk : chunks[index]? = some chunk) (hoffset : chunk.offset = some offset)
    (hsize : chunk.uncompressedSize = some bytes.length) (hgood : spec.good index bytes)
    (hsettled : ∀ other otherChunk, chunks[other]? = some otherChunk → other ≠ index →
      settled' other otherChunk → settled other otherChunk) :
    spec.Assembled chunks settled' (Bytes.writeAt data offset bytes) := by
  have hmem := List.mem_of_getElem? hchunk
  have hfits : offset + bytes.length ≤ data.length := by
    obtain ⟨offset', size', hoffset', hsize', hle⟩ := (hlayout.complete chunk hmem).region
    rw [hoffset, Option.some.injEq] at hoffset'
    rw [hsize, Option.some.injEq] at hsize'
    rw [hassembled.length, hoffset', hsize']
    exact hle
  refine ⟨(Bytes.length_writeAt hfits).trans hassembled.length, fun position hout => ?_,
    fun other otherChunk hother hdone => ?_⟩
  · rw [Bytes.getElem?_writeAt_of_not_inRegion hfits (hout chunk hmem _ _ hoffset hsize)]
    exact hassembled.outside position hout
  · by_cases heq : other = index
    · subst heq
      rw [hchunk, Option.some.injEq] at hother
      subst hother
      exact ⟨offset, bytes.length, bytes, hoffset, hsize, Bytes.readAt_writeAt_self hfits, hgood⟩
    · obtain ⟨offset', size', bytes', hoffset', hsize', hread, hgood'⟩ :=
        hassembled.placed other otherChunk hother (hsettled other otherChunk hother heq hdone)
      refine ⟨offset', size', bytes', hoffset', hsize', ?_, hgood'⟩
      rw [Bytes.readAt_writeAt_of_apart hfits]
      · exact hread
      · exact hlayout.apart hother hchunk heq _ _ _ _ hoffset' hsize' hoffset hsize

@[simp] theorem length_background : spec.background.length = spec.length := by
  unfold background
  split
  · split
    · assumption
    · exact Bytes.length_resize _ _
  · exact Bytes.length_resize _ _

/-- Before anything has been written the background is all there is. -/
theorem assembled_background
    (hplaced : ∀ index chunk, chunks[index]? = some chunk → settled index chunk →
      spec.Placed spec.background index chunk) :
    spec.Assembled chunks settled spec.background :=
  ⟨length_background, fun _ _ => rfl, hplaced⟩

end Assembly

end DepotDownloader.SteamClient
