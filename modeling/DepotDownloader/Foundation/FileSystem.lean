import DepotDownloader.Foundation.ByteString
import Mathlib.Logic.Function.Basic

/-! # A file tree with open files

Names lead to inodes and inodes hold bytes. An open file keeps its inode while
the name is renamed or removed. The tree has no hard links: two names never
share an inode, and every linked inode has been allocated.
-/

namespace Foundation

universe u

/-- The regular files below a set of names. Directories are not represented. -/
structure FileTree (Name : Type u) where
  link : Name → Option Nat
  data : Nat → Bytes
  next : Nat
  link_lt : ∀ name ino, link name = some ino → ino < next
  link_inj : ∀ name name' ino, link name = some ino → link name' = some ino → name = name'

namespace FileTree

variable {Name : Type u}

/-- The tree without any file. -/
def empty : FileTree Name where
  link _ := none
  data _ := []
  next := 0
  link_lt := by simp
  link_inj := by simp

def present (tree : FileTree Name) (name : Name) : Bool := (tree.link name).isSome

/-- The bytes found under a name. -/
def read (tree : FileTree Name) (name : Name) : Option Bytes :=
  (tree.link name).map tree.data

/-- Replace the bytes of one inode. -/
def store (tree : FileTree Name) (ino : Nat) (bytes : Bytes) : FileTree Name :=
  { tree with data := Function.update tree.data ino bytes }

section Operations

variable [DecidableEq Name]

/-- Open for writing with creation and truncation: an existing file keeps its
inode and loses its bytes, a missing one gets a fresh inode. -/
def openTruncate (tree : FileTree Name) (name : Name) : FileTree Name × Nat :=
  match hlink : tree.link name with
  | some ino => (tree.store ino [], ino)
  | none =>
      ({ link := Function.update tree.link name (some tree.next)
         data := Function.update tree.data tree.next []
         next := tree.next + 1
         link_lt := by
           intro other ino hother
           rw [Function.update_apply] at hother
           split at hother
           · cases hother; omega
           · have := tree.link_lt other ino hother; omega
         link_inj := by
           intro left right ino hleft hright
           rw [Function.update_apply] at hleft hright
           split at hleft <;> split at hright
           next hl hr => rw [hl, hr]
           next => cases hleft; exact absurd (tree.link_lt _ _ hright) (Nat.lt_irrefl _)
           next => cases hright; exact absurd (tree.link_lt _ _ hleft) (Nat.lt_irrefl _)
           next => exact tree.link_inj left right ino hleft hright }, tree.next)

/-- Remove a name. -/
def remove (tree : FileTree Name) (name : Name) : FileTree Name :=
  { tree with
    link := Function.update tree.link name none
    link_lt := by
      intro other ino hother
      rw [Function.update_apply] at hother
      split at hother
      · cases hother
      · exact tree.link_lt other ino hother
    link_inj := by
      intro left right ino hleft hright
      rw [Function.update_apply] at hleft hright
      split at hleft <;> split at hright <;> try contradiction
      exact tree.link_inj left right ino hleft hright }

/-- Move a file onto a name, replacing what was there. Renaming a name onto
itself does nothing and renaming a missing file fails. -/
def rename (tree : FileTree Name) (source target : Name) : Option (FileTree Name) :=
  match hlink : tree.link source with
  | none => none
  | some ino =>
      if source = target then some tree
      else some
        { tree with
          link := Function.update (Function.update tree.link target (some ino)) source none
          link_lt := by
            intro other ino' hother
            simp only [Function.update_apply] at hother
            split at hother
            · cases hother
            · split at hother
              · cases hother; exact tree.link_lt _ _ hlink
              · exact tree.link_lt _ _ hother
          link_inj := by
            intro left right ino' hleft hright
            simp only [Function.update_apply] at hleft hright
            split at hleft <;> try contradiction
            split at hright <;> try contradiction
            split at hleft <;> split at hright
            next hl hr => rw [hl, hr]
            next hs _ _ hr =>
              cases hleft
              exact absurd (tree.link_inj _ _ _ hright hlink) ‹_›
            next =>
              cases hright
              exact absurd (tree.link_inj _ _ _ hleft hlink) ‹_›
            next => exact tree.link_inj left right ino' hleft hright }

end Operations

/-- The tree that holds the given files. The first file of a name counts. -/
def ofFiles [DecidableEq Name] (files : List (Name × Bytes)) : FileTree Name where
  link name := files.findIdx? fun file => file.1 = name
  data ino := (files[ino]?).elim [] Prod.snd
  next := files.length
  link_lt name ino hlink := (List.findIdx?_eq_some_iff_getElem.mp hlink).1
  link_inj left right ino hleft hright := by
    obtain ⟨_, hleft, _⟩ := List.findIdx?_eq_some_iff_getElem.mp hleft
    obtain ⟨_, hright, _⟩ := List.findIdx?_eq_some_iff_getElem.mp hright
    exact (of_decide_eq_true hleft).symm.trans (of_decide_eq_true hright)

/-- What is found under a name is the same file with the same bytes. -/
def SameAt (name : Name) (tree tree' : FileTree Name) : Prop :=
  tree'.link name = tree.link name ∧
    ∀ ino, tree.link name = some ino → tree'.data ino = tree.data ino

/-- Only the files under the given names differ. -/
def ChangesOnly (changed : Name → Prop) (tree tree' : FileTree Name) : Prop :=
  ∀ name, ¬ changed name → SameAt name tree tree'

variable {tree tree' tree'' : FileTree Name} {name : Name}

@[simp] theorem SameAt.refl (name : Name) (tree : FileTree Name) : SameAt name tree tree :=
  ⟨rfl, fun _ _ => rfl⟩

theorem SameAt.trans (hfirst : SameAt name tree tree') (hsecond : SameAt name tree' tree'') :
    SameAt name tree tree'' := by
  refine ⟨hsecond.1.trans hfirst.1, fun ino hino => ?_⟩
  rw [hsecond.2 ino (hfirst.1.trans hino), hfirst.2 ino hino]

theorem SameAt.read_eq (hsame : SameAt name tree tree') : tree'.read name = tree.read name := by
  unfold read
  rw [hsame.1]
  cases hlink : tree.link name with
  | none => rfl
  | some ino => simp [hsame.2 ino hlink]

theorem SameAt.present_eq (hsame : SameAt name tree tree') :
    tree'.present name = tree.present name := by
  simp only [present, hsame.1]

@[simp] theorem ChangesOnly.refl (changed : Name → Prop) (tree : FileTree Name) :
    ChangesOnly changed tree tree := fun name _ => SameAt.refl name tree

theorem ChangesOnly.trans {changed : Name → Prop} (hfirst : ChangesOnly changed tree tree')
    (hsecond : ChangesOnly changed tree' tree'') : ChangesOnly changed tree tree'' :=
  fun name hname => (hfirst name hname).trans (hsecond name hname)

theorem ChangesOnly.mono {changed changed' : Name → Prop}
    (honly : ChangesOnly changed tree tree') (hsub : ∀ name, changed name → changed' name) :
    ChangesOnly changed' tree tree' :=
  fun name hname => honly name fun h => hname (hsub name h)

theorem present_iff_read : tree.present name = true ↔ ∃ bytes, tree.read name = some bytes := by
  simp only [present, read, Option.isSome_iff_exists, Option.map_eq_some_iff]
  constructor
  · rintro ⟨ino, hino⟩
    exact ⟨_, ino, hino, rfl⟩
  · rintro ⟨_, ino, hino, _⟩
    exact ⟨ino, hino⟩

theorem read_of_link {ino : Nat} (hlink : tree.link name = some ino) :
    tree.read name = some (tree.data ino) := by
  simp [read, hlink]

section Store

@[simp] theorem store_link (tree : FileTree Name) (ino : Nat) (bytes : Bytes) :
    (tree.store ino bytes).link = tree.link := rfl

@[simp] theorem store_next (tree : FileTree Name) (ino : Nat) (bytes : Bytes) :
    (tree.store ino bytes).next = tree.next := rfl

@[simp] theorem store_data_self (tree : FileTree Name) (ino : Nat) (bytes : Bytes) :
    (tree.store ino bytes).data ino = bytes := Function.update_self ..

theorem read_store_self {ino : Nat} (hlink : tree.link name = some ino) (bytes : Bytes) :
    (tree.store ino bytes).read name = some bytes := by
  simp [read, hlink]

/-- Writing an open file changes only the name it is found under. -/
theorem store_changesOnly {ino : Nat} (hlink : tree.link name = some ino) (bytes : Bytes) :
    ChangesOnly (· = name) tree (tree.store ino bytes) := by
  refine fun other hother => ⟨rfl, fun ino' hino' => ?_⟩
  have hne : ino' ≠ ino := fun heq => hother (tree.link_inj other name ino (heq ▸ hino') hlink)
  simp only [store, Function.update_of_ne hne]

end Store

section OpenTruncate

variable [DecidableEq Name]

/-- Opening with truncation leads the name to an empty file. -/
theorem openTruncate_link (tree : FileTree Name) (name : Name) :
    (tree.openTruncate name).1.link name = some (tree.openTruncate name).2 := by
  unfold openTruncate
  split
  next ino hlink => exact hlink
  next => exact Function.update_self ..

theorem openTruncate_data (tree : FileTree Name) (name : Name) :
    (tree.openTruncate name).1.data (tree.openTruncate name).2 = [] := by
  unfold openTruncate
  split <;> exact Function.update_self ..

theorem openTruncate_changesOnly (tree : FileTree Name) (name : Name) :
    ChangesOnly (· = name) tree (tree.openTruncate name).1 := by
  unfold openTruncate
  split
  next ino hlink => exact store_changesOnly hlink []
  next hlink =>
    refine fun other hother => ⟨Function.update_of_ne hother .., fun ino hino => ?_⟩
    have hne : ino ≠ tree.next := Nat.ne_of_lt (tree.link_lt other ino hino)
    simp only [Function.update_of_ne hne]

end OpenTruncate

section Rename

variable [DecidableEq Name] {source target : Name}

theorem rename_isSome {ino : Nat} (hlink : tree.link source = some ino) :
    ∃ tree', tree.rename source target = some tree' := by
  unfold rename
  split
  next hnone => rw [hlink] at hnone; cases hnone
  next => split <;> exact ⟨_, rfl⟩

theorem rename_source (hrename : tree.rename source target = some tree') :
    ∃ ino, tree.link source = some ino := by
  unfold rename at hrename
  split at hrename
  next => cases hrename
  next ino hlink => exact ⟨ino, hlink⟩

/-- After a rename the target leads to the renamed file and the source to
nothing. No bytes change. -/
theorem rename_spec (hne : source ≠ target) (hrename : tree.rename source target = some tree') :
    ∃ ino, tree.link source = some ino ∧ tree'.link target = some ino ∧
      tree'.link source = none ∧ tree'.data = tree.data := by
  unfold rename at hrename
  split at hrename
  next => cases hrename
  next ino hlink =>
    rw [if_neg hne, Option.some.injEq] at hrename
    subst hrename
    refine ⟨ino, hlink, ?_, Function.update_self .., rfl⟩
    exact (Function.update_of_ne hne.symm ..).trans (Function.update_self ..)

theorem rename_changesOnly (hrename : tree.rename source target = some tree') :
    ChangesOnly (fun name => name = source ∨ name = target) tree tree' := by
  unfold rename at hrename
  split at hrename
  next => cases hrename
  next ino hlink =>
    split at hrename <;> rw [Option.some.injEq] at hrename <;> subst hrename
    next => exact ChangesOnly.refl _ _
    next =>
      intro other hother
      simp only [not_or] at hother
      refine ⟨?_, fun _ _ => rfl⟩
      exact (Function.update_of_ne hother.1 ..).trans (Function.update_of_ne hother.2 ..)

theorem rename_read_target (hrename : tree.rename source target = some tree') :
    tree'.read target = tree.read source := by
  by_cases hne : source = target
  · unfold rename at hrename
    split at hrename
    next => cases hrename
    next =>
      rw [if_pos hne, Option.some.injEq] at hrename
      rw [← hrename, hne]
  · obtain ⟨ino, hsource, htarget, _, hdata⟩ := rename_spec hne hrename
    simp only [read, hsource, htarget, Option.map_some, hdata]

end Rename

section Remove

variable [DecidableEq Name]

theorem remove_changesOnly (tree : FileTree Name) (name : Name) :
    ChangesOnly (· = name) tree (tree.remove name) :=
  fun _ hother => ⟨Function.update_of_ne hother .., fun _ _ => rfl⟩

@[simp] theorem remove_read_self (tree : FileTree Name) (name : Name) :
    (tree.remove name).read name = none := by
  simp [read, remove]

end Remove

end FileTree

end Foundation
