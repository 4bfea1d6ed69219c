import Mathlib.Data.List.Basic
import Mathlib.Data.List.Induction

/-! # Lexical paths

Paths as the Rust standard library reads them on Unix. A path is split at
slashes; empty and `.` segments carry no information. Joining an absolute path
replaces the base. Without symbolic links a path leads to the place its
components reach from the working directory.
-/

namespace Foundation.LexPath

inductive Component where
  | parentDir
  | normal (name : String)
  deriving DecidableEq, Repr

structure Path where
  absolute : Bool
  components : List Component
  deriving DecidableEq, Repr

/-- The strings between the slashes of a path. -/
def segments (text : String) : List String := (text.toList.splitOn '/').map String.ofList

def Component.ofSegment (segment : String) : Option Component :=
  if segment = "" ∨ segment = "." then none
  else if segment = ".." then some .parentDir
  else some (.normal segment)

namespace Path

def ofString (text : String) : Path where
  absolute := text.toList.head? == some '/'
  components := (segments text).filterMap Component.ofSegment

/-- Append a path to a base. An absolute path replaces the base. -/
def join (base path : Path) : Path :=
  if path.absolute then path else { base with components := base.components ++ path.components }

/-- The path without its last component. -/
def parent (path : Path) : Option Path :=
  if path.components = [] then none
  else some { path with components := path.components.dropLast }

end Path

/-- The place reached from a place along some components. The root is its own
parent. -/
def walk : List String → List Component → List String
  | here, [] => here
  | here, .parentDir :: rest => walk here.dropLast rest
  | here, .normal name :: rest => walk (here ++ [name]) rest

/-- The place a path leads to from a working directory. -/
def Path.resolve (cwd : List String) (path : Path) : List String :=
  walk (if path.absolute then [] else cwd) path.components

/-- No prefix of the components leaves the place it starts from, which lies
`depth` levels below the place that must not be left. -/
def NeverClimbs : Nat → List Component → Prop
  | _, [] => True
  | 0, .parentDir :: _ => False
  | depth + 1, .parentDir :: rest => NeverClimbs depth rest
  | depth, .normal _ :: rest => NeverClimbs (depth + 1) rest

instance decidableNeverClimbs : ∀ depth components, Decidable (NeverClimbs depth components)
  | _, [] => isTrue trivial
  | 0, .parentDir :: _ => isFalse id
  | depth + 1, .parentDir :: rest => decidableNeverClimbs depth rest
  | 0, .normal _ :: rest => decidableNeverClimbs 1 rest
  | depth + 1, .normal _ :: rest => decidableNeverClimbs (depth + 2) rest

/-- A relative name without empty, `.` or `..` components. -/
def Canonical (text : String) : Prop :=
  ∀ segment ∈ segments text, segment ≠ "" ∧ segment ≠ "." ∧ segment ≠ ".."

instance (text : String) : Decidable (Canonical text) := by unfold Canonical; infer_instance

theorem walk_append (here : List String) (first second : List Component) :
    walk here (first ++ second) = walk (walk here first) second := by
  induction first generalizing here with
  | nil => rfl
  | cons component rest ih => cases component <;> exact ih _

@[simp] theorem walk_map_normal (here names : List String) :
    walk here (names.map .normal) = here ++ names := by
  induction names generalizing here with
  | nil => simp [walk]
  | cons name rest ih => simp only [List.map_cons, walk, ih, List.append_assoc, List.cons_append,
      List.nil_append]

theorem resolve_join (cwd : List String) (base path : Path) (hrelative : path.absolute = false) :
    (base.join path).resolve cwd = walk (base.resolve cwd) path.components := by
  simp [Path.join, Path.resolve, hrelative, walk_append]

theorem neverClimbs_normal {depth : Nat} {name : String} {rest : List Component} :
    NeverClimbs depth (.normal name :: rest) ↔ NeverClimbs (depth + 1) rest := by
  cases depth <;> exact Iff.rfl

/-- Components that never climb keep everything above their start. -/
theorem walk_of_neverClimbs {base here : List String} {components : List Component}
    (hclimbs : NeverClimbs here.length components) :
    walk (base ++ here) components = base ++ walk here components := by
  induction components generalizing here with
  | nil => rfl
  | cons component rest ih =>
      cases component with
      | normal name =>
          rw [neverClimbs_normal] at hclimbs
          have htail : walk (base ++ (here ++ [name])) rest = base ++ walk (here ++ [name]) rest :=
            ih (by simpa using hclimbs)
          simpa only [walk, List.append_assoc] using htail
      | parentDir =>
          cases here using List.reverseRecOn with
          | nil => exact hclimbs.elim
          | append_singleton front last _ =>
              simp only [List.length_append, List.length_cons, List.length_nil] at hclimbs
              have htail : walk (base ++ front) rest = base ++ walk front rest := ih hclimbs
              simpa only [walk, ← List.append_assoc, List.dropLast_concat] using htail

theorem NeverClimbs.dropLast {depth : Nat} {components : List Component}
    (hclimbs : NeverClimbs depth components) : NeverClimbs depth components.dropLast := by
  induction components generalizing depth with
  | nil => exact hclimbs
  | cons component rest ih =>
      cases rest with
      | nil => cases depth <;> trivial
      | cons second rest =>
          cases component with
          | normal name =>
              rw [List.dropLast_cons_cons, neverClimbs_normal]
              exact ih (neverClimbs_normal.mp hclimbs)
          | parentDir =>
              cases depth with
              | zero => exact hclimbs.elim
              | succ depth =>
                  have hrest : NeverClimbs depth (second :: rest) := hclimbs
                  exact ih hrest

section Canonical

variable {text text' : String}

theorem segments_injective : Function.Injective segments := by
  intro left right heq
  have hsplit : left.toList.splitOn '/' = right.toList.splitOn '/' :=
    List.map_injective_iff.mpr (fun _ _ h => String.ofList_injective h) heq
  have hjoin := congrArg (fun parts => ['/'].intercalate parts) hsplit
  simp only [List.intercalate_splitOn] at hjoin
  exact String.toList_inj.mp hjoin

theorem Canonical.components_eq (hcanonical : Canonical text) :
    (Path.ofString text).components = (segments text).map .normal := by
  have hmap : ∀ names : List String, (∀ segment ∈ names, segment ≠ "" ∧ segment ≠ "." ∧
      segment ≠ "..") → names.filterMap Component.ofSegment = names.map .normal := by
    intro names hnames
    induction names with
    | nil => rfl
    | cons name rest ih =>
        obtain ⟨hempty, hdot, hdots⟩ := hnames name List.mem_cons_self
        rw [List.filterMap_cons_some (b := .normal name) (by
          simp [Component.ofSegment, hempty, hdot, hdots]), List.map_cons,
          ih fun segment hmem => hnames segment (List.mem_cons_of_mem _ hmem)]
  exact hmap _ hcanonical

theorem Canonical.relative (hcanonical : Canonical text) :
    (Path.ofString text).absolute = false := by
  cases hlist : text.toList with
  | nil => simp [Path.ofString, hlist]
  | cons first rest =>
      by_cases hslash : first = '/'
      · exfalso
        subst hslash
        refine (hcanonical "" ?_).1 rfl
        simp [segments, hlist, List.splitOn, List.splitOnP_cons_eq_if_modifyHead]
      · simp [Path.ofString, hlist, hslash]

/-- A canonical name leads below the base to the place its segments spell. -/
theorem Canonical.resolve_join (hcanonical : Canonical text) (cwd : List String) (base : Path) :
    (base.join (.ofString text)).resolve cwd = base.resolve cwd ++ segments text := by
  rw [LexPath.resolve_join cwd base _ hcanonical.relative, hcanonical.components_eq,
    walk_map_normal]

end Canonical

end Foundation.LexPath
