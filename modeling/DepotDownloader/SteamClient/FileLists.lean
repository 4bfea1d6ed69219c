import DepotDownloader.SteamClient.Download.Filtering
import DepotDownloader.SteamClient.Download.Names

/-! # File lists

A file list selects files by name. Each line holds a name, or a pattern behind `regex:`. What
a list selects does not depend on the form that the filter is kept in, and a list of all names
of a manifest leaves nothing out.
-/

namespace DepotDownloader.SteamClient

open Foundation Steam

section Reading

/-- A line that has ended, from its characters in reverse. A carriage return is part of the
line break. -/
def endedLine : List Char → List Char
  | '\r' :: line => line.reverse
  | line => line.reverse

/-- `str::lines`, behind the characters of the line so far, latest first. -/
def linesFrom (line : List Char) : List Char → List (List Char)
  | [] => if line = [] then [] else [line.reverse]
  | char :: rest =>
      if char = '\n' then endedLine line :: linesFrom [] rest else linesFrom (char :: line) rest

/-- The lines that count, without the space around them. -/
def listLines (content : String) : List (List Char) :=
  ((linesFrom [] content.toList).map trim).filter (· ≠ [])

def regexPrefix : List Char := ['r', 'e', 'g', 'e', 'x', ':']

/-- `str::strip_prefix`. -/
def stripRegexPrefix (line : List Char) : Option (List Char) :=
  if regexPrefix <+: line then some (line.drop regexPrefix.length) else none

/-- Compile a case-insensitive pattern. `none` means that it is invalid. -/
abbrev CompileRegex := String → Option (String → Bool)

variable (compile : CompileRegex)

/-- The literal names and the patterns of a list. -/
def readLines : List (List Char) → Option (List String × List (String → Bool))
  | [] => some ([], [])
  | line :: rest =>
      match stripRegexPrefix line with
      | some pattern => do
          let regex ← compile (.ofList pattern)
          let (literals, patterns) ← readLines rest
          return (literals, regex :: patterns)
      | none => do
          let (literals, patterns) ← readLines rest
          return (replaceBackslash (.ofList line) :: literals, patterns)

namespace FileFilter

/-- Load a file list from a text file. A file that cannot be read is `none`. -/
def fromFilelist (content : Option String) : Option FileFilter := do
  match ← readLines compile (listLines (← content)) with
  | (literals, []) => return .fileList literals
  | ([], [pattern]) => return .regex pattern
  | (literals, patterns) => return .mixed literals patterns

/-- Create from a regex pattern string. -/
def fromRegex (pattern : String) : Option FileFilter := (compile pattern).map .regex

end FileFilter

/-- A line selects a normalized name. -/
def lineSelects (line : List Char) (normalized : String) : Bool :=
  match stripRegexPrefix line with
  | some pattern => (compile (.ofList pattern)).any (· normalized)
  | none => eqIgnoreAsciiCase (replaceBackslash (.ofList line)) normalized

variable {compile}

theorem readLines_selects {lines : List (List Char)} {literals : List String}
    {patterns : List (String → Bool)}
    (hread : readLines compile lines = some (literals, patterns)) (normalized : String) :
    (literals.any (eqIgnoreAsciiCase · normalized) || patterns.any (· normalized)) =
      lines.any (lineSelects compile · normalized) := by
  induction lines generalizing literals patterns with
  | nil =>
      obtain ⟨rfl, rfl⟩ := Prod.mk.inj (Option.some.inj hread)
      rfl
  | cons line rest ih =>
      rw [List.any_cons, lineSelects]
      unfold readLines at hread
      cases hstrip : stripRegexPrefix line with
      | some pattern =>
          simp only [hstrip, bind, Option.bind_eq_some_iff, pure, Option.some.injEq] at hread
          obtain ⟨regex, hregex, ⟨literals', patterns'⟩, hrest, heq⟩ := hread
          obtain ⟨rfl, rfl⟩ := Prod.mk.inj heq
          simp only [← ih hrest, hregex, Option.any_some, List.any_cons]
          exact Bool.or_left_comm _ _ _
      | none =>
          simp only [hstrip, bind, Option.bind_eq_some_iff, pure, Option.some.injEq] at hread
          obtain ⟨⟨literals', patterns'⟩, hrest, heq⟩ := hread
          obtain ⟨rfl, rfl⟩ := Prod.mk.inj heq
          rw [← ih hrest, List.any_cons, Bool.or_assoc]

/-- A list selects what one of its lines selects, in whichever form it is kept. -/
theorem fromFilelist_selects {content : String} {filter : FileFilter}
    (hfilter : FileFilter.fromFilelist compile (some content) = some filter) (filename : String) :
    filter.selects filename =
      (listLines content).any (lineSelects compile · (replaceBackslash filename)) := by
  simp only [FileFilter.fromFilelist, bind, Option.bind_some, Option.bind_eq_some_iff] at hfilter
  obtain ⟨⟨literals, patterns⟩, hread, hform⟩ := hfilter
  rw [← readLines_selects hread]
  split at hform
  next heq =>
    obtain ⟨rfl, rfl⟩ := Prod.mk.inj heq
    obtain rfl := Option.some.inj hform
    simp [FileFilter.selects]
  next heq =>
    obtain ⟨rfl, rfl⟩ := Prod.mk.inj heq
    obtain rfl := Option.some.inj hform
    simp [FileFilter.selects]
  next heq =>
    obtain ⟨rfl, rfl⟩ := Prod.mk.inj heq
    obtain rfl := Option.some.inj hform
    rfl

end Reading

section Printing

/-- The lines that list a manifest's files. -/
def plainFiles (manifest : DepotManifest) : String :=
  .ofList ((manifestNames manifest).flatMap fun name => name.toList ++ ['\n'])

/-- A name that stands on a line of its own as it is, and is no pattern. -/
structure Listable (name : String) : Prop where
  nonempty : name.toList ≠ []
  unbroken : '\n' ∉ name.toList
  trimmed : trim name.toList = name.toList
  literal : ¬ regexPrefix <+: name.toList

theorem linesFrom_append {line text rest : List Char} (hunbroken : '\n' ∉ text) :
    linesFrom line (text ++ '\n' :: rest) = linesFrom (text.reverse ++ line) ('\n' :: rest) := by
  induction text generalizing line with
  | nil => rfl
  | cons char text ih =>
      obtain ⟨hchar, htext⟩ := not_or.mp (List.mem_cons.not.mp hunbroken)
      rw [List.cons_append, linesFrom, if_neg (Ne.symm hchar), ih htext, List.reverse_cons,
        List.append_assoc]
      rfl

theorem trim_last {text front : List Char} {last : Char} (htrimmed : trim text = text)
    (hlast : text.reverse = last :: front) : isWhitespace last = false := by
  have hhead := List.head?_dropWhile_not isWhitespace (text.dropWhile isWhitespace).reverse
  have heq : (text.dropWhile isWhitespace).reverse.dropWhile isWhitespace = last :: front := by
    rw [← hlast]
    exact List.reverse_eq_iff.mp htrimmed
  rw [heq] at hhead
  exact hhead

/-- A name is a line as it is: it does not end in a carriage return. -/
theorem linesFrom_name {name : String} (hname : Listable name) (rest : List Char) :
    linesFrom [] (name.toList ++ '\n' :: rest) = name.toList :: linesFrom [] rest := by
  rw [linesFrom_append hname.unbroken, List.append_nil, linesFrom, if_pos rfl]
  congr 1
  unfold endedLine
  split
  next front hreverse =>
    have hspace := trim_last hname.trimmed hreverse
    cases hspace
  next => exact List.reverse_reverse _

theorem linesFrom_names {names : List String} (hnames : ∀ name ∈ names, Listable name) :
    linesFrom [] (names.flatMap fun name => name.toList ++ ['\n']) = names.map String.toList := by
  induction names with
  | nil => rfl
  | cons name names ih =>
      obtain ⟨hname, hrest⟩ := List.forall_mem_cons.mp hnames
      rw [List.flatMap_cons, List.append_assoc, List.singleton_append, linesFrom_name hname,
        ih hrest, List.map_cons]

theorem listLines_plainFiles {manifest : DepotManifest}
    (hnames : ∀ name ∈ manifestNames manifest, Listable name) :
    listLines (plainFiles manifest) = (manifestNames manifest).map String.toList := by
  have hlines : ∀ line ∈ (manifestNames manifest).map String.toList,
      trim line = line ∧ line ≠ [] := by
    intro line hmem
    obtain ⟨name, hname, rfl⟩ := List.mem_map.mp hmem
    exact ⟨(hnames name hname).trimmed, (hnames name hname).nonempty⟩
  rw [listLines, plainFiles, String.toList_ofList, linesFrom_names hnames,
    List.map_congr_left fun line hmem => (hlines line hmem).1, List.map_id',
    List.filter_eq_self]
  exact fun line hmem => decide_eq_true (hlines line hmem).2

theorem stripRegexPrefix_name {name : String} (hname : Listable name) :
    stripRegexPrefix name.toList = none := if_neg hname.literal

variable {compile : CompileRegex}

theorem readLines_names {names : List String} (hnames : ∀ name ∈ names, Listable name) :
    readLines compile (names.map String.toList) = some (names.map replaceBackslash, []) := by
  induction names with
  | nil => rfl
  | cons name names ih =>
      obtain ⟨hname, hrest⟩ := List.forall_mem_cons.mp hnames
      rw [List.map_cons, readLines, stripRegexPrefix_name hname, ih hrest]
      simp [String.ofList_toList]

/-- A list of all names of a manifest is read, and leaves nothing out. -/
theorem fromFilelist_plainFiles (compile : CompileRegex) {manifest : DepotManifest}
    (hnames : ∀ name ∈ manifestNames manifest, Listable name) :
    ∃ filter, FileFilter.fromFilelist compile (some (plainFiles manifest)) = some filter ∧
      ∀ name ∈ manifestNames manifest, filter.selects name = true := by
  have hread : FileFilter.fromFilelist compile (some (plainFiles manifest)) =
      some (.fileList ((manifestNames manifest).map replaceBackslash)) := by
    simp [FileFilter.fromFilelist, listLines_plainFiles hnames, readLines_names hnames]
  refine ⟨_, hread, fun name hmem => ?_⟩
  rw [fromFilelist_selects hread, listLines_plainFiles hnames, List.any_map, List.any_eq_true]
  refine ⟨name, hmem, ?_⟩
  rw [Function.comp_apply, lineSelects, stripRegexPrefix_name (hnames name hmem),
    String.ofList_toList]
  exact beq_self_eq_true _

end Printing

end DepotDownloader.SteamClient
