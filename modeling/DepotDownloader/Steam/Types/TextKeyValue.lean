import DepotDownloader.Steam.Types.KeyValue

/-! # The text KeyValue format

Strings are quoted, sections are in braces, and whitespace and comments may stand
between any two tokens. Parsing a rendering of a tree gives the tree, however it
is laid out.
-/

namespace DepotDownloader.Steam.Types

open Foundation

/-- Errors from text KV parsing. -/
inductive TextKvError where
  | unexpectedEof
  | expectedQuote
  | expectedOpenBrace
  deriving DecidableEq, Repr

def trimStart (input : List Char) : List Char := input.dropWhile isWhitespace

def skipWhitespaceAndComments (input : List Char) : List Char :=
  match _htrim : trimStart input with
  | '/' :: '/' :: rest => skipWhitespaceAndComments (rest.dropWhile (· ≠ '\n')).tail
  | rest => rest
termination_by input.length
decreasing_by
  have htrimmed : (trimStart input).length ≤ input.length := (List.dropWhile_sublist _).length_le
  have hline : (rest.dropWhile (· ≠ '\n')).length ≤ rest.length :=
    (List.dropWhile_sublist _).length_le
  rw [_htrim, List.length_cons, List.length_cons] at htrimmed
  rw [List.length_tail]
  omega

/-- The characters behind an opening quote, up to the closing one. -/
def quotedChars (result : String) : List Char → Except TextKvError (String × List Char)
  | [] => .error .unexpectedEof
  | '"' :: rest => .ok (result, rest)
  | '\\' :: [] => .error .unexpectedEof
  | '\\' :: 'n' :: rest => quotedChars (result.push '\n') rest
  | '\\' :: 't' :: rest => quotedChars (result.push '\t') rest
  | '\\' :: '\\' :: rest => quotedChars (result.push '\\') rest
  | '\\' :: '"' :: rest => quotedChars (result.push '"') rest
  | '\\' :: char :: rest => quotedChars ((result.push '\\').push char) rest
  | char :: rest => quotedChars (result.push char) rest

def parseQuotedString (input : List Char) : Except TextKvError (String × List Char) :=
  match skipWhitespaceAndComments input with
  | '"' :: rest => quotedChars "" rest
  | _ => .error .expectedQuote

mutual

/-- Parse a key and the string or the section behind it. The fuel bounds the
recursion. -/
def parseTextNode : Nat → List Char → Except TextKvError (KeyValue × List Char)
  | 0, _ => .error .unexpectedEof
  | fuel + 1, input => do
      let input := skipWhitespaceAndComments input
      let (key, input) ← parseQuotedString input
      match skipWhitespaceAndComments input with
      | '{' :: input => do
          let (children, input) ← parseTextChildren fuel [] input
          return (⟨key, .children children⟩, input)
      | '"' :: input => do
          let (value, input) ← parseQuotedString ('"' :: input)
          return (⟨key, .string value⟩, input)
      | _ => .error .unexpectedEof

/-- Parse children until the closing brace or the end. -/
def parseTextChildren : Nat → List KeyValue → List Char →
    Except TextKvError (List KeyValue × List Char)
  | 0, _, _ => .error .unexpectedEof
  | fuel + 1, children, input =>
      match skipWhitespaceAndComments input with
      | [] => return (children, [])
      | '}' :: input => return (children, input)
      | input => do
          let (node, input) ← parseTextNode fuel input
          parseTextChildren fuel (node.insert children) input

end

/-- Parse a text-format KeyValue string. A node takes two quotes at the least, so
a fuel of the input's length is never used up. -/
def parseTextKv (input : String) : Except TextKvError KeyValue :=
  let chars := trim input.toList
  (parseTextNode (chars.length + 1) chars).map Prod.fst

/-- A gap between two tokens. -/
inductive Gap : List Char → Prop where
  | nil : Gap []
  | space {char : Char} {gap : List Char} (hspace : isWhitespace char = true) (hrest : Gap gap) :
      Gap (char :: gap)
  | comment {text gap : List Char} (htext : '\n' ∉ text) (hrest : Gap gap) :
      Gap ('/' :: '/' :: (text ++ '\n' :: gap))

/-- A rendering of a string between its quotes. -/
inductive Quoted : List Char → List Char → Prop where
  | nil : Quoted [] []
  | newline {text shown : List Char} (hrest : Quoted text shown) :
      Quoted ('\n' :: text) ('\\' :: 'n' :: shown)
  | tab {text shown : List Char} (hrest : Quoted text shown) :
      Quoted ('\t' :: text) ('\\' :: 't' :: shown)
  | backslash {text shown : List Char} (hrest : Quoted text shown) :
      Quoted ('\\' :: text) ('\\' :: '\\' :: shown)
  | quote {text shown : List Char} (hrest : Quoted text shown) :
      Quoted ('"' :: text) ('\\' :: '"' :: shown)
  | literal {char : Char} {text shown : List Char} (hquote : char ≠ '"') (hbackslash : char ≠ '\\')
      (hrest : Quoted text shown) : Quoted (char :: text) (char :: shown)

/-- A string in its quotes. -/
def quoted (shown : List Char) : List Char := '"' :: (shown ++ ['"'])

/-- The text holds the nodes one behind the other. -/
inductive Rendered : List KeyValue → List Char → Prop where
  | nil : Rendered [] []
  | leaf {key value : String} {gap shownKey gap' shownValue text : List Char}
      {nodes : List KeyValue} (hgap : Gap gap) (hkey : Quoted key.toList shownKey)
      (hgap' : Gap gap') (hvalue : Quoted value.toList shownValue) (hrest : Rendered nodes text) :
      Rendered (⟨key, .string value⟩ :: nodes)
        (gap ++ quoted shownKey ++ gap' ++ quoted shownValue ++ text)
  | branch {key : String} {children order nodes : List KeyValue}
      {gap shownKey gap' inner gap'' text : List Char} (hgap : Gap gap)
      (hkey : Quoted key.toList shownKey) (hgap' : Gap gap')
      (hchildren : SortedMap.Sorted KeyValue.key children) (horder : order.Perm children)
      (hinner : Rendered order inner) (hgap'' : Gap gap'') (hrest : Rendered nodes text) :
      Rendered (⟨key, .children children⟩ :: nodes)
        (gap ++ quoted shownKey ++ gap' ++ '{' :: (inner ++ gap'' ++ '}' :: text))

section Lexical

variable {gap shown rest : List Char} {char : Char}

/-- The character starts a token. -/
def TokenStart (char : Char) : Prop := isWhitespace char = false ∧ char ≠ '/'

theorem trimStart_space (hspace : isWhitespace char = true) (rest : List Char) :
    trimStart (char :: rest) = trimStart rest := by
  simp [trimStart, hspace]

theorem trimStart_plain (hplain : isWhitespace char = false) (rest : List Char) :
    trimStart (char :: rest) = char :: rest := by
  simp [trimStart, hplain]

/-- Skipping only looks at what is left of the input when it is trimmed. -/
theorem skip_congr {input input' : List Char} (heq : trimStart input = trimStart input') :
    skipWhitespaceAndComments input = skipWhitespaceAndComments input' := by
  rw [skipWhitespaceAndComments, skipWhitespaceAndComments, heq]

theorem skip_comment {text : List Char} (htext : '\n' ∉ text) (rest : List Char) :
    skipWhitespaceAndComments ('/' :: '/' :: (text ++ '\n' :: rest)) =
      skipWhitespaceAndComments rest := by
  have hline : ∀ char ∈ text, decide (char ≠ '\n') = true := by
    intro char hmem
    apply decide_eq_true
    rintro rfl
    exact htext hmem
  rw [skipWhitespaceAndComments, trimStart_plain (by decide)]
  simp only
  rw [List.dropWhile_append_of_pos hline]
  rfl

theorem skip_token (hstart : TokenStart char) (rest : List Char) :
    skipWhitespaceAndComments (char :: rest) = char :: rest := by
  rw [skipWhitespaceAndComments, trimStart_plain hstart.1]
  split
  next heq => exact absurd (List.cons.inj heq).1 hstart.2
  next => rfl

/-- A gap is skipped up to the next token. -/
theorem Gap.skip (hgap : Gap gap) (hstart : TokenStart char) (rest : List Char) :
    skipWhitespaceAndComments (gap ++ char :: rest) = char :: rest := by
  induction hgap with
  | nil => exact skip_token hstart rest
  | space hspace _ ih =>
      rw [List.cons_append, skip_congr (trimStart_space hspace _), ih]
  | comment htext _ ih =>
      rw [List.cons_append, List.cons_append, List.append_assoc, List.cons_append,
        skip_comment htext, ih]

theorem tokenStart_quote : TokenStart '"' := by constructor <;> decide

theorem tokenStart_open : TokenStart '{' := by constructor <;> decide

theorem tokenStart_close : TokenStart '}' := by constructor <;> decide

theorem push_append (result : String) (char : Char) (text : List Char) :
    result.push char ++ String.ofList text = result ++ String.ofList (char :: text) := by
  rw [← String.toList_inj]
  simp

theorem quotedChars_literal (hquote : char ≠ '"') (hbackslash : char ≠ '\\') (result : String)
    (rest : List Char) :
    quotedChars result (char :: rest) = quotedChars (result.push char) rest := by
  rw [quotedChars.eq_def]
  split <;> simp_all

/-- The characters of a rendered string are read up to its closing quote. -/
theorem Quoted.read {text : List Char} (hquoted : Quoted text shown) (result : String)
    (rest : List Char) :
    quotedChars result (shown ++ '"' :: rest) = .ok (result ++ String.ofList text, rest) := by
  induction hquoted generalizing result with
  | nil => simp [quotedChars]
  | newline _ ih | tab _ ih | backslash _ ih | quote _ ih =>
      rw [List.cons_append, List.cons_append, quotedChars, ih, push_append]
  | literal hquote hbackslash _ ih =>
      rw [List.cons_append, quotedChars_literal hquote hbackslash, ih, push_append]

theorem parseQuotedString_quoted {text : String} (hgap : Gap gap)
    (hquoted : Quoted text.toList shown) (rest : List Char) :
    parseQuotedString (gap ++ quoted shown ++ rest) = .ok (text, rest) := by
  have hshown : gap ++ quoted shown ++ rest = gap ++ '"' :: (shown ++ '"' :: rest) := by
    simp [quoted]
  rw [hshown, parseQuotedString, hgap.skip tokenStart_quote]
  simp only
  rw [hquoted.read, String.ofList_toList]
  simp

end Lexical

section Nodes

variable {key value : String} {gap gap' shown shown' rest : List Char} {fuel : Nat}

theorem skip_quoted (hgap : Gap gap) (shown rest : List Char) :
    skipWhitespaceAndComments (gap ++ (quoted shown ++ rest)) = quoted shown ++ rest := by
  rw [quoted, List.cons_append]
  exact hgap.skip tokenStart_quote _

theorem length_quoted (shown : List Char) : (quoted shown).length = shown.length + 2 := by
  simp [quoted]

theorem parseTextNode_leaf (hgap : Gap gap) (hkey : Quoted key.toList shown) (hgap' : Gap gap')
    (hvalue : Quoted value.toList shown') (fuel : Nat) (rest : List Char) :
    parseTextNode (fuel + 1) (gap ++ quoted shown ++ gap' ++ quoted shown' ++ rest) =
      .ok (⟨key, .string value⟩, rest) := by
  have hname := parseQuotedString_quoted Gap.nil hkey (gap' ++ (quoted shown' ++ rest))
  have htext := parseQuotedString_quoted Gap.nil hvalue rest
  rw [List.nil_append] at hname htext
  have hopen : quoted shown' ++ rest = '"' :: (shown' ++ ['"'] ++ rest) := rfl
  simp only [List.append_assoc, parseTextNode, skip_quoted hgap, hname, bind, Except.bind,
    skip_quoted hgap']
  rw [hopen] at htext ⊢
  simp only [htext]
  rfl

/-- A section is parsed back when its children are. -/
theorem parseTextNode_branch (hgap : Gap gap) (hkey : Quoted key.toList shown) (hgap' : Gap gap')
    {children : List KeyValue} {input : List Char}
    (hchildren : parseTextChildren fuel [] input = .ok (children, rest)) :
    parseTextNode (fuel + 1) (gap ++ quoted shown ++ gap' ++ '{' :: input) =
      .ok (⟨key, .children children⟩, rest) := by
  have hname := parseQuotedString_quoted Gap.nil hkey (gap' ++ '{' :: input)
  rw [List.nil_append] at hname
  simp only [List.append_assoc, parseTextNode, skip_quoted hgap, hname, bind, Except.bind,
    hgap'.skip tokenStart_open, hchildren]
  rfl

/-- One more node is parsed and inserted. -/
theorem parseTextChildren_node (hgap : Gap gap) {children : List KeyValue} {node : KeyValue}
    {input : List Char} (hnode : parseTextNode fuel (quoted shown ++ input) = .ok (node, rest)) :
    parseTextChildren (fuel + 1) children (gap ++ (quoted shown ++ input)) =
      parseTextChildren fuel (node.insert children) rest := by
  rw [parseTextChildren, skip_quoted hgap]
  change (do
    let (node, input) ← parseTextNode fuel (quoted shown ++ input)
    parseTextChildren fuel (node.insert children) input) = _
  rw [hnode]
  rfl

theorem parseTextChildren_end (hgap : Gap gap) (fuel : Nat) (children : List KeyValue)
    (rest : List Char) :
    parseTextChildren (fuel + 1) children (gap ++ '}' :: rest) = .ok (children, rest) := by
  rw [parseTextChildren, hgap.skip tokenStart_close]
  rfl

/-- Nodes in front of a closing brace are parsed and inserted one by one. The
induction follows the rendering: a section needs it for its own children, and
every node for the nodes behind it. -/
theorem Rendered.parse {nodes : List KeyValue} {text : List Char} (hrendered : Rendered nodes text)
    (hgap : Gap gap) (fuel : Nat) (children : List KeyValue) (rest : List Char)
    (hfuel : text.length + gap.length + rest.length + 1 < fuel) :
    parseTextChildren fuel children (text ++ (gap ++ '}' :: rest)) =
      .ok (nodes.foldl (fun children node => node.insert children) children, rest) := by
  induction hrendered generalizing gap fuel children rest with
  | nil =>
      obtain ⟨fuel, rfl⟩ : ∃ less, fuel = less + 1 := ⟨fuel - 1, by omega⟩
      exact parseTextChildren_end hgap fuel children rest
  | @leaf key value gap₁ shownKey gap₂ shownValue text nodes hgap₁ hkey hgap₂ hvalue _ ih =>
      obtain ⟨fuel, rfl⟩ : ∃ less, fuel = less + 2 := ⟨fuel - 2, by omega⟩
      simp only [List.length_append, length_quoted] at hfuel
      have hnode := parseTextNode_leaf Gap.nil hkey hgap₂ hvalue fuel
        (text ++ (gap ++ '}' :: rest))
      simp only [List.nil_append, List.append_assoc] at hnode ⊢
      rw [parseTextChildren_node hgap₁ hnode, ih hgap _ _ _ (by omega), List.foldl_cons]
  | @branch key inside order nodes gap₁ shownKey gap₂ inner gap₃ text hgap₁ hkey hgap₂ hsorted
      horder _ hgap₃ _ ihin ihout =>
      obtain ⟨fuel, rfl⟩ : ∃ less, fuel = less + 2 := ⟨fuel - 2, by omega⟩
      simp only [List.length_append, List.length_cons, length_quoted] at hfuel
      have hinner := ihin hgap₃ fuel [] (text ++ (gap ++ '}' :: rest)) (by
        simp only [List.length_append, List.length_cons]
        omega)
      rw [show order.foldl (fun children node => node.insert children) [] = inside from
        SortedMap.foldl_insert_perm hsorted horder] at hinner
      have hnode := parseTextNode_branch Gap.nil hkey hgap₂ hinner
      simp only [List.nil_append, List.append_assoc, List.cons_append] at hnode ⊢
      rw [parseTextChildren_node hgap₁ hnode, ihout hgap _ _ _ (by omega), List.foldl_cons]

/-- A rendering of one tree is parsed back, whatever comes behind it. -/
theorem Rendered.parseNode {tree : KeyValue} {text : List Char} (hrendered : Rendered [tree] text)
    (rest : List Char) :
    parseTextNode ((text ++ rest).length + 1) (text ++ rest) = .ok (tree, rest) := by
  cases hrendered with
  | leaf hgap hkey hgap' hvalue hrest =>
      cases hrest
      rw [List.append_nil]
      exact parseTextNode_leaf hgap hkey hgap' hvalue _ rest
  | @branch key inside order _ gap₁ shownKey gap₂ inner gap₃ _ hgap₁ hkey hgap₂ hsorted horder
      hinner hgap₃ hrest =>
      cases hrest
      have hparse := hinner.parse hgap₃
        ((gap₁ ++ quoted shownKey ++ gap₂ ++ '{' :: (inner ++ gap₃ ++ ['}']) ++ rest).length) []
        rest (by
          simp only [List.length_append, List.length_cons, length_quoted]
          omega)
      rw [show order.foldl (fun children node => node.insert children) [] = inside from
        SortedMap.foldl_insert_perm hsorted horder] at hparse
      have hnode := parseTextNode_branch hgap₁ hkey hgap₂ hparse
      simpa only [List.append_assoc, List.cons_append, List.nil_append] using hnode

end Nodes

section Trim

variable {gap rest : List Char}

/-- What trimming leaves of a gap is a gap. -/
theorem Gap.trimStart (hgap : Gap gap) :
    ∃ left, Gap left ∧
      ∀ rest, (gap ++ '"' :: rest).dropWhile isWhitespace = left ++ '"' :: rest := by
  induction hgap with
  | nil => exact ⟨[], .nil, fun rest => trimStart_plain tokenStart_quote.1 rest⟩
  | space hspace _ ih =>
      obtain ⟨left, hleft, htrim⟩ := ih
      refine ⟨left, hleft, fun rest => ?_⟩
      rw [← htrim rest]
      exact trimStart_space hspace _
  | @comment text gap htext hrest _ =>
      exact ⟨_, .comment htext hrest, fun rest => trimStart_plain (by decide) _⟩

theorem trim_gap (hgap : Gap gap) (last : Char) (hlast : isWhitespace last = false)
    (middle trail : List Char) : ∃ left right, Gap left ∧
      trim (gap ++ '"' :: (middle ++ last :: trail)) =
        left ++ '"' :: (middle ++ last :: right) := by
  obtain ⟨left, hleft, htrim⟩ := hgap.trimStart
  refine ⟨left, (trail.reverse.dropWhile isWhitespace).reverse, hleft, ?_⟩
  have hstop : (trail.reverse ++ last :: (left ++ '"' :: middle).reverse).dropWhile isWhitespace =
      trail.reverse.dropWhile isWhitespace ++ last :: (left ++ '"' :: middle).reverse := by
    induction trail.reverse with
    | nil => simp [hlast]
    | cons char trail ih =>
        by_cases hspace : isWhitespace char = true
        · simpa [hspace] using ih
        · simp [hspace]
  have hreverse : (left ++ '"' :: (middle ++ last :: trail)).reverse =
      trail.reverse ++ last :: (left ++ '"' :: middle).reverse := by simp
  rw [trim, htrim, hreverse, hstop]
  simp

/-- Trimming leaves a rendering of the same tree. -/
theorem Rendered.trim {tree : KeyValue} {text : List Char} (hrendered : Rendered [tree] text)
    (trail : List Char) :
    ∃ text' right, Rendered [tree] text' ∧ Steam.trim (text ++ trail) = text' ++ right := by
  cases hrendered with
  | @leaf _ _ gap shownKey gap' shownValue _ _ hgap hkey hgap' hvalue hrest =>
      cases hrest
      obtain ⟨left, right, hleft, htrim⟩ := trim_gap hgap '"' tokenStart_quote.1
        (shownKey ++ '"' :: (gap' ++ '"' :: shownValue)) trail
      refine ⟨_, right, .leaf hleft hkey hgap' hvalue .nil, ?_⟩
      simpa [quoted] using htrim
  | @branch _ _ _ _ gap shownKey gap' inner gap'' _ hgap hkey hgap' hsorted horder hinner hgap''
      hrest =>
      cases hrest
      obtain ⟨left, right, hleft, htrim⟩ := trim_gap hgap '}' tokenStart_close.1
        (shownKey ++ '"' :: (gap' ++ '{' :: (inner ++ gap''))) trail
      refine ⟨_, right, .branch hleft hkey hgap' hsorted horder hinner hgap'' .nil, ?_⟩
      simpa [quoted] using htrim

end Trim

/-- Text KeyValue round trip: parsing a rendering of a tree gives exactly that tree,
whatever the layout between the tokens and whatever comes behind. -/
theorem parseTextKv_rendered {tree : KeyValue} {text : List Char}
    (hrendered : Rendered [tree] text) (trail : List Char) :
    parseTextKv (String.ofList (text ++ trail)) = .ok tree := by
  obtain ⟨text', right, hrendered', htrim⟩ := hrendered.trim trail
  unfold parseTextKv
  rw [String.toList_ofList, htrim]
  simp only
  rw [hrendered'.parseNode right]
  rfl

/-- A section behind a comment, with a brace and an escaped newline in a value. -/
theorem parseTextKv_rendered_sample :
    parseTextKv (String.ofList (([] ++ quoted ['a'] ++ '/' :: '/' :: (['x'] ++ ['\n']) ++
        '{' :: (([' '] ++ quoted ['b'] ++ [] ++ quoted ['{', '\\', 'n'] ++ []) ++
          ['\t'] ++ ['}'])) ++ ['z'])) =
      .ok ⟨"a", .children [⟨"b", .string "\x7b\n"⟩]⟩ := by
  apply parseTextKv_rendered
  have hvalue : Quoted "\x7b\n".toList ['{', '\\', 'n'] :=
    .literal (by decide) (by decide) (.newline .nil)
  apply Rendered.branch
  · exact Gap.nil
  · exact Quoted.literal (by decide) (by decide) .nil
  · exact Gap.comment (by decide) .nil
  · exact List.pairwise_singleton _ _
  · exact List.Perm.refl _
  · exact Rendered.leaf (.space (by decide) .nil) (.literal (by decide) (by decide) .nil) .nil
      hvalue .nil
  · exact Gap.space (by decide) .nil
  · exact Rendered.nil

end DepotDownloader.Steam.Types
