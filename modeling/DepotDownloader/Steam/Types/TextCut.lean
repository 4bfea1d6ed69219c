import DepotDownloader.Steam.Types.TextKeyValue
import Mathlib.Data.List.DropRight

/-! # Cut text

A rendering of a section that ends before the closing brace. The parser refuses it
when it ends inside a string, between a key and its value or inside the slashes of a
comment. Where a child may begin it takes the end of the input for a closing brace.
-/

namespace DepotDownloader.Steam.Types

open Foundation

/-- Whitespace and comments, of which the last may be cut. -/
inductive Blank : List Char → Prop where
  | nil : Blank []
  | space {char : Char} {gap : List Char} (hspace : isWhitespace char = true) (hrest : Blank gap) :
      Blank (char :: gap)
  | comment {text gap : List Char} (htext : '\n' ∉ text) (hrest : Blank gap) :
      Blank ('/' :: '/' :: (text ++ '\n' :: gap))
  | unended {text : List Char} (htext : '\n' ∉ text) : Blank ('/' :: '/' :: text)

/-- The inside of a section, up to a place where a child may begin: complete nodes, and
keys with an opening brace behind them. -/
inductive Unclosed : List Char → Prop where
  | blank {gap : List Char} (hgap : Blank gap) : Unclosed gap
  | behind {node : KeyValue} {text rest : List Char} (hnode : Rendered [node] text)
      (hrest : Unclosed rest) : Unclosed (text ++ rest)
  | inside {key : String} {gap shown gap' rest : List Char} (hgap : Gap gap)
      (hkey : Quoted key.toList shown) (hgap' : Gap gap') (hrest : Unclosed rest) :
      Unclosed (gap ++ quoted shown ++ gap' ++ '{' :: rest)

/-- The text is that of a section which ends where a child may begin. -/
inductive EndsAtChild : List Char → Prop where
  | mk {key : String} {gap shown gap' rest : List Char} (hgap : Gap gap)
      (hkey : Quoted key.toList shown) (hgap' : Gap gap') (hrest : Unclosed rest) :
      EndsAtChild (gap ++ quoted shown ++ gap' ++ '{' :: rest)

/-- A prefix ends in the first part, or it goes on in the second. -/
theorem cut_append_cases {α : Type} {cut front rest : List α} (hcut : cut <+: front ++ rest) :
    cut <+: front ∨ ∃ item tail, cut = front ++ item :: tail ∧ item :: tail <+: rest := by
  rcases List.prefix_or_prefix_of_prefix hcut (List.prefix_append front rest) with hle | hge
  · exact .inl hle
  · obtain ⟨tail, rfl⟩ := hge
    cases tail with
    | nil => exact .inl (by simp)
    | cons item tail =>
        exact .inr ⟨item, tail, rfl, (List.prefix_append_right_inj front).mp hcut⟩

section Lexical

variable {gap cut shown text rest : List Char} {char : Char}

theorem skip_line (htext : '\n' ∉ text) : skipWhitespaceAndComments ('/' :: '/' :: text) = [] := by
  have hline : text.dropWhile (· ≠ '\n') = [] := by
    apply List.dropWhile_eq_nil_iff.mpr
    intro char hmem
    apply decide_eq_true
    rintro rfl
    exact htext hmem
  rw [skipWhitespaceAndComments, trimStart_plain (by decide)]
  simp only [hline, List.tail_nil]
  rw [skipWhitespaceAndComments]
  rfl

theorem Blank.skip (hblank : Blank gap) : skipWhitespaceAndComments gap = [] := by
  induction hblank with
  | nil =>
      rw [skipWhitespaceAndComments]
      rfl
  | space hspace _ ih => rw [skip_congr (trimStart_space hspace _), ih]
  | comment htext _ ih => rw [skip_comment htext, ih]
  | unended htext => exact skip_line htext

/-- Skipping stops at what it would not skip. -/
theorem skip_skip (input : List Char) :
    skipWhitespaceAndComments (skipWhitespaceAndComments input) =
      skipWhitespaceAndComments input := by
  fun_induction skipWhitespaceAndComments input with
  | case1 input rest htrim ih => exact ih
  | case2 input hplain =>
      have htwice : trimStart (trimStart input) = trimStart input :=
        List.dropWhile_idempotent isWhitespace input
      rw [skip_congr htwice, skipWhitespaceAndComments.eq_def input]
      split
      next line htrim => exact (hplain line htrim).elim
      next => rfl

/-- A gap that is cut is blank, or it ends between the slashes of a comment. -/
theorem Gap.prefix_cases (hgap : Gap gap) (hcut : cut <+: gap) :
    Blank cut ∨ skipWhitespaceAndComments cut = ['/'] := by
  induction hgap generalizing cut with
  | nil =>
      rw [List.prefix_nil.mp hcut]
      exact .inl .nil
  | @space char gap hspace _ ih =>
      rcases List.prefix_cons_iff.mp hcut with rfl | ⟨tail, rfl, htail⟩
      · exact .inl .nil
      · rcases ih htail with hblank | hslash
        · exact .inl (.space hspace hblank)
        · right
          rw [skip_congr (trimStart_space hspace _), hslash]
  | @comment text gap htext _ ih =>
      rcases List.prefix_cons_iff.mp hcut with rfl | ⟨tail, rfl, htail⟩
      · exact .inl .nil
      · rcases List.prefix_cons_iff.mp htail with rfl | ⟨line, rfl, hline⟩
        · right
          rw [skipWhitespaceAndComments]
          rfl
        · rcases cut_append_cases hline with hline | ⟨newline, left, rfl, hbehind⟩
          · exact .inl (.unended fun hmem => htext (hline.subset hmem))
          · obtain ⟨rfl, hleft⟩ := List.cons_prefix_cons.mp hbehind
            rcases ih hleft with hblank | hslash
            · exact .inl (.comment htext hblank)
            · right
              rw [skip_comment htext, hslash]

theorem Quoted.read_cut {text : List Char} (hquoted : Quoted text shown) (hcut : cut <+: shown)
    (result : String) : quotedChars result cut = .error .unexpectedEof := by
  induction hquoted generalizing cut result with
  | nil =>
      rw [List.prefix_nil.mp hcut]
      rfl
  | newline _ ih | tab _ ih | backslash _ ih | quote _ ih =>
      rcases List.prefix_cons_iff.mp hcut with rfl | ⟨tail, rfl, htail⟩
      · rfl
      · rcases List.prefix_cons_iff.mp htail with rfl | ⟨left, rfl, hleft⟩
        · rfl
        · rw [quotedChars, ih hleft]
  | literal hquote hbackslash _ ih =>
      rcases List.prefix_cons_iff.mp hcut with rfl | ⟨tail, rfl, htail⟩
      · rfl
      · rw [quotedChars_literal hquote hbackslash, ih htail]

theorem length_skip_le (input : List Char) :
    (skipWhitespaceAndComments input).length ≤ input.length := by
  fun_induction skipWhitespaceAndComments input with
  | case1 input rest htrim ih =>
      have htrimmed : (trimStart input).length ≤ input.length :=
        (List.dropWhile_sublist _).length_le
      have hline : (rest.dropWhile (· ≠ '\n')).length ≤ rest.length :=
        (List.dropWhile_sublist _).length_le
      rw [htrim, List.length_cons, List.length_cons] at htrimmed
      rw [List.length_tail] at ih
      omega
  | case2 input => exact (List.dropWhile_sublist _).length_le

theorem length_of_quotedChars {result value : String} {input : List Char}
    (hread : quotedChars result input = .ok (value, rest)) : rest.length < input.length := by
  fun_induction quotedChars result input with
  | case1 => cases hread
  | case2 =>
      cases hread
      simp
  | case3 => cases hread
  | case4 | case5 | case6 | case7 | case8 | case9 =>
      next ih =>
        have hlt := ih hread
        simp only [List.length_cons]
        omega

theorem length_of_parseQuotedString {value : String} {input : List Char}
    (hread : parseQuotedString input = .ok (value, rest)) : rest.length + 2 ≤ input.length := by
  have hskip := length_skip_le input
  unfold parseQuotedString at hread
  split at hread
  next behind hquote =>
    have hlt := length_of_quotedChars hread
    rw [hquote, List.length_cons] at hskip
    omega
  next => cases hread

end Lexical

section Fuel

variable {input rest : List Char}

/-- A node takes at least the quotes of its key. -/
theorem length_of_parseText (fuel : Nat) :
    (∀ input node rest, parseTextNode fuel input = .ok (node, rest) →
      rest.length + 2 ≤ input.length) ∧
    (∀ children input children' rest,
      parseTextChildren fuel children input = .ok (children', rest) →
        rest.length ≤ input.length) := by
  induction fuel with
  | zero =>
      constructor
      · intro input node rest hparse
        cases hparse
      · intro children input children' rest hparse
        cases hparse
  | succ fuel ih =>
      obtain ⟨ihnode, ihchildren⟩ := ih
      constructor
      · intro input node rest hparse
        rw [parseTextNode] at hparse
        obtain ⟨⟨key, behind⟩, hkey, hvalue⟩ := bind_eq_ok.mp hparse
        have hlead := length_of_parseQuotedString hkey
        have hskip := length_skip_le input
        have hgap := length_skip_le behind
        simp only at hvalue
        split at hvalue
        next inner hopen =>
          obtain ⟨⟨children, left⟩, hinner, hreturn⟩ := bind_eq_ok.mp hvalue
          cases hreturn
          have hle := ihchildren _ _ _ _ hinner
          rw [hopen, List.length_cons] at hgap
          change left.length + 2 ≤ input.length
          omega
        next inner hquote =>
          obtain ⟨⟨text, left⟩, htext, hreturn⟩ := bind_eq_ok.mp hvalue
          cases hreturn
          have hlt := length_of_parseQuotedString htext
          rw [hquote] at hgap
          change left.length + 2 ≤ input.length
          omega
        next => cases hvalue
      · intro children input children' rest hparse
        have hskip := length_skip_le input
        rw [parseTextChildren] at hparse
        split at hparse
        next => cases hparse; exact Nat.zero_le _
        next behind hclose =>
          cases hparse
          rw [hclose, List.length_cons] at hskip
          omega
        next =>
          obtain ⟨⟨node, behind⟩, hnode, hrest⟩ := bind_eq_ok.mp hparse
          have hlt := ihnode _ _ _ hnode
          have hle := ihchildren _ _ _ _ hrest
          omega

/-- More fuel than the input is long changes nothing: what is left of the input stays
behind what is left of the fuel. -/
theorem parseText_fuel (fuel : Nat) :
    (∀ fuel' input, input.length < fuel → input.length < fuel' →
      parseTextNode fuel input = parseTextNode fuel' input) ∧
    (∀ fuel' children input, input.length + 1 < fuel → input.length + 1 < fuel' →
      parseTextChildren fuel children input = parseTextChildren fuel' children input) := by
  induction fuel with
  | zero =>
      constructor
      · intro fuel' input hfuel
        omega
      · intro fuel' children input hfuel
        omega
  | succ fuel ih =>
      obtain ⟨ihnode, ihchildren⟩ := ih
      constructor
      · intro fuel' input hfuel hfuel'
        obtain ⟨fuel', rfl⟩ : ∃ less, fuel' = less + 1 := ⟨fuel' - 1, by omega⟩
        rw [parseTextNode, parseTextNode]
        apply bind_congr_ok
        rintro ⟨key, behind⟩ hkey
        have hlead := length_of_parseQuotedString hkey
        have hskip := length_skip_le input
        have hgap := length_skip_le behind
        simp only
        split
        next inner hopen =>
          rw [hopen, List.length_cons] at hgap
          rw [ihchildren fuel' [] inner (by omega) (by omega)]
        next => rfl
        next => rfl
      · intro fuel' children input hfuel hfuel'
        obtain ⟨fuel', rfl⟩ : ∃ less, fuel' = less + 1 := ⟨fuel' - 1, by omega⟩
        have hskip := length_skip_le input
        rw [parseTextChildren, parseTextChildren]
        split
        next => rfl
        next => rfl
        next =>
          rw [ihnode fuel' _ (by omega) (by omega)]
          apply bind_congr_ok
          rintro ⟨node, behind⟩ hnode
          have hlt := (length_of_parseText fuel').1 _ _ _ hnode
          exact ihchildren fuel' _ behind (by omega) (by omega)

end Fuel

section Cut

variable {key : String} {cut gap gap' shown tail text rest : List Char}

/-- The parser refuses the node at the front of the text. -/
structure Refused (text : List Char) : Prop where
  starts : ∃ first rest, skipWhitespaceAndComments text = first :: rest ∧ first ≠ '}'
  fails : ∀ fuel, text.length < fuel → ∃ error, parseTextNode fuel text = .error error

theorem parseTextNode_skip (fuel : Nat) (input : List Char) :
    parseTextNode fuel (skipWhitespaceAndComments input) = parseTextNode fuel input := by
  cases fuel with
  | zero => rfl
  | succ fuel => rw [parseTextNode, parseTextNode, skip_skip]

theorem Refused.children (hrefused : Refused text) {fuel : Nat} (hfuel : text.length + 1 < fuel)
    (children : List KeyValue) : ∃ error, parseTextChildren fuel children text = .error error := by
  obtain ⟨⟨first, rest, hstart, hbrace⟩, hfails⟩ := hrefused
  obtain ⟨fuel, rfl⟩ : ∃ less, fuel = less + 1 := ⟨fuel - 1, by omega⟩
  obtain ⟨error, herror⟩ := hfails fuel (by omega)
  refine ⟨error, ?_⟩
  rw [parseTextChildren]
  split
  next hnone =>
    rw [hnone] at hstart
    cases hstart
  next hclose =>
    rw [hclose] at hstart
    cases hstart
    exact absurd rfl hbrace
  next =>
    rw [parseTextNode_skip, herror]
    rfl

/-- The key of a node is refused when its string is. -/
theorem parseTextNode_key {error : TextKvError}
    (hkey : parseQuotedString (skipWhitespaceAndComments text) = .error error) (fuel : Nat)
    (hfuel : text.length < fuel) : ∃ error, parseTextNode fuel text = .error error := by
  obtain ⟨fuel, rfl⟩ : ∃ less, fuel = less + 1 := ⟨fuel - 1, by omega⟩
  refine ⟨error, ?_⟩
  rw [parseTextNode]
  simp only [hkey]
  rfl

theorem refused_slash (hslash : skipWhitespaceAndComments text = ['/']) : Refused text where
  starts := ⟨'/', [], hslash, by decide⟩
  fails := by
    have hkey : parseQuotedString (skipWhitespaceAndComments text) = .error .expectedQuote := by
      rw [parseQuotedString, skip_skip, hslash]
      rfl
    exact parseTextNode_key hkey

/-- A key that is cut is refused. -/
theorem refused_key (hgap : Gap gap) (hkey : Quoted key.toList shown) (hcut : cut <+: shown) :
    Refused (gap ++ '"' :: cut) where
  starts := ⟨'"', cut, hgap.skip tokenStart_quote cut, by decide⟩
  fails := by
    have hstring : parseQuotedString (skipWhitespaceAndComments (gap ++ '"' :: cut)) =
        .error .unexpectedEof := by
      rw [parseQuotedString, skip_skip, hgap.skip tokenStart_quote]
      exact hkey.read_cut hcut ""
    exact parseTextNode_key hstring

/-- What the parser does behind a key and the gap after it. -/
def textValue (fuel : Nat) (key : String) (input : List Char) :
    Except TextKvError (KeyValue × List Char) :=
  match input with
  | '{' :: input => do
      let (children, input) ← parseTextChildren fuel [] input
      return (⟨key, .children children⟩, input)
  | '"' :: input => do
      let (value, input) ← parseQuotedString ('"' :: input)
      return (⟨key, .string value⟩, input)
  | _ => .error .unexpectedEof

theorem parseTextNode_value (hgap : Gap gap) (hkey : Quoted key.toList shown) (fuel : Nat)
    (tail : List Char) :
    parseTextNode (fuel + 1) (gap ++ quoted shown ++ tail) =
      textValue fuel key (skipWhitespaceAndComments tail) := by
  have hname := parseQuotedString_quoted Gap.nil hkey tail
  rw [List.nil_append] at hname
  rw [List.append_assoc, parseTextNode, skip_quoted hgap, hname]
  rfl

/-- A key behind which there is no whole value is refused. -/
theorem refused_value (hgap : Gap gap) (hkey : Quoted key.toList shown)
    (hvalue : ∀ fuel, tail.length < fuel →
      ∃ error, textValue fuel key (skipWhitespaceAndComments tail) = .error error) :
    Refused (gap ++ quoted shown ++ tail) where
  starts := by
    rw [List.append_assoc, skip_quoted hgap]
    exact ⟨'"', _, rfl, by decide⟩
  fails fuel hfuel := by
    obtain ⟨fuel, rfl⟩ : ∃ less, fuel = less + 1 := ⟨fuel - 1, by omega⟩
    rw [parseTextNode_value hgap hkey]
    apply hvalue
    simp only [List.length_append, length_quoted] at hfuel
    omega

/-- A node that is cut in front of its value is blank or refused. -/
theorem head_cut (hgap : Gap gap) (hkey : Quoted key.toList shown) (hgap' : Gap gap')
    (hcut : cut <+: gap ++ quoted shown ++ gap' ++ tail) :
    (Blank cut ∨ Refused cut) ∨ ∃ char left, cut = gap ++ quoted shown ++ gap' ++ char :: left ∧
      char :: left <+: tail := by
  rcases cut_append_cases hcut with hhead | hbeyond
  · left
    rcases cut_append_cases hhead with hhead | ⟨char, left, rfl, hleft⟩
    · rcases cut_append_cases hhead with hhead | ⟨char, left, rfl, hleft⟩
      · exact (hgap.prefix_cases hhead).imp_right refused_slash
      · right
        obtain ⟨rfl, hinside⟩ := List.cons_prefix_cons.mp hleft
        rcases cut_append_cases hinside with hinside | ⟨char, rest, rfl, hend⟩
        · exact refused_key hgap hkey hinside
        -- the whole key, with nothing behind it
        · obtain ⟨rfl, hrest⟩ := List.cons_prefix_cons.mp hend
          rw [List.prefix_nil.mp hrest]
          have hvalue : Refused (gap ++ quoted shown ++ []) := by
            apply refused_value hgap hkey
            intro fuel _
            rw [Blank.nil.skip]
            exact ⟨_, rfl⟩
          simpa [quoted] using hvalue
    · right
      apply refused_value hgap hkey
      intro fuel _
      rcases hgap'.prefix_cases hleft with hblank | hslash
      · rw [hblank.skip]
        exact ⟨_, rfl⟩
      · rw [hslash]
        exact ⟨_, rfl⟩
  · exact .inr hbeyond

/-- A complete node in front is parsed and inserted. -/
theorem parseTextChildren_behind {node : KeyValue} (hnode : Rendered [node] text)
    (rest : List Char) {fuel : Nat} (hfuel : (text ++ rest).length < fuel)
    (children : List KeyValue) :
    parseTextChildren (fuel + 1) children (text ++ rest) =
      parseTextChildren fuel (node.insert children) rest := by
  have hparse := hnode.parseNode rest
  rw [(parseText_fuel _).1 fuel _ (by omega) hfuel] at hparse
  have hstart : ∃ behind, skipWhitespaceAndComments (text ++ rest) = '"' :: behind := by
    cases hnode with
    | leaf hgap | branch hgap =>
        simp only [List.append_assoc, skip_quoted hgap]
        exact ⟨_, rfl⟩
  obtain ⟨behind, hbehind⟩ := hstart
  have hfirst : parseTextNode fuel ('"' :: behind) = .ok (node, rest) := by
    rw [← hbehind, parseTextNode_skip, hparse]
  rw [parseTextChildren, hbehind]
  change (parseTextNode fuel ('"' :: behind) >>= fun parsed =>
    parseTextChildren fuel (parsed.1.insert children) parsed.2) = _
  rw [hfirst]
  rfl

/-- The inside of a section that is cut ends where a child may begin, or is refused. -/
def CutInside (cut : List Char) : Prop :=
  Unclosed cut ∨ ∀ fuel children, cut.length + 1 < fuel →
    ∃ error, parseTextChildren fuel children cut = .error error

theorem CutInside.of_head (hhead : Blank cut ∨ Refused cut) : CutInside cut := by
  rcases hhead with hblank | hrefused
  · exact .inl (.blank hblank)
  · exact .inr fun fuel children hfuel => hrefused.children hfuel children

theorem length_rendered_pos {node : KeyValue} (hnode : Rendered [node] text) :
    0 < text.length := by
  cases hnode <;> simp [length_quoted]

/-- Behind a complete node it is the rest that counts. -/
theorem CutInside.behind {node : KeyValue} (hnode : Rendered [node] text)
    (hrest : CutInside rest) : CutInside (text ++ rest) := by
  rcases hrest with hunclosed | hfails
  · exact .inl (.behind hnode hunclosed)
  · right
    intro fuel children hfuel
    obtain ⟨fuel, rfl⟩ : ∃ less, fuel = less + 1 := ⟨fuel - 1, by omega⟩
    rw [parseTextChildren_behind hnode rest (by omega)]
    have hlonger := length_rendered_pos hnode
    rw [List.length_append] at hfuel
    exact hfails fuel _ (by omega)

/-- A node whose section is refused is refused. -/
theorem refused_section (hgap : Gap gap) (hkey : Quoted key.toList shown) (hgap' : Gap gap')
    (hfails : ∀ fuel children, cut.length + 1 < fuel →
      ∃ error, parseTextChildren fuel children cut = .error error) :
    Refused (gap ++ quoted shown ++ gap' ++ '{' :: cut) := by
  rw [List.append_assoc]
  apply refused_value hgap hkey
  intro fuel hfuel
  rw [List.length_append, List.length_cons] at hfuel
  obtain ⟨error, herror⟩ := hfails fuel [] (by omega)
  rw [hgap'.skip tokenStart_open]
  refine ⟨error, ?_⟩
  simp only [textValue, herror]
  rfl

/-- A node whose string is cut is refused. -/
theorem refused_string {value : String} (hgap : Gap gap) (hkey : Quoted key.toList shown)
    (hgap' : Gap gap') (hvalue : Quoted value.toList text) (hcut : cut <+: text) :
    Refused (gap ++ quoted shown ++ gap' ++ '"' :: cut) := by
  rw [List.append_assoc]
  apply refused_value hgap hkey
  intro fuel _
  have hstring : parseQuotedString ('"' :: cut) = .error .unexpectedEof := by
    rw [parseQuotedString, skip_token tokenStart_quote]
    exact hvalue.read_cut hcut ""
  rw [hgap'.skip tokenStart_quote]
  refine ⟨.unexpectedEof, ?_⟩
  simp only [textValue, hstring]
  rfl

/-- The inside of a rendered section, cut anywhere. The induction follows the
rendering: a section needs it for its own children, and every node for the nodes
behind it. -/
theorem Rendered.cutInside {nodes : List KeyValue} (hrendered : Rendered nodes text)
    (hgap : Gap gap) (hcut : cut <+: text ++ gap) : CutInside cut := by
  induction hrendered generalizing gap cut with
  | nil => exact .of_head ((hgap.prefix_cases hcut).imp_right refused_slash)
  | @leaf key value gap₁ shownKey gap₂ shownValue text nodes hgap₁ hkey hgap₂ hvalue _ ih =>
      rw [List.append_assoc, List.append_assoc _ (quoted shownValue)] at hcut
      rcases head_cut hgap₁ hkey hgap₂ hcut with hhead | ⟨char, left, rfl, hleft⟩
      · exact .of_head hhead
      · rw [quoted, List.cons_append, List.append_assoc] at hleft
        obtain ⟨rfl, hvalued⟩ := List.cons_prefix_cons.mp hleft
        rcases cut_append_cases hvalued with hstring | ⟨char, behind, rfl, hquote⟩
        · exact .of_head (.inr (refused_string hgap₁ hkey hgap₂ hvalue hstring))
        · obtain ⟨rfl, hbehind⟩ := List.cons_prefix_cons.mp hquote
          have hnode := Rendered.leaf hgap₁ hkey hgap₂ hvalue .nil
          have hrest := CutInside.behind hnode (ih hgap hbehind)
          simpa [quoted] using hrest
  | @branch key inside order nodes gap₁ shownKey gap₂ inner gap₃ text hgap₁ hkey hgap₂ hsorted
      horder hinner hgap₃ _ ihin ihout =>
      rw [List.append_assoc] at hcut
      rcases head_cut hgap₁ hkey hgap₂ hcut with hhead | ⟨char, left, rfl, hleft⟩
      · exact .of_head hhead
      · rw [List.cons_append, List.append_assoc, List.cons_append] at hleft
        obtain ⟨rfl, hinside⟩ := List.cons_prefix_cons.mp hleft
        rcases cut_append_cases hinside with hinside | ⟨char, behind, rfl, hclose⟩
        · rcases ihin hgap₃ hinside with hunclosed | hfails
          · exact .inl (.inside hgap₁ hkey hgap₂ hunclosed)
          · exact .of_head (.inr (refused_section hgap₁ hkey hgap₂ hfails))
        · obtain ⟨rfl, hbehind⟩ := List.cons_prefix_cons.mp hclose
          have hnode := Rendered.branch hgap₁ hkey hgap₂ hsorted horder hinner hgap₃ .nil
          have hrest := CutInside.behind hnode (ihout hgap hbehind)
          simpa using hrest

/-- A section that is cut ends where a child may begin, or is refused. -/
theorem section_cut {nodes : List KeyValue} {inner : List Char} (hgap : Gap gap)
    (hkey : Quoted key.toList shown) (hgap' : Gap gap') (hinner : Rendered nodes inner)
    {gap'' : List Char} (hgap'' : Gap gap'')
    (hcut : cut <+: gap ++ quoted shown ++ gap' ++ '{' :: (inner ++ gap'')) {fuel : Nat}
    (hfuel : cut.length < fuel) :
    EndsAtChild cut ∨ ∃ error, parseTextNode fuel cut = .error error := by
  rcases head_cut hgap hkey hgap' hcut with (hblank | hrefused) | ⟨char, left, rfl, hleft⟩
  · right
    apply parseTextNode_key _ fuel hfuel
    · exact .expectedQuote
    · rw [parseQuotedString, hblank.skip, Blank.nil.skip]
  · exact .inr (hrefused.fails fuel hfuel)
  · obtain ⟨rfl, hinside⟩ := List.cons_prefix_cons.mp hleft
    rcases hinner.cutInside hgap'' hinside with hunclosed | hfails
    · exact .inl (.mk hgap hkey hgap' hunclosed)
    · exact .inr ((refused_section hgap hkey hgap' hfails).fails fuel hfuel)

/-- Where a child may begin the end of the input closes all sections. -/
theorem Unclosed.parse (hunclosed : Unclosed text) (fuel : Nat) (children : List KeyValue)
    (hfuel : text.length + 1 < fuel) :
    ∃ children', parseTextChildren fuel children text = .ok (children', []) := by
  induction hunclosed generalizing fuel children with
  | blank hblank =>
      obtain ⟨fuel, rfl⟩ : ∃ less, fuel = less + 1 := ⟨fuel - 1, by omega⟩
      rw [parseTextChildren, hblank.skip]
      exact ⟨children, rfl⟩
  | @behind node text rest hnode _ ih =>
      obtain ⟨fuel, rfl⟩ : ∃ less, fuel = less + 1 := ⟨fuel - 1, by omega⟩
      rw [parseTextChildren_behind hnode rest (by omega)]
      have hlonger := length_rendered_pos hnode
      rw [List.length_append] at hfuel
      exact ih fuel _ (by omega)
  | @inside key gap shown gap' rest hgap hkey hgap' _ ih =>
      obtain ⟨fuel, rfl⟩ : ∃ less, fuel = less + 2 := ⟨fuel - 2, by omega⟩
      simp only [List.length_append, List.length_cons, length_quoted] at hfuel
      obtain ⟨inner, hinner⟩ := ih fuel [] (by omega)
      have hnode := parseTextNode_branch Gap.nil hkey hgap' hinner
      simp only [List.nil_append, List.append_assoc] at hnode ⊢
      rw [parseTextChildren_node hgap hnode]
      obtain ⟨fuel, rfl⟩ : ∃ less, fuel = less + 1 := ⟨fuel - 1, by omega⟩
      rw [parseTextChildren, Blank.nil.skip]
      exact ⟨_, rfl⟩

theorem EndsAtChild.parse (hends : EndsAtChild text) :
    ∃ node, parseTextNode (text.length + 1) text = .ok (node, []) := by
  cases hends with
  | @mk key gap shown gap' rest hgap hkey hgap' hrest =>
      obtain ⟨inner, hinner⟩ := hrest.parse
        (gap ++ quoted shown ++ gap' ++ '{' :: rest).length [] (by
          simp only [List.length_append, List.length_cons, length_quoted]
          omega)
      exact ⟨_, parseTextNode_branch hgap hkey hgap' hinner⟩

end Cut

section Trim

variable {gap text trail : List Char} {last : Char}

/-- `str::trim_end`. -/
def trimEnd (input : List Char) : List Char := input.rdropWhile isWhitespace

theorem trimEnd_append (front rest : List Char) :
    trimEnd (front ++ rest) =
      if trimEnd rest = [] then trimEnd front else front ++ trimEnd rest := by
  unfold trimEnd List.rdropWhile
  rw [List.reverse_append, List.dropWhile_append]
  by_cases hspace : rest.reverse.dropWhile isWhitespace = []
  · simp [hspace]
  · simp [hspace]

theorem trimEnd_last (hlast : isWhitespace last = false) (front rest : List Char) :
    trimEnd (front ++ last :: rest) = front ++ last :: trimEnd rest := by
  have hfront : trimEnd (front ++ [last]) = front ++ [last] :=
    List.rdropWhile_concat_neg _ _ _ (by simp [hlast])
  rw [← List.singleton_append, ← List.append_assoc, trimEnd_append, hfront]
  split
  next hnone => simp [hnone]
  next => simp

theorem trim_eq (text : List Char) : trim text = trimEnd (trimStart text) := rfl

theorem Blank.trimEnd (hblank : Blank gap) : Blank (trimEnd gap) := by
  induction hblank with
  | nil => exact .nil
  | @space char gap hspace _ ih =>
      rw [← List.singleton_append, trimEnd_append]
      split
      next =>
        have hchar : Types.trimEnd [char] = [] := by
          simp [Types.trimEnd, List.rdropWhile_singleton, hspace]
        rw [hchar]
        exact .nil
      next => exact .space hspace ih
  | @comment text gap htext _ ih =>
      have hslashes : Types.trimEnd ('/' :: '/' :: (text ++ '\n' :: gap)) =
          '/' :: '/' :: Types.trimEnd (text ++ '\n' :: gap) := trimEnd_last (by decide) ['/'] _
      rw [hslashes, List.append_cons, trimEnd_append]
      split
      next =>
        have hline : Types.trimEnd (text ++ ['\n']) = Types.trimEnd text :=
          List.rdropWhile_concat_pos _ _ _ (by decide)
        rw [hline]
        exact .unended fun hmem => htext ((List.rdropWhile_prefix isWhitespace text).subset hmem)
      next =>
        rw [← List.append_cons]
        exact .comment htext ih
  | @unended text htext =>
      have hslashes : Types.trimEnd ('/' :: '/' :: text) = '/' :: '/' :: Types.trimEnd text :=
        trimEnd_last (by decide) ['/'] text
      rw [hslashes]
      exact .unended fun hmem => htext ((List.rdropWhile_prefix isWhitespace text).subset hmem)

/-- Whitespace. -/
def Spaces (text : List Char) : Prop := ∀ char ∈ text, isWhitespace char = true

theorem Blank.spaces (hspaces : Spaces trail) : Blank trail := by
  induction trail with
  | nil => exact .nil
  | cons char trail ih =>
      exact .space (hspaces char List.mem_cons_self)
        (ih fun other hmem => hspaces other (List.mem_cons_of_mem _ hmem))

theorem Blank.append_spaces (hblank : Blank gap) (hspaces : Spaces trail) :
    Blank (gap ++ trail) := by
  induction hblank with
  | nil => exact .spaces hspaces
  | space hspace _ ih => exact .space hspace ih
  | comment htext _ ih =>
      simp only [List.cons_append, List.append_assoc]
      exact .comment htext ih
  | @unended text htext =>
      by_cases hline : '\n' ∈ trail
      · obtain ⟨front, rest, rfl, hfront⟩ := List.eq_append_cons_of_mem hline
        rw [List.cons_append, List.cons_append, ← List.append_assoc]
        apply Blank.comment
        · simp [htext, hfront]
        · exact .spaces fun char hmem =>
            hspaces char (List.mem_append_right _ (List.mem_cons_of_mem _ hmem))
      · rw [List.cons_append, List.cons_append]
        exact .unended (by simp [htext, hline])

/-- A node ends in a quote or a brace. -/
theorem Rendered.last_char {node : KeyValue} (hnode : Rendered [node] text) :
    ∃ front last, text = front ++ [last] ∧ isWhitespace last = false := by
  cases hnode with
  | @leaf key value gap shownKey gap' shownValue _ _ hgap hkey hgap' hvalue hrest =>
      cases hrest
      exact ⟨gap ++ quoted shownKey ++ gap' ++ '"' :: shownValue, '"', by simp [quoted],
        tokenStart_quote.1⟩
  | @branch key children order _ gap shownKey gap' inner gap'' _ hgap hkey hgap' hsorted horder
      hinner hgap'' hrest =>
      cases hrest
      exact ⟨gap ++ quoted shownKey ++ gap' ++ '{' :: (inner ++ gap''), '}', by simp,
        tokenStart_close.1⟩

theorem Unclosed.trimEnd (hunclosed : Unclosed text) : Unclosed (trimEnd text) := by
  induction hunclosed with
  | blank hblank => exact .blank hblank.trimEnd
  | @behind node text rest hnode _ ih =>
      obtain ⟨front, last, rfl, hlast⟩ := hnode.last_char
      rw [← List.append_cons, trimEnd_last hlast, List.append_cons]
      exact .behind hnode ih
  | inside hgap hkey hgap' _ ih =>
      rw [trimEnd_last tokenStart_open.1]
      exact .inside hgap hkey hgap' ih

theorem Unclosed.append_spaces (hunclosed : Unclosed text) (hspaces : Spaces trail) :
    Unclosed (text ++ trail) := by
  induction hunclosed with
  | blank hblank => exact .blank (hblank.append_spaces hspaces)
  | behind hnode _ ih =>
      rw [List.append_assoc]
      exact .behind hnode ih
  | inside hgap hkey hgap' _ ih =>
      rw [List.append_assoc]
      exact .inside hgap hkey hgap' ih

theorem Gap.prepend_spaces (hgap : Gap gap) (hspaces : Spaces trail) : Gap (trail ++ gap) := by
  induction trail with
  | nil => exact hgap
  | cons char trail ih =>
      exact .space (hspaces char List.mem_cons_self)
        (ih fun other hmem => hspaces other (List.mem_cons_of_mem _ hmem))

/-- Trimming the start of a node leaves a node. -/
theorem trimStart_key (hgap : Gap gap) (shown : List Char) :
    ∃ left, Gap left ∧
      ∀ rest, trimStart (gap ++ quoted shown ++ rest) = left ++ quoted shown ++ rest := by
  obtain ⟨left, hleft, htrim⟩ := hgap.trimStart
  refine ⟨left, hleft, fun rest => ?_⟩
  have hquote := htrim (shown ++ ['"'] ++ rest)
  simpa [Types.trimStart, quoted] using hquote

/-- Trimming does not change where a text ends. -/
theorem endsAtChild_trim : EndsAtChild (trim text) ↔ EndsAtChild text := by
  constructor
  · intro hends
    have hlead : text = text.takeWhile isWhitespace ++ trimStart text :=
      List.takeWhile_append_dropWhile.symm
    have hbehind : trimStart text =
        trim text ++ (trimStart text).rtakeWhile isWhitespace :=
      List.rdropWhile_append_rtakeWhile.symm
    have hfront : Spaces (text.takeWhile isWhitespace) := fun char => List.mem_takeWhile_imp
    have hback : Spaces ((trimStart text).rtakeWhile isWhitespace) := fun char =>
      List.mem_rtakeWhile_imp
    rw [hlead, hbehind]
    generalize trim text = middle at hends
    cases hends with
    | mk hgap hkey hgap' hrest =>
        have hends := EndsAtChild.mk (hgap.prepend_spaces hfront) hkey hgap'
          (hrest.append_spaces hback)
        simpa using hends
  · intro hends
    cases hends with
    | @mk key gap shown gap' rest hgap hkey hgap' hrest =>
        obtain ⟨left, hleft, htrim⟩ := trimStart_key hgap shown
        rw [trim_eq, List.append_assoc, htrim, ← List.append_assoc,
          trimEnd_last tokenStart_open.1]
        exact .mk hleft hkey hgap' hrest.trimEnd

/-- A prefix stays one when the start of both is trimmed. -/
theorem trimStart_prefix {cut : List Char} (hcut : cut <+: text) :
    trimStart cut <+: trimStart text := by
  induction cut generalizing text with
  | nil => exact List.nil_prefix
  | cons char cut ih =>
      obtain ⟨rest, rfl⟩ := hcut
      by_cases hspace : isWhitespace char = true
      · rw [List.cons_append, trimStart_space hspace, trimStart_space hspace]
        exact ih (List.prefix_append cut rest)
      · rw [Bool.not_eq_true] at hspace
        rw [List.cons_append, trimStart_plain hspace, trimStart_plain hspace]
        exact List.prefix_append (char :: cut) rest

/-- A rendered section that is cut before its closing brace is refused exactly when it
is not cut where a child may begin. There it is returned without what comes behind. -/
theorem parseTextKv_cut_iff {key : String} {children : List KeyValue} {cut : List Char}
    (hrendered : Rendered [⟨key, .children children⟩] text) (hcut : cut <+: text)
    (hbefore : cut.length < text.length) :
    (∃ error, parseTextKv (String.ofList cut) = .error error) ↔ ¬ EndsAtChild cut := by
  have hparse : parseTextKv (String.ofList cut) =
      (parseTextNode ((trim cut).length + 1) (trim cut)).map Prod.fst := by
    unfold parseTextKv
    rw [String.toList_ofList]
  rw [← endsAtChild_trim, hparse]
  constructor
  · rintro ⟨error, herror⟩ hends
    obtain ⟨node, hnode⟩ := hends.parse
    rw [hnode] at herror
    cases herror
  · intro hends
    cases hrendered with
    | @branch _ _ order _ gap shown gap' inner gap'' _ hgap hkey hgap' _ _ hinner hgap'' hrest =>
        cases hrest
        have hbody : cut <+: gap ++ quoted shown ++ (gap' ++ '{' :: (inner ++ gap'')) := by
          have hsplit : gap ++ quoted shown ++ gap' ++ '{' :: (inner ++ gap'' ++ ['}']) =
              gap ++ quoted shown ++ (gap' ++ '{' :: (inner ++ gap'')) ++ ['}'] := by simp
          rw [hsplit] at hcut hbefore
          rcases cut_append_cases hcut with hbody | ⟨char, tail, rfl, _⟩
          · exact hbody
          · simp only [List.length_append, List.length_cons, List.length_nil] at hbefore
            omega
        obtain ⟨left, hleft, htrim⟩ := trimStart_key hgap shown
        have htrimmed : trim cut <+: left ++ quoted shown ++ gap' ++ '{' :: (inner ++ gap'') := by
          have hstart := trimStart_prefix hbody
          rw [htrim, ← List.append_assoc] at hstart
          exact (List.rdropWhile_prefix isWhitespace (trimStart cut)).trans hstart
        rcases section_cut hleft hkey hgap' hinner hgap'' htrimmed (Nat.lt_succ_self _) with
          hchild | ⟨error, herror⟩
        · exact absurd hchild hends
        · rw [herror]
          exact ⟨error, rfl⟩

/-- `"a"{"b" "x"}`. -/
theorem rendered_sample :
    Rendered [⟨"a", .children [⟨"b", .string "x"⟩]⟩]
      ([] ++ quoted ['a'] ++ [] ++
        '{' :: (([] ++ quoted ['b'] ++ [' '] ++ quoted ['x'] ++ []) ++ [] ++ '}' :: [])) := by
  apply Rendered.branch
  · exact Gap.nil
  · exact Quoted.literal (by decide) (by decide) .nil
  · exact Gap.nil
  · exact List.pairwise_singleton _ _
  · exact List.Perm.refl _
  · exact Rendered.leaf .nil (.literal (by decide) (by decide) .nil) (.space (by decide) .nil)
      (.literal (by decide) (by decide) .nil) .nil
  · exact Gap.nil
  · exact Rendered.nil

/-- Cut in front of the opening brace, a section is refused. -/
theorem parseTextKv_cut_iff_sample :
    ∃ error, parseTextKv (String.ofList (quoted ['a'])) = .error error := by
  apply (parseTextKv_cut_iff rendered_sample (by decide) (by decide)).mpr
  intro hends
  have hbrace : '{' ∈ quoted ['a'] := by
    generalize quoted ['a'] = text at hends
    cases hends
    simp
  exact absurd hbrace (by decide)

/-- Cut behind the opening brace, a section comes out empty. -/
theorem cut_section_accepted :
    ∃ text, Rendered [⟨"a", .children [⟨"b", .string "x"⟩]⟩] text ∧
      quoted ['a'] ++ ['{'] <+: text ∧ (quoted ['a'] ++ ['{']).length < text.length ∧
      parseTextKv (String.ofList (quoted ['a'] ++ ['{'])) = .ok ⟨"a", .children []⟩ := by
  refine ⟨_, rendered_sample, by decide, by decide, ?_⟩
  have htrim : trim (quoted ['a'] ++ ['{']) = quoted ['a'] ++ ['{'] := by decide
  have hkey : Quoted "a".toList ['a'] := .literal (by decide) (by decide) .nil
  have hinside : parseTextChildren 4 [] [] = .ok ([], []) := by
    rw [parseTextChildren, Blank.nil.skip]
    rfl
  have hnode : parseTextNode 5 (quoted ['a'] ++ ['{']) = .ok (⟨"a", .children []⟩, []) :=
    parseTextNode_branch Gap.nil hkey Gap.nil hinside
  unfold parseTextKv
  rw [String.toList_ofList, htrim]
  change (parseTextNode 5 (quoted ['a'] ++ ['{'])).map Prod.fst = _
  rw [hnode]
  rfl

end Trim

end DepotDownloader.Steam.Types
