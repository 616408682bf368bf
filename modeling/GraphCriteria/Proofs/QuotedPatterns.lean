import GraphCriteria.Group.Render
import GraphCriteria.Proofs.Drafts
import GraphCriteria.Proofs.Reachable
import GraphCriteria.Proofs.SelfDelimiting

/-!
# Patterns that survive quoting

A pattern is written into a string between double quotes, in which backslashes, quotes, line breaks and
tabs are escaped.  The string ends where it is meant to end, whatever follows it, and reading it gives
the pattern back.  So the text in which a field is matched determines its pattern.

Main definitions:

- Definition `StringInside`: what may stand between the quotes of a string.

Main results:

- Theorem `StringInside.unique`: no string is the beginning of another one.
- Theorem `Literal.readInside?_patternChar`: each character of a pattern is read back.
- Theorem `Leaf.Matches.exists_pattern`: the text in which a field is matched against its pattern.
- Theorem `Literal.patternText_survives`: patterns are read back, and fragments determine them.
-/

namespace GraphCriteria

/-! ## Strings on one line -/

/-- The insides of strings between double quotes that are on one line, with escapes of given letters:
every double quote and every backslash belongs to an escape. -/
inductive StringInside (letters : List Char) : List Char → Prop where
  | nil : StringInside letters []
  | plain {c : Char} {cs : List Char} (hc : c ∉ ['"', '\\', '\n', '\r'])
      (h : StringInside letters cs) : StringInside letters (c :: cs)
  | escape {letter : Char} {cs : List Char} (hletter : letter ∈ letters)
      (h : StringInside letters cs) : StringInside letters ('\\' :: letter :: cs)

namespace StringInside

variable {letters : List Char}

/-- No string is the beginning of another one: where one ends, so does the other. -/
theorem unique {inside other rest rest' : List Char} (h : StringInside letters inside)
    (hother : StringInside letters other) (heq : inside ++ '"' :: rest = other ++ '"' :: rest') :
    inside = other ∧ rest = rest' := by
  induction h generalizing other with
  | nil =>
      cases hother with
      | nil => exact ⟨rfl, (List.cons.inj heq).2⟩
      | plain hc =>
          obtain ⟨rfl, -⟩ := List.cons.inj heq
          simp at hc
      | escape => cases (List.cons.inj heq).1
  | plain hc _ ih =>
      cases hother with
      | plain _ hds =>
          obtain ⟨rfl, htail⟩ := List.cons.inj heq
          obtain ⟨rfl, hrest⟩ := ih hds htail
          exact ⟨rfl, hrest⟩
      | nil | escape =>
          obtain ⟨rfl, -⟩ := List.cons.inj heq
          simp at hc
  | escape _ _ ih =>
      cases hother with
      | nil => cases (List.cons.inj heq).1
      | plain hc =>
          obtain ⟨rfl, -⟩ := List.cons.inj heq
          simp at hc
      | escape _ hds =>
          simp only [List.cons_append, List.cons.injEq, true_and] at heq
          obtain ⟨rfl, htail⟩ := heq
          obtain ⟨rfl, hrest⟩ := ih hds htail
          exact ⟨rfl, hrest⟩

/-- What is written with fewer escapes may have more. -/
theorem mono {more inside : List Char} (hmore : letters ⊆ more) (h : StringInside letters inside) :
    StringInside more inside := by
  induction h with
  | nil => exact .nil
  | plain hc _ ih => exact .plain hc ih
  | escape hletter _ ih => exact .escape (hmore hletter) ih

end StringInside

namespace Literal

/-- The letters of the escapes that strings may have. -/
def escapeLetters : List Char :=
  ['t', 'b', 'n', 'r', 'f', '\\', '"', '\'']

/-- The letters of the escapes that patterns are written with. -/
def patternLetters : List Char :=
  ['\\', '"', '\'', 'n', 'r', 't']

/-! ## Characters of patterns -/

/-- How a character of a pattern is written: as it stands, or as an escape that stands for it. -/
theorem patternChar_cases (c : Char) :
    (patternChar c = [c] ∧ c ∉ ['"', '\\', '\n', '\r']) ∨
      ∃ letter ∈ patternLetters, patternChar c = ['\\', letter] ∧
        escapedChar? letter = some c := by
  unfold patternChar
  split
  -- six characters have an escape
  iterate 6 exact .inr ⟨_, by decide, rfl, rfl⟩
  rename_i hescape hquote _ hfeed hreturn _
  exact .inl ⟨rfl, by simpa using ⟨hquote, hescape, hfeed, hreturn⟩⟩

/-- Each character of a pattern is read back. -/
theorem readInside?_patternChar (c : Char) (rest : List Char) :
    Quotes.double.readInside? .none (patternChar c ++ rest) =
      (Quotes.double.readInside? .none rest).map (prependChar c) := by
  rcases patternChar_cases c with ⟨hplain, hc⟩ | ⟨letter, _, hescape, hletter⟩
  · simp only [List.mem_cons, List.not_mem_nil, or_false, not_or] at hc
    rw [hplain]
    exact Quotes.readInside?_double_cons hc.1 hc.2.1 hc.2.2.1 hc.2.2.2 rest
  · rw [hescape]
    exact Quotes.readInside?_double_escape hletter rest

/-- What is written for a character does not begin with a double quote. -/
theorem exists_patternChar (c : Char) : ∃ d ds, patternChar c = d :: ds ∧ d ≠ '"' := by
  rcases patternChar_cases c with ⟨hplain, hc⟩ | ⟨letter, _, hescape, _⟩
  · refine ⟨c, [], hplain, ?_⟩
    rintro rfl
    simp at hc
  · exact ⟨'\\', [letter], hescape, by decide⟩

/-! ## Whole patterns -/

theorem toList_patternText (pattern : String) :
    (patternText pattern).toList = pattern.toList.flatMap patternChar :=
  String.toList_ofList

/-- A pattern may stand between double quotes as it is written. -/
theorem stringInside_patternText (pattern : String) :
    StringInside patternLetters (patternText pattern).toList := by
  rw [toList_patternText]
  induction pattern.toList with
  | nil => exact .nil
  | cons c cs ih =>
      rw [List.flatMap_cons]
      rcases patternChar_cases c with ⟨hplain, hc⟩ | ⟨letter, hletter, hescape, _⟩
      · rw [hplain]
        exact .plain hc ih
      · rw [hescape]
        exact .escape hletter ih

/-- A pattern is read back up to its closing quote, whatever follows. -/
theorem readInside?_patternText (pattern : String) (rest : List Char) :
    Quotes.double.readInside? .none ((patternText pattern).toList ++ '"' :: rest) =
      some (pattern.toList, rest) := by
  rw [toList_patternText]
  exact Quotes.readInside?_flatMap readInside?_patternChar pattern.toList rest

theorem patternText_injective {pattern other : String}
    (h : patternText pattern = patternText other) : pattern = other := by
  have hread := readInside?_patternText pattern []
  rw [h, readInside?_patternText other []] at hread
  exact String.toList_inj.1 (Prod.mk.inj (Option.some.inj hread)).1.symm

/-- A quoted pattern is a literal on its own. -/
theorem read?_quoted_pattern (pattern : String) {rest : List Char} (hrest : EndsTerm rest) :
    Term.read? ('"' :: ((patternText pattern).toList ++ '"' :: rest)) =
      some (.literal pattern .plain, rest) := by
  have hquote : rest.head? ≠ some '"' := head?_mark_append .plain hrest
  have hlegible : Mark.plain.Legible := trivial
  have hmark : readMark? rest = some (.plain, rest) := readMark?_append hlegible hrest
  have hstring := readString?_flatMap readInside?_patternChar exists_patternChar pattern.toList
    fun _ => hquote
  rw [toList_patternText]
  simp [Term.read?, hstring, hmark, String.ofList_toList]

end Literal

/-! ## Fragments -/

/-- A variable has no comma in it. -/
theorem Variable.comma_not_mem_of_ofName {name target : String} (h : ofName name = .ok target) :
    ',' ∉ target.toList := by
  unfold ofName at h
  dsimp only at h
  split at h
  · rename_i hname
    cases h
    rw [String.toList_append]
    intro hcomma
    rcases List.mem_append.1 hcomma with hcomma | hcomma
    · exact absurd hcomma (by decide)
    · cases hbare : (bareName name).toList with
      | nil =>
          rw [hbare] at hcomma
          cases hcomma
      | cons c cs =>
          rw [hbare] at hname hcomma
          simp only [isName, Bool.and_eq_true, List.all_eq_true] at hname
          rcases List.mem_cons.1 hcomma with rfl | hcomma
          · exact absurd hname.1 (by decide)
          · exact absurd (hname.2 _ hcomma) (by decide)
  · cases h

/-- A leaf that is matched against a pattern becomes a fragment in a context, with whatever mapping its
field has. -/
def Leaf.Matches (leaf : Leaf) (ctx : Context) (fragment : String) : Prop :=
  (leaf.operator = .like ∨ leaf.operator = .notLike) ∧
    ∃ subject kind mapping clause trace later,
      Variable.ofName ctx.options.subjectVariable = .ok subject ∧
        leaf.clause ctx subject kind mapping trace = (.ok clause, later) ∧
        clause.ownTexts = [fragment]

/-- The text in which a field is matched: the operator, a variable and the quoted pattern. -/
theorem Leaf.Matches.exists_pattern {leaf : Leaf} {ctx : Context} {fragment : String}
    (h : leaf.Matches ctx fragment) :
    ∃ target pattern, ',' ∉ target.toList ∧ leaf.value = some (.single pattern) ∧
      fragment = leaf.operator.rule.opening ++ target ++ ", \"" ++
        Literal.patternText pattern ++ "\"" ++ ")" := by
  obtain ⟨hoperator, subject, kind, mapping, clause, trace, later, hsubject, hclause, htexts⟩ := h
  have hbecomes := Leaf.becomes_of_clause hclause
  -- The operator leaves only one form of clause.
  obtain ⟨target, pattern, binding, hbind, hscalar, rfl⟩ : ∃ target pattern binding,
      leaf.bind subject mapping = .ok (target, binding) ∧ leaf.scalar = .ok pattern ∧
        clause = .pattern binding leaf.operator target (Literal.patternText pattern) := by
    cases hbecomes with
    | pattern _ hbind hscalar => exact ⟨_, _, _, hbind, hscalar, rfl⟩
    | triple hother | values hother | existence hother | filter hother =>
        rcases hoperator with hlike | hlike <;>
          (rw [hlike] at hother
           simp [Operator.isComparison] at hother)
  have hvalue : leaf.value = some (.single pattern) := by
    unfold Leaf.scalar at hscalar
    split at hscalar
    · rename_i text hsome
      cases hscalar
      exact hsome
    · cases hscalar
    · cases hscalar
  have hcomma : ',' ∉ target.toList := by
    rcases Leaf.bind_ok hbind with ⟨_, rfl, _⟩ | ⟨_, _, hname, _⟩
    · exact Variable.comma_not_mem_of_ofName hsubject
    · exact Variable.comma_not_mem_of_ofName hname
  have hclosing : leaf.operator.rule.closing = ")" := by
    rcases hoperator with hlike | hlike <;> rw [hlike] <;> rfl
  refine ⟨target, pattern, hcomma, hvalue, ?_⟩
  rw [Clause.ownTexts, hclosing] at htexts
  exact (List.cons.inj htexts).1.symm

/-- Texts up to a comma are equal if the wholes are. -/
theorem eq_of_append_comma {front front' rest rest' : List Char} (hfront : ',' ∉ front)
    (hfront' : ',' ∉ front') (h : front ++ ',' :: rest = front' ++ ',' :: rest') :
    front = front' ∧ rest = rest' := by
  have hcut : ∀ {cs : List Char} (more : List Char), ',' ∉ cs →
      (cs ++ ',' :: more).takeWhile (· != ',') = cs := by
    intro cs more hcs
    have hkept : ∀ c ∈ cs, (c != ',') = true := by
      intro c hc
      rw [bne_iff_ne]
      rintro rfl
      exact hcs hc
    rw [List.takeWhile_append_of_pos hkept]
    simp
  have heq : front = front' := by rw [← hcut rest hfront, h, hcut rest' hfront']
  rw [heq] at h
  exact ⟨heq, (List.cons.inj (List.append_cancel_left h)).2⟩

/-- A fragment determines the operator and the pattern. -/
theorem Leaf.Matches.unique {leaf other : Leaf} {ctx ctx' : Context} {fragment : String}
    (h : leaf.Matches ctx fragment) (hother : other.Matches ctx' fragment) :
    leaf.operator = other.operator ∧ leaf.value = other.value := by
  obtain ⟨target, pattern, hcomma, hvalue, hfragment⟩ := h.exists_pattern
  obtain ⟨target', pattern', hcomma', hvalue', hfragment'⟩ := hother.exists_pattern
  have htexts := congrArg String.toList (hfragment.symm.trans hfragment')
  -- The first letter tells the operators apart.
  have hoperator : leaf.operator = other.operator := by
    rcases h.1 with hlike | hlike <;> rcases hother.1 with hlike' | hlike'
    · rw [hlike, hlike']
    · simp [hlike, hlike', Operator.rule] at htexts
    · simp [hlike, hlike', Operator.rule] at htexts
    · rw [hlike, hlike']
  rw [hoperator] at htexts
  simp only [String.toList_append, List.append_assoc, List.append_cancel_left_eq] at htexts
  obtain ⟨-, hrest⟩ := eq_of_append_comma hcomma hcomma' htexts
  have hpatterns : Literal.patternText pattern = Literal.patternText pattern' :=
    String.toList_inj.1 (by simpa using hrest)
  exact ⟨hoperator, by rw [hvalue, hvalue', Literal.patternText_injective hpatterns]⟩

/-- A pattern that is written between double quotes is one string on one line: every quote and backslash
in it belongs to an escape, no other string begins there, reading it stops at its closing quote whatever
follows, and gives the pattern back.  So patterns that are written alike are the same; and the fragment
in which a field is matched, where the quoted pattern is a literal before the closing parenthesis,
determines the pattern, whatever the contexts are. -/
theorem Literal.patternText_survives :
    (∀ pattern rest, StringInside patternLetters (patternText pattern).toList ∧
      Quotes.double.readInside? .none ((patternText pattern).toList ++ '"' :: rest) =
        some (pattern.toList, rest) ∧
      ∀ inside rest', StringInside escapeLetters inside →
        inside ++ '"' :: rest' = (patternText pattern).toList ++ '"' :: rest →
          inside = (patternText pattern).toList ∧ rest' = rest) ∧
    (∀ pattern other, patternText pattern = patternText other ↔ pattern = other) ∧
    ∀ (leaf : Leaf) ctx fragment, leaf.Matches ctx fragment →
      (∃ target pattern, leaf.value = some (.single pattern) ∧
        fragment = leaf.operator.rule.opening ++ target ++ ", \"" ++ patternText pattern ++ "\"" ++
          ")" ∧
        ∀ rest, Term.read? ('"' :: ((patternText pattern).toList ++ '"' :: ')' :: rest)) =
          some (.literal pattern .plain, ')' :: rest)) ∧
      ∀ (other : Leaf) ctx', other.Matches ctx' fragment →
        other.operator = leaf.operator ∧ other.value = leaf.value := by
  refine ⟨fun pattern rest => ⟨stringInside_patternText pattern,
    readInside?_patternText pattern rest, fun inside rest' hinside heq => ?_⟩,
    fun pattern other => ⟨patternText_injective, congrArg _⟩, fun leaf ctx fragment h => ⟨?_, ?_⟩⟩
  · have hpattern : StringInside escapeLetters (patternText pattern).toList :=
      (stringInside_patternText pattern).mono (by decide)
    exact hinside.unique hpattern heq
  · obtain ⟨target, pattern, -, hvalue, hfragment⟩ := h.exists_pattern
    refine ⟨target, pattern, hvalue, hfragment, fun rest => read?_quoted_pattern pattern ?_⟩
    simp [EndsTerm]
  · intro other ctx' hother
    exact hother.unique h

/-- Nodes whose title matches a backslash before a quote, and no line break. -/
def Sample.backslashTitle : Leaf :=
  ⟨"title", some (.single "\\\"\n"), .notLike, none⟩

/-- A fragment whose pattern has a backslash before a quote; the string in it, and in longer texts. -/
theorem Literal.patternText_survives_backslash :
    Sample.backslashTitle.Matches Sample.context "!regex(?title, \"\\\\\\\"\\n\")" ∧
      (∀ rest inside rest', StringInside escapeLetters inside →
        inside ++ '"' :: rest' = "\\\\\\\"\\n".toList ++ '"' :: rest →
          inside = "\\\\\\\"\\n".toList ∧ rest' = rest) ∧
      ∀ (other : Leaf) ctx', other.Matches ctx' "!regex(?title, \"\\\\\\\"\\n\")" →
        other.operator = .notLike ∧ other.value = some (.single "\\\"\n") := by
  have htext : patternText "\\\"\n" = "\\\\\\\"\\n" := by decide +kernel
  have hmatches : Sample.backslashTitle.Matches Sample.context
      "!regex(?title, \"\\\\\\\"\\n\")" :=
    ⟨.inr rfl, "?entity", .label, .predicate "<title>",
      .pattern (some ⟨"?entity", "<title>", "?title"⟩) .notLike "?title" "\\\\\\\"\\n", [], [],
      eq_ok_of_toOption (by decide +kernel),
      Prod.ext (eq_ok_of_toOption (by decide +kernel)) rfl, by decide +kernel⟩
  refine ⟨hmatches, fun rest inside rest' hinside heq => ?_,
    (patternText_survives.2.2 _ _ _ hmatches).2⟩
  have hunique := (patternText_survives.1 "\\\"\n" rest).2.2 inside rest' hinside
  rw [htext] at hunique
  exact hunique heq

end GraphCriteria
