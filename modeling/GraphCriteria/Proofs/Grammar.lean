import GraphCriteria.Term.Variable

/-!
# A grammar of patterns

The texts of groups are patterns of the query language.  This file gives the part of its grammar
that groups without conditions on patterns and on existence are written in: triples, sets of
members, filters of comparisons, and unions of patterns in braces.

Main definitions:

- Definition `Derives`: a text can be derived from a symbol of the grammar.

Main results:

- Theorem `Derives.splice`: patterns in a row are a pattern.
- Theorem `Derives.of_union`: so are distinct branches, which may be none.
- Theorem `Derives.take_ne`: no pattern begins with a variable whose name begins with a colon.
-/

namespace GraphCriteria

/-! ## Tokens -/

/-- Whether a text is a variable: a question mark and a name that follows the `VARNAME` rule, where
colons are not allowed. -/
def isVariable (text : String) : Bool :=
  match text.toList with
  | '?' :: c :: cs => Variable.isNameChar c && cs.all Variable.isLater
  | _ => false

/-- Whether a character may stand between the angle brackets of an IRI. -/
def isIriChar (c : Char) : Bool :=
  0x20 < c.toNat && !"<>\"\x7b\x7d|^\\".toList.contains c && c.toNat != 0x60

/-- Whether a text is an IRI in angle brackets. -/
def isIri (text : String) : Bool :=
  match text.toList with
  | '<' :: rest => rest.getLast? == some '>' && rest.dropLast.all isIriChar
  | _ => false

/-- The texts that are accepted as terms: IRIs and whatever else is a term. -/
def IsTerm (T : String → Prop) (text : String) : Prop :=
  isIri text = true ∨ T text

/-- A variable that has been accepted is one of the grammar, unless its name begins with a
colon. -/
theorem isVariable_of_ofName {name target : String} (h : Variable.ofName name = .ok target)
    (hcolon : (Variable.bareName name).toList.head? ≠ some ':') : isVariable target = true := by
  unfold Variable.ofName at h
  dsimp only at h
  split at h
  · rename_i hname
    cases h
    cases hbare : (Variable.bareName name).toList with
    | nil =>
        rw [hbare] at hname
        cases hname
    | cons c cs =>
        rw [hbare] at hname hcolon
        have hfirst : c ≠ ':' := by simpa using hcolon
        simp only [Variable.isName, Variable.isFirst, Bool.and_eq_true, Bool.or_eq_true,
          beq_iff_eq, hfirst, or_false] at hname
        simp [isVariable, hbare, hname.1, hname.2]
  · cases h

/-! ## Derivations -/

/-- The symbols of the grammar. -/
inductive PatternSymbol where
  /-- A comparison within a filter. -/
  | comparison
  /-- A pattern in braces. -/
  | braces
  /-- A triple, a set of members, a filter or a union. -/
  | element
  /-- Elements in a row. -/
  | pattern
deriving DecidableEq, Repr

/-- The texts that can be derived from the symbols of the grammar, with texts of a given kind as
terms besides IRIs. -/
inductive Derives (T : String → Prop) : PatternSymbol → String → Prop where
  | triple {subject predicate object : String} (hsubject : isVariable subject = true)
      (hpredicate : isIri predicate = true ∨ isVariable predicate = true)
      (hobject : isVariable object = true ∨ IsTerm T object) :
      Derives T .element (subject ++ " " ++ predicate ++ " " ++ object)
  | values {target : String} {members : List String} (htarget : isVariable target = true)
      (hmembers : ∀ member ∈ members, IsTerm T member) :
      Derives T .element
        ("VALUES " ++ target ++ " \x7b " ++ " ".intercalate members ++ " \x7d")
  | comparison {target symbol operand : String} (htarget : isVariable target = true)
      (hsymbol : symbol ∈ ["=", "!=", "<", ">", "<=", ">="]) (hoperand : IsTerm T operand) :
      Derives T .comparison (target ++ " " ++ symbol ++ " " ++ operand)
  | notIn {target : String} {members : List String} (htarget : isVariable target = true)
      (hmembers : ∀ member ∈ members, IsTerm T member) :
      Derives T .comparison (target ++ " NOT IN (" ++ ", ".intercalate members ++ ")")
  | filter {comparison : String} (h : Derives T .comparison comparison) :
      Derives T .element ("FILTER (" ++ comparison ++ ")")
  | filterAll {comparisons : List String} (hsome : comparisons ≠ [])
      (h : ∀ comparison ∈ comparisons, Derives T .comparison comparison) :
      Derives T .element ("FILTER (" ++
        " && ".intercalate (comparisons.map fun text => "(" ++ text ++ ")") ++ ")")
  | braces {pattern : String} (h : Derives T .pattern pattern) :
      Derives T .braces ("\x7b " ++ pattern ++ " \x7d")
  | union {branches : List String} (hsome : branches ≠ [])
      (h : ∀ branch ∈ branches, Derives T .braces branch) :
      Derives T .element (" UNION ".intercalate branches)
  | pattern {elements : List String} (h : ∀ element ∈ elements, Derives T .element element) :
      Derives T .pattern (" . ".intercalate elements)

namespace Derives

variable {T : String → Prop}

/-- An element is a pattern. -/
theorem single {text : String} (h : Derives T .element text) : Derives T .pattern text := by
  have hsingle : Derives T .pattern (" . ".intercalate [text]) :=
    .pattern fun element helement => by rwa [List.mem_singleton.1 helement]
  simpa using hsingle

theorem empty : Derives T .pattern "" :=
  .pattern (fun _ helement => absurd helement List.not_mem_nil)

/-- Patterns in a row, none of which is empty, are a pattern. -/
theorem splice {texts : List String}
    (h : ∀ text ∈ texts, text ≠ "" ∧ Derives T .pattern text) :
    Derives T .pattern (" . ".intercalate texts) := by
  -- The elements of all patterns in a row are the elements of the whole.
  have hflat : ∃ elements, (∀ element ∈ elements, Derives T .element element) ∧
      (elements = [] ↔ texts = []) ∧ " . ".intercalate texts = " . ".intercalate elements := by
    induction texts with
    | nil => exact ⟨[], fun _ helement => absurd helement List.not_mem_nil, Iff.rfl, rfl⟩
    | cons text texts ih =>
        obtain ⟨rest, hrest, hnone, heq⟩ := ih fun other hother => h other (by simp [hother])
        obtain ⟨hne, htext⟩ := h text (by simp)
        cases htext with
        | @pattern first hfirst =>
            have hfirstSome : first ≠ [] := by
              rintro rfl
              exact hne rfl
            refine ⟨first ++ rest, ?_, by simp [hfirstSome], ?_⟩
            · intro element helement
              rcases List.mem_append.1 helement with hmem | hmem
              · exact hfirst element hmem
              · exact hrest element hmem
            · cases texts with
              | nil =>
                  rw [hnone.2 rfl, List.append_nil]
                  simp
              | cons second others =>
                  rw [String.intercalate_append_of_ne_nil hfirstSome (by simp [hnone]), ← heq,
                    String.intercalate_cons_cons]
  obtain ⟨elements, helements, _, heq⟩ := hflat
  rw [heq]
  exact .pattern helements

/-- Distinct branches in braces are a pattern; without branches it is empty. -/
theorem of_union {branches : List String}
    (h : ∀ branch ∈ branches, Derives T .braces branch) :
    Derives T .pattern (" UNION ".intercalate branches) := by
  by_cases hsome : branches = []
  · rw [hsome]
    exact .empty
  · exact .single (.union hsome h)

/-! ## First characters -/

/-- A text has two characters at least, and a question mark in front is not followed by a colon. -/
def Starts (text : String) : Prop :=
  ∃ c d rest, text.toList = c :: d :: rest ∧ (c = '?' → d ≠ ':')

theorem Starts.append {text : String} (h : Starts text) (more : String) : Starts (text ++ more) := by
  obtain ⟨c, d, rest, htext, hcolon⟩ := h
  exact ⟨c, d, rest ++ more.toList, by simp [htext], hcolon⟩

theorem starts_of_isVariable {text : String} (h : isVariable text = true) : Starts text := by
  unfold isVariable at h
  split at h
  · rename_i c cs htext
    refine ⟨'?', c, cs, htext, fun _ hcolon => ?_⟩
    rw [hcolon, Bool.and_eq_true] at h
    exact absurd h.1 (by decide)
  · cases h

/-- The texts in a row start as the first of them. -/
theorem Starts.intercalate {separator : String} {texts : List String} (hsome : texts ≠ [])
    (h : ∀ text ∈ texts, Starts text) : Starts (separator.intercalate texts) := by
  cases texts with
  | nil => exact absurd rfl hsome
  | cons first rest =>
      have hfirst := h first (by simp)
      cases rest with
      | nil => simpa using hfirst
      | cons second others =>
          rw [String.intercalate_cons_cons, String.append_assoc]
          exact hfirst.append _

/-- What is derived is a pattern without elements or starts in this way. -/
theorem starts {symbol : PatternSymbol} {text : String} (h : Derives T symbol text) :
    Starts text ∨ symbol = .pattern ∧ text = "" := by
  induction h with
  | triple hsubject =>
      simp only [String.append_assoc]
      exact .inl ((starts_of_isVariable hsubject).append _)
  | values =>
      simp only [String.append_assoc]
      exact .inl (Starts.append ⟨'V', 'A', _, rfl, by decide⟩ _)
  | comparison htarget | notIn htarget =>
      simp only [String.append_assoc]
      exact .inl ((starts_of_isVariable htarget).append _)
  | filter | filterAll =>
      simp only [String.append_assoc]
      exact .inl (Starts.append ⟨'F', 'I', _, rfl, by decide⟩ _)
  | braces =>
      simp only [String.append_assoc]
      exact .inl (Starts.append ⟨'\x7b', ' ', _, rfl, by decide⟩ _)
  | union hsome _ ih =>
      exact .inl (.intercalate hsome fun branch hbranch => by simpa using ih branch hbranch)
  | @pattern elements _ ih =>
      by_cases hsome : elements = []
      · exact .inr ⟨rfl, by rw [hsome]; rfl⟩
      · exact .inl (.intercalate hsome fun element helement => by simpa using ih element helement)

/-- A pattern does not begin with a variable whose name begins with a colon. -/
theorem take_ne {text : String} (h : Derives T .pattern text) :
    text.toList.take 2 ≠ ['?', ':'] := by
  rcases h.starts with ⟨c, d, rest, htext, hcolon⟩ | ⟨_, rfl⟩
  · intro htake
    rw [htext] at htake
    cases htake
    exact hcolon rfl rfl
  · simp

end Derives

end GraphCriteria
