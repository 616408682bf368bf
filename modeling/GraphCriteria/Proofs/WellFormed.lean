import GraphCriteria.Proofs.Grammar
import GraphCriteria.Proofs.Leaves
import GraphCriteria.Proofs.OnePass
import GraphCriteria.Proofs.Variables

/-!
# The text of a group is a pattern

A tree without conditions on patterns and on existence is written in the grammar of patterns, once
its predicates are IRIs and its values are terms, and the names of its variables do not begin with
a colon.  The derivation follows the tree: a union has one pattern in braces for each of its
branches, and any other group is the sequence of its own elements and of the patterns nested in it.

Main definitions:

- Structure `Group.Parts`: the parts of which the text of a compiled group is made.
- Definition `Group.Mirrors`: a text is derived along a compiled tree.

Main results:

- Theorem `Leaf.Becomes.formed`: the clause of a leaf is written in elements and comparisons.
- Theorem `Plan.text_eq`: the text of a plan is combined from its fragments.
- Theorem `Group.Mirrors.derives`: a text that mirrors a tree is a pattern.
- Theorem `Group.Mirrors.unique`: only one text mirrors a tree.
- Theorem `Group.pattern_of_compile`: the text of a compiled tree is a pattern that mirrors it.
- Theorem `Group.colon_pattern`: a subject whose name begins with a colon gives no pattern.
-/

namespace GraphCriteria

/-! ## Trees and texts -/

/-- The places of the nested groups among entries that stand at a place and after it. -/
def Entry.places (index : Nat) : List Entry → List Nat
  | [] => []
  | .leaf _ :: rest => places (index + 1) rest
  | .nested _ :: rest => index :: places (index + 1) rest

/-- A part of the text of a group: a text of its own, or that of the nested group at a place. -/
inductive Fragment where
  | own (text : String)
  | nested (place : Nat)
deriving DecidableEq, Repr

namespace Fragment

/-- The text of a fragment, given those of the nested groups. -/
def text (textAt : Nat → String) : Fragment → String
  | own text => text
  | nested place => textAt place

/-- The place to which a fragment points. -/
def place? : Fragment → Option Nat
  | own _ => none
  | nested place => some place

end Fragment

/-- A place among those of the nested groups is that of a nested group. -/
theorem Entry.exists_nested_of_mem_places {entries : List Entry} {index place : Nat}
    (h : place ∈ places index entries) :
    index ≤ place ∧ ∃ inner, entries[place - index]? = some (.nested inner) := by
  induction entries generalizing index with
  | nil => cases h
  | cons entry rest ih =>
      have hrest : place ∈ places (index + 1) rest →
          index ≤ place ∧ ∃ inner, (entry :: rest)[place - index]? = some (.nested inner) := by
        intro hmem
        obtain ⟨hle, inner, hinner⟩ := ih hmem
        refine ⟨by omega, inner, ?_⟩
        have hsub : place - index = place - (index + 1) + 1 := by omega
        rw [hsub]
        exact hinner
      cases entry with
      | leaf own => exact hrest h
      | nested inner =>
          rcases List.mem_cons.1 h with rfl | hmem
          · exact ⟨Nat.le_refl _, inner, by rw [Nat.sub_self]; rfl⟩
          · exact hrest hmem

/-- The places of nested groups are the same in all groups with one bare form. -/
theorem Entry.places_bareAll (entries : List Entry) (index : Nat) :
    places index (bareAll entries) = places index entries := by
  induction entries generalizing index with
  | nil => rw [bareAll]
  | cons entry rest ih => cases entry <;> rw [bareAll, places, places, ih]

/-! ## Clauses -/

/-- The texts of an operand. -/
def Operand.texts : Operand → List String
  | scalar text => [text]
  | list texts _ => texts

namespace Clause

/-- The texts in a clause that stand for values. -/
def valueTexts : Clause → List String
  | triple t => [t.object]
  | values _ clause => clause.members
  | filter _ _ _ operand => operand.texts
  | _ => []

/-- The place to which a clause points. -/
def place? : Clause → Option Nat
  | nested place => some place
  | _ => none

/-- The parts of the text of a group that a clause writes on its own. -/
def fragments : Clause → List Fragment
  | nested place => [.nested place]
  | clause => ((clause.binding?.map Triple.text).toList ++ clause.ownTexts).map .own

/-- A clause is written in elements and comparisons. -/
structure Formed (T : String → Prop) (clause : Clause) : Prop where
  binding : ∀ t, clause.binding? = some t → Derives T .element t.text
  own : ∀ text ∈ clause.ownTexts, Derives T .element text
  comparison : ∀ text, clause.comparison? = some text → Derives T .comparison text

theorem formed_nested (T : String → Prop) (place : Nat) : (nested place).Formed T where
  binding t h := by cases h
  own text h := by cases h
  comparison text h := by cases h

theorem formed_candidates {T : String → Prop} {name : String} {candidates : List String}
    (hname : isVariable name = true) (hcandidates : ∀ p ∈ candidates, isIri p = true) :
    (values none ⟨name, candidates⟩).Formed T where
  binding t h := by cases h
  own text h := by
    rw [List.mem_singleton.1 h]
    exact .values hname fun candidate hmem => .inl (hcandidates candidate hmem)
  comparison text h := by cases h

end Clause

/-- The operators on patterns and on existence. -/
def Operator.isPattern : Operator → Bool
  | like | notLike | present | absent => true
  | _ => false

namespace Leaf

variable {T : String → Prop} {leaf : Leaf} {ctx : Context} {subject target : String}
  {kind : FieldKind} {mapping : FieldMapping} {binding : Option Triple}

/-- What a leaf speaks of is a variable, and its binding is an element. -/
theorem formed_bind (hsubject : isVariable subject = true)
    (hpredicate : ∀ predicate, mapping.predicate? = some predicate →
      isIri predicate = true ∨ isVariable predicate = true)
    (hfield : ∀ name, Variable.ofName leaf.field = .ok name → isVariable name = true)
    (h : leaf.bind subject mapping = .ok (target, binding)) :
    isVariable target = true ∧ ∀ t, binding = some t → Derives T .element t.text := by
  rcases bind_ok h with ⟨_, rfl, rfl⟩ | ⟨predicate, hsome, hname, rfl⟩
  · exact ⟨hsubject, fun t ht => by cases ht⟩
  · refine ⟨hfield target hname, fun t ht => ?_⟩
    cases ht
    exact .triple hsubject (hpredicate predicate hsome) (.inl (hfield target hname))

/-- A comparison has a single operand, unless it excludes a list. -/
theorem operand_ok {operand : Operand} {trace : Trace}
    (hoperator : leaf.operator.isComparison = true)
    (hlist : leaf.operator = .notIn → ∃ texts, leaf.value = some (.list texts))
    (h : (leaf.operand kind ctx trace).1 = .ok operand) :
    (leaf.operator ≠ .notIn ∧ ∃ text, operand = .scalar text) ∨
      leaf.operator = .notIn ∧ ∃ texts, operand = .list texts ", " := by
  unfold Leaf.operand at h
  rcases hvalue : leaf.value with _ | ⟨text⟩ | ⟨texts⟩
  · rw [hvalue] at h
    cases h
  · rw [hvalue] at h
    cases h
    refine .inl ⟨fun hset => ?_, text, rfl⟩
    obtain ⟨texts, htexts⟩ := hlist hset
    rw [hvalue] at htexts
    cases htexts
  · rw [hvalue] at h
    cases hother : leaf.operator with
    | notIn =>
        simp only [hother, Operator.rule] at h
        refine .inr ⟨rfl, ?_⟩
        cases hkey : kind.isKey with
        | true =>
            rw [if_pos hkey] at h
            obtain ⟨answers, mid, _, h⟩ := Pass.fst_bind_eq_ok.1 h
            cases h
            exact ⟨answers, rfl⟩
        | false =>
            rw [if_neg (by simp [hkey])] at h
            cases h
            exact ⟨texts, rfl⟩
    | notEqual | less | greater | lessOrEqual | greaterOrEqual =>
        simp only [hother, Operator.rule] at h
        cases h
    | equal | isIn | like | notLike | present | absent =>
        rw [hother] at hoperator
        cases hoperator

/-- A comparison of a variable with such an operand can be derived. -/
theorem derives_comparison {operand : Operand} (htarget : isVariable target = true)
    (hoperator : leaf.operator.isComparison = true)
    (hvalues : ∀ text ∈ operand.texts, IsTerm T text)
    (hoperand : (leaf.operator ≠ .notIn ∧ ∃ text, operand = .scalar text) ∨
      leaf.operator = .notIn ∧ ∃ texts, operand = .list texts ", ") :
    Derives T .comparison (leaf.operator.rule.opening ++ target ++ " " ++ leaf.operator.symbol ++
      " " ++ operand.text ++ leaf.operator.rule.closing) := by
  rcases hoperand with ⟨hscalar, text, rfl⟩ | ⟨hset, texts, rfl⟩
  · have hrule : leaf.operator.rule.opening = "" ∧ leaf.operator.rule.closing = "" ∧
        leaf.operator.symbol ∈ ["=", "!=", "<", ">", "<=", ">="] := by
      cases hother : leaf.operator <;>
        simp_all [Operator.isComparison, Operator.rule, Operator.symbol]
    rw [hrule.1, hrule.2.1, String.empty_append, String.append_empty]
    exact .comparison htarget hrule.2.2 (hvalues text (by simp [Operand.texts]))
  · have hderives : Derives T .comparison
        (target ++ " NOT IN (" ++ ", ".intercalate texts ++ ")") := .notIn htarget hvalues
    have hword : " NOT IN (" = " " ++ ("NOT IN" ++ (" " ++ "(")) := by decide
    have htext : "" ++ target ++ " " ++ "NOT IN" ++ " " ++ ("(" ++ ", ".intercalate texts ++ ")") ++
        "" = target ++ " NOT IN (" ++ ", ".intercalate texts ++ ")" := by
      rw [hword]
      simp only [String.append_assoc, String.empty_append, String.append_empty]
    rw [← htext] at hderives
    rw [hset]
    exact hderives

/-- The clause of a leaf is written in elements and comparisons. -/
theorem Becomes.formed {clause : Clause} (h : leaf.Becomes ctx subject kind mapping clause)
    (hsubject : isVariable subject = true)
    (hpredicate : ∀ predicate, mapping.predicate? = some predicate →
      isIri predicate = true ∨ isVariable predicate = true)
    (hfield : ∀ name, Variable.ofName leaf.field = .ok name → isVariable name = true)
    (hvalues : ∀ text ∈ clause.valueTexts, IsTerm T text)
    (hoperator : leaf.operator.isPattern = false)
    (hlist : leaf.operator = .notIn → ∃ texts, leaf.value = some (.list texts)) :
    clause.Formed T := by
  cases h with
  | @triple predicate text object trace _ hsome =>
      have hobject : IsTerm T object := hvalues object (by simp [Clause.valueTexts])
      refine ⟨?_, ?_, ?_⟩
      · intro t ht
        cases ht
      · intro text htext
        rw [List.mem_singleton.1 htext]
        exact .triple hsubject (hpredicate predicate hsome) (.inr hobject)
      · intro text htext
        cases htext
  | values _ hbind =>
      obtain ⟨htarget, hbinding⟩ := formed_bind hsubject hpredicate hfield hbind
      refine ⟨hbinding, ?_, ?_⟩
      · intro text htext
        rw [List.mem_singleton.1 htext]
        exact .values htarget hvalues
      · intro text htext
        cases htext
  | existence hother =>
      rcases hother with h | h <;> simp [h, Operator.isPattern] at hoperator
  | pattern hother =>
      rcases hother with h | h <;> simp [h, Operator.isPattern] at hoperator
  | filter hcomparison hbind hoperand =>
      obtain ⟨htarget, hbinding⟩ := formed_bind hsubject hpredicate hfield hbind
      refine ⟨hbinding, ?_, ?_⟩
      · intro text htext
        cases htext
      · intro text htext
        cases htext
        exact derives_comparison htarget hcomparison hvalues
          (operand_ok hcomparison hlist hoperand)

end Leaf

/-! ## Plans -/

/-- The texts of clauses are those of their fragments. -/
theorem Clause.textsOfAll_eq {nestedText? : Nat → Except ConditionError String}
    {textAt : Nat → String} {clauses : List Clause}
    (h : ∀ place, .nested place ∈ clauses → nestedText? place = .ok (textAt place)) :
    textsOfAll nestedText? clauses =
      .ok ((clauses.flatMap fragments).map (Fragment.text textAt)) := by
  induction clauses with
  | nil => rfl
  | cons clause clauses ih =>
      have hclause : clause.texts nestedText? =
          .ok (clause.fragments.map (Fragment.text textAt)) := by
        cases clause with
        | nested place =>
            rw [texts, h place List.mem_cons_self]
            rfl
        | triple | values | existence | pattern | filter =>
            simp [texts, fragments, Function.comp_def, Fragment.text]
      have hrest := ih fun place hplace => h place (List.mem_cons_of_mem _ hplace)
      rw [List.flatMap_cons, List.map_append]
      exact textsOfAll_append (textsOfAll_singleton hclause) hrest

/-- The texts of comparisons are those of one filter, if there are any. -/
theorem Derives.of_comparisons {T : String → Prop} {comparisons : List String}
    (h : ∀ comparison ∈ comparisons, Derives T .comparison comparison) :
    ∀ text ∈ filterTexts comparisons, Derives T .element text := by
  intro text htext
  rw [filterTexts_eq] at htext
  match comparisons, h with
  | [], _ => cases htext
  | [only], h =>
      rw [List.mem_singleton.1 htext]
      exact .filter (h only List.mem_cons_self)
  | first :: second :: others, h =>
      rw [List.mem_singleton.1 htext]
      exact .filterAll (by simp) h

namespace Plan

/-- The parts of the text of a plan, in order. -/
def fragments (plan : Plan) : List Fragment :=
  (plan.defaultBundle.map Triple.text).toList.map .own ++
    plan.clauses.flatMap Clause.fragments ++
      (filterTexts (plan.clauses.filterMap Clause.comparison?)).map .own

/-- The texts of a plan are those of its fragments. -/
theorem texts_eq {plan : Plan} {nestedText? : Nat → Except ConditionError String}
    {textAt : Nat → String}
    (h : ∀ place, .nested place ∈ plan.clauses → nestedText? place = .ok (textAt place)) :
    plan.texts nestedText? = .ok (plan.fragments.map (Fragment.text textAt)) := by
  have hown : ∀ texts : List String,
      (texts.map Fragment.own).map (Fragment.text textAt) = texts := by
    intro texts
    simp [Function.comp_def, Fragment.text]
  rw [texts, Clause.textsOfAll_eq h, fragments, List.map_append, List.map_append, hown, hown]
  rfl

/-- The text of a plan is combined from its fragments. -/
theorem text_eq {plan : Plan} {nestedText? : Nat → Except ConditionError String}
    {textAt : Nat → String}
    (h : ∀ place, .nested place ∈ plan.clauses → nestedText? place = .ok (textAt place))
    (conjunction : Conjunction) :
    plan.text conjunction nestedText? =
      .ok (conjunction.combine (plan.fragments.map (Fragment.text textAt))) := by
  rw [text, texts_eq h]
  exact congrArg Except.ok (conjunction.join_fragments _)

/-- The own fragments of a plan that is written in elements and comparisons are elements. -/
theorem derives_of_own {T : String → Prop} {plan : Plan}
    (hbundle : ∀ t, plan.defaultBundle = some t → Derives T .element t.text)
    (hclauses : ∀ clause ∈ plan.clauses, clause.Formed T) {text : String}
    (h : .own text ∈ plan.fragments) : Derives T .element text := by
  rw [fragments, List.mem_append, List.mem_append] at h
  rcases h with (h | h) | h
  · cases hdefault : plan.defaultBundle with
    | none =>
        rw [hdefault] at h
        cases h
    | some t =>
        rw [hdefault] at h
        cases List.mem_singleton.1 h
        exact hbundle t hdefault
  · obtain ⟨clause, hclause, htext⟩ := List.mem_flatMap.1 h
    have hformed := hclauses clause hclause
    have hmem : text ∈ (clause.binding?.map Triple.text).toList ++ clause.ownTexts := by
      cases clause with
      | nested place => cases List.mem_singleton.1 htext
      | triple | values | existence | pattern | filter =>
          simpa [Clause.fragments] using htext
    rcases List.mem_append.1 hmem with hbinding | hown
    · rw [Option.mem_toList, Option.map_eq_some_iff] at hbinding
      obtain ⟨t, ht, rfl⟩ := hbinding
      exact hformed.binding t ht
    · exact hformed.own text hown
  · have hmem : text ∈ filterTexts (plan.clauses.filterMap Clause.comparison?) := by
      simpa using h
    refine Derives.of_comparisons (fun comparison hcomparison => ?_) text hmem
    obtain ⟨clause, hclause, htext⟩ := List.mem_filterMap.1 hcomparison
    exact (hclauses clause hclause).comparison comparison htext

/-- The fragments of a plan point where its clauses do. -/
theorem places_fragments (plan : Plan) :
    plan.fragments.filterMap Fragment.place? = plan.clauses.filterMap Clause.place? := by
  have hown : ∀ texts : List String, (texts.map Fragment.own).filterMap Fragment.place? = [] := by
    intro texts
    simp [List.filterMap_map, Function.comp_def, Fragment.place?]
  have hclause : ∀ clause : Clause,
      clause.fragments.filterMap Fragment.place? = clause.place?.toList := by
    intro clause
    cases clause with
    | nested place => rfl
    | triple | values | existence | pattern | filter => exact hown _
  have hclauses : ∀ clauses : List Clause,
      (clauses.flatMap Clause.fragments).filterMap Fragment.place? =
        clauses.filterMap Clause.place? := by
    intro clauses
    induction clauses with
    | nil => rfl
    | cons clause clauses ih =>
        rw [List.flatMap_cons, List.filterMap_append, hclause, ih]
        cases hplace : clause.place? <;> simp [hplace]
  rw [fragments, List.filterMap_append, List.filterMap_append, hown, hown, hclauses]
  simp

/-- A plan that only points at nested groups has no fragments besides. -/
theorem fragments_of_nested {plan : Plan} (hbundle : plan.defaultBundle = none)
    (h : ∀ clause ∈ plan.clauses, ∃ place, clause = .nested place) :
    plan.fragments = (plan.clauses.filterMap Clause.place?).map .nested := by
  have hclauses : ∀ clauses : List Clause, (∀ clause ∈ clauses, ∃ place, clause = .nested place) →
      clauses.flatMap Clause.fragments = (clauses.filterMap Clause.place?).map .nested ∧
        clauses.filterMap Clause.comparison? = [] := by
    intro clauses hall
    induction clauses with
    | nil => exact ⟨rfl, rfl⟩
    | cons clause clauses ih =>
        obtain ⟨place, rfl⟩ := hall clause List.mem_cons_self
        obtain ⟨hfragments, hnone⟩ :=
          ih fun other hother => hall other (List.mem_cons_of_mem _ hother)
        refine ⟨?_, hnone⟩
        rw [List.flatMap_cons, hfragments]
        rfl
  obtain ⟨hfragments, hnone⟩ := hclauses plan.clauses h
  rw [fragments, hbundle, hfragments, hnone]
  simp [filterTexts]

end Plan

/-! ## Texts that mirror groups -/

/-- The parts of the text of a compiled group: the fragments of its plan, which is made of its own
leaves and points at its nested groups in their order, and the texts to which these render. -/
structure Group.Parts (group : Group) (ctx : Context) (plan : Plan) (textAt : Nat → String) :
    Prop where
  compiled : group.plan? = some plan
  planned : group.PlannedIn ctx plan
  places : plan.fragments.filterMap Fragment.place? = Entry.places 0 group.entries
  rendered : ∀ (place : Nat) (inner : Group), group.entries[place]? = some (.nested inner) →
    ∀ trace, (inner.render trace).result = .ok (textAt place)

/-- A text is derived along a compiled tree.  That of a union has no parts but the texts of the
nested groups, and joins those that are distinct and not empty, each in braces.  That of any other
group is the sequence of the distinct parts that are not empty, which are elements and the texts of
the nested groups. -/
inductive Group.Mirrors (T : String → Prop) (ctx : Context) : Group → String → Prop where
  | union {group : Group} {plan : Plan} {textAt : Nat → String} (hor : group.conjunction = .or)
      (hparts : group.Parts ctx plan textAt)
      (hfragments : plan.fragments = (Entry.places 0 group.entries).map .nested)
      (hnested : ∀ place inner, group.entries[place]? = some (.nested inner) →
        Mirrors T ctx inner (textAt place)) :
      Mirrors T ctx group (" UNION ".intercalate
        ((((Entry.places 0 group.entries).map textAt).filter (· ≠ "")).map
          fun branch => "\x7b " ++ branch ++ " \x7d").eraseDups)
  | sequence {group : Group} {plan : Plan} {textAt : Nat → String}
      (hand : group.conjunction = .and) (hparts : group.Parts ctx plan textAt)
      (hown : ∀ text, .own text ∈ plan.fragments → Derives T .element text)
      (hnested : ∀ place inner, group.entries[place]? = some (.nested inner) →
        Mirrors T ctx inner (textAt place)) :
      Mirrors T ctx group (" . ".intercalate
        ((plan.fragments.map (Fragment.text textAt)).filter (· ≠ "")).eraseDups)

namespace Group

variable {T : String → Prop} {ctx : Context} {group : Group} {plan other : Plan}
  {textAt otherAt : Nat → String} {place : Nat}

/-- A plan points at nested groups only. -/
theorem Parts.exists_nested (h : group.Parts ctx plan textAt)
    (hplace : .nested place ∈ plan.fragments) :
    ∃ inner, group.entries[place]? = some (.nested inner) := by
  have hmem : place ∈ Entry.places 0 group.entries := by
    rw [← h.places]
    exact List.mem_filterMap.2 ⟨_, hplace, rfl⟩
  exact (Entry.exists_nested_of_mem_places hmem).2

/-- A group has its parts only once. -/
theorem Parts.unique (h : group.Parts ctx plan textAt) (hother : group.Parts ctx other otherAt) :
    plan = other ∧ plan.fragments.map (Fragment.text textAt) =
      other.fragments.map (Fragment.text otherAt) := by
  obtain rfl : plan = other := Option.some.inj (h.compiled.symm.trans hother.compiled)
  refine ⟨rfl, List.map_congr_left fun fragment hfragment => ?_⟩
  cases fragment with
  | own text => rfl
  | nested place =>
      obtain ⟨inner, hinner⟩ := h.exists_nested hfragment
      have htext := h.rendered place inner hinner []
      rw [hother.rendered place inner hinner] at htext
      exact (Except.ok.inj htext).symm

/-- A text that mirrors a tree is a pattern. -/
theorem Mirrors.derives {text : String} (h : group.Mirrors T ctx text) :
    Derives T .pattern text := by
  induction h with
  | @union group plan textAt _ _ _ _ ih =>
      apply Derives.of_union
      intro branch hbranch
      rw [List.mem_eraseDups] at hbranch
      obtain ⟨pattern, hpattern, rfl⟩ := List.mem_map.1 hbranch
      obtain ⟨place, hplace, rfl⟩ := List.mem_map.1 (List.mem_filter.1 hpattern).1
      obtain ⟨_, inner, hinner⟩ := Entry.exists_nested_of_mem_places hplace
      exact .braces (ih place inner hinner)
  | @sequence group plan textAt _ hparts hown _ ih =>
      apply Derives.splice
      intro text htext
      rw [List.mem_eraseDups, List.mem_filter] at htext
      obtain ⟨fragment, hfragment, rfl⟩ := List.mem_map.1 htext.1
      refine ⟨by simpa using htext.2, ?_⟩
      cases fragment with
      | own text => exact (hown text hfragment).single
      | nested place =>
          obtain ⟨inner, hinner⟩ := hparts.exists_nested hfragment
          exact ih place inner hinner

/-- Only one text mirrors a tree. -/
theorem Mirrors.unique {text otherText : String} (h : group.Mirrors T ctx text)
    (hother : group.Mirrors T ctx otherText) : text = otherText := by
  cases h with
  | @union _ plan textAt hor hparts hfragments =>
      cases hother with
      | @union _ other otherAt _ hotherParts =>
          obtain ⟨rfl, htexts⟩ := hparts.unique hotherParts
          rw [hfragments, List.map_map, List.map_map] at htexts
          have hbranches : (Entry.places 0 group.entries).map textAt =
              (Entry.places 0 group.entries).map otherAt := htexts
          rw [hbranches]
      | sequence hand =>
          rw [hor] at hand
          cases hand
  | sequence hand hparts =>
      cases hother with
      | union hor =>
          rw [hor] at hand
          cases hand
      | sequence _ hotherParts => rw [(hparts.unique hotherParts).2]

end Group

/-! ## Groups -/

/-- A walk points at the nested groups in their order. -/
theorem Entry.places_compileAll {ctx : Context} {keys : EntityKeys} {subject : String}
    {entries : List Entry} {index : Nat} {draft final : Draft} {trace : Trace}
    (h : (compileAll ctx keys subject entries index draft trace).result = .ok final) :
    final.values.filterMap Clause.place? = draft.values.filterMap Clause.place? ∧
      final.conditions.filterMap Clause.place? =
        draft.conditions.filterMap Clause.place? ++ places index entries := by
  induction entries generalizing index draft trace with
  | nil =>
      rw [compileAll] at h
      cases h
      exact ⟨rfl, (List.append_nil _).symm⟩
  | cons entry rest ih =>
      cases entry with
      | leaf own =>
          obtain ⟨next, mid, hown, hrest, _⟩ := compileAll_leaf_ok h
          obtain ⟨mapping, clause, _, hbecomes, rfl⟩ := Leaf.compile_ok hown
          have hnone : [clause].filterMap Clause.place? = [] := by
            cases hbecomes <;> rfl
          obtain ⟨hvalues, hconditions⟩ := ih hrest
          rw [Draft.values_add, Draft.note_values] at hvalues
          rw [Draft.conditions_add, Draft.note_conditions] at hconditions
          rw [hvalues, hconditions, places]
          cases own.isKeySet keys with
          | true => exact ⟨by simp [List.filterMap_append, hnone], rfl⟩
          | false => exact ⟨rfl, by simp [List.filterMap_append, hnone]⟩
      | nested inner =>
          obtain ⟨_, mid, hrest, _⟩ := compileAll_nested_ok h
          obtain ⟨hvalues, hconditions⟩ := ih hrest
          refine ⟨hvalues, ?_⟩
          rw [hconditions, Draft.addNested, List.filterMap_append, List.append_assoc]
          rfl

/-- A name is not written with a colon in front. -/
def Variable.IsPlain (name : String) : Prop :=
  (bareName name).toList.head? ≠ some ':'

theorem Variable.IsPlain.predicate {field : String} (h : IsPlain field) :
    IsPlain (field ++ "_predicate") := by
  unfold IsPlain at h ⊢
  rw [bareName_predicate, String.toList_append, List.head?_append]
  cases hhead : (bareName field).toList.head? with
  | none => simp
  | some c =>
      rw [hhead] at h
      exact h

namespace Group

/-- The names in a group are not written with a colon in front. -/
def NamesPlain (group : Group) : Prop :=
  Variable.IsPlain group.keys.bundle ∧ ∀ leaf ∈ group.ownLeaves, Variable.IsPlain leaf.field

/-- A group has no conditions on patterns and on existence. -/
def PatternFree (group : Group) : Prop :=
  ∀ leaf ∈ group.ownLeaves, leaf.operator.isPattern = false

/-- The predicates in the plan of a group are IRIs, and the texts for values are terms. -/
def Tokens (T : String → Prop) (group : Group) : Prop :=
  ∀ plan ∈ group.plan?,
    (∀ entry ∈ plan.mappings.entries, ∀ predicate ∈ entry.2.predicates, isIri predicate = true) ∧
      ∀ clause ∈ plan.clauses, ∀ text ∈ clause.valueTexts, IsTerm T text

instance : DecidablePred Variable.IsPlain :=
  fun name => inferInstanceAs (Decidable ((Variable.bareName name).toList.head? ≠ some ':'))

instance : DecidablePred NamesPlain :=
  fun group => inferInstanceAs (Decidable (Variable.IsPlain group.keys.bundle ∧
    ∀ leaf ∈ group.ownLeaves, Variable.IsPlain leaf.field))

instance : DecidablePred PatternFree :=
  fun group => inferInstanceAs (Decidable
    (∀ leaf ∈ group.ownLeaves, leaf.operator.isPattern = false))

instance (T : String → Prop) [DecidablePred T] : DecidablePred (Tokens T) :=
  fun group => inferInstanceAs (Decidable (∀ plan ∈ group.plan?,
    (∀ entry ∈ plan.mappings.entries, ∀ predicate ∈ entry.2.predicates, isIri predicate = true) ∧
      ∀ clause ∈ plan.clauses, ∀ text ∈ clause.valueTexts, isIri text = true ∨ T text))

end Group

/-- A clause of a plan is held by the draft or lists candidates. -/
theorem Draft.holds_or_listed {draft : Draft} {triple? : Option Triple} {clause : Clause}
    (h : clause ∈ (draft.finish triple?).clauses) :
    draft.Holds clause ∨ clause ∈ draft.candidates := by
  rw [clauses_finish, clauses, List.mem_append, List.mem_append] at h
  rcases h with (hset | hlist) | hcondition
  · exact .inl (.inl hset)
  · exact .inr hlist
  · exact .inl (.inr hcondition)

/-- The variable that stands for several predicates of a field is one of the grammar. -/
theorem Draft.Made.isVariable_choice {draft : Draft} {ctx : Context} {keys : EntityKeys}
    {subject : String} {done : List Leaf} (h : draft.Made ctx keys subject done)
    (hnames : ∀ leaf ∈ done, Variable.IsPlain leaf.field) {field name : String}
    {candidates : List String}
    (hentry : (field, .choice name candidates) ∈ draft.mappings.entries) :
    isVariable name = true := by
  have hfield : field ∈ draft.mappings.fields := List.mem_map.2 ⟨_, hentry, rfl⟩
  rw [h.fields, List.mem_eraseDups] at hfield
  obtain ⟨leaf, hleaf, rfl⟩ := List.mem_map.1 hfield
  obtain ⟨trace, hfound⟩ := h.sound.found _ hentry
  rcases Context.findMapping_ok hfound with ⟨_, heq⟩ | ⟨_, heq⟩ |
    ⟨_, found, _, ⟨_, _, heq⟩ | ⟨_, other, hname, heq⟩⟩
  · cases heq
  · cases heq
  · cases heq
  · cases heq
    exact isVariable_of_ofName hname (hnames leaf hleaf).predicate

/-- What stands for the predicate of a field is an IRI or a variable of the grammar. -/
theorem Draft.Made.isIri_or_isVariable {draft : Draft} {ctx : Context} {keys : EntityKeys}
    {subject : String} {done : List Leaf} (h : draft.Made ctx keys subject done)
    (hnames : ∀ leaf ∈ done, Variable.IsPlain leaf.field)
    (hpredicates : ∀ entry ∈ draft.mappings.entries, ∀ predicate ∈ entry.2.predicates,
      isIri predicate = true) {field : String} {mapping : FieldMapping}
    (hentry : (field, mapping) ∈ draft.mappings.entries) {predicate : String}
    (hpredicate : mapping.predicate? = some predicate) :
    isIri predicate = true ∨ isVariable predicate = true := by
  cases mapping with
  | subject => cases hpredicate
  | predicate text =>
      cases hpredicate
      exact .inl (hpredicates _ hentry predicate List.mem_cons_self)
  | choice name candidates =>
      cases hpredicate
      exact .inr (h.isVariable_choice hnames hentry)

namespace Group

variable {T : String → Prop} {ctx : Context}

/-- The plan of a group is written in elements and comparisons. -/
theorem PlannedIn.formed {group : Group} {plan : Plan} (h : group.PlannedIn ctx plan)
    (hstored : group.WellStored) (hpatterns : group.PatternFree) (hnames : group.NamesPlain)
    (hsubject : Variable.IsPlain ctx.options.subjectVariable)
    (htype : isIri ctx.options.typePredicate = true)
    (hpredicates : ∀ entry ∈ plan.mappings.entries, ∀ predicate ∈ entry.2.predicates,
      isIri predicate = true)
    (hvalues : ∀ clause ∈ plan.clauses, ∀ text ∈ clause.valueTexts, IsTerm T text) :
    (∀ t, plan.defaultBundle = some t → Derives T .element t.text) ∧
      ∀ clause ∈ plan.clauses, clause.Formed T := by
  obtain ⟨subject, draft, triple?, hname, hmade, hbundle, rfl⟩ := h
  have hentity := isVariable_of_ofName hname hsubject
  constructor
  · intro t ht
    rcases defaultBundle_ok hbundle with ⟨_, target, htarget, heq⟩ | ⟨_, heq⟩
    · have hsome : triple? = some t := ht
      rw [heq] at hsome
      cases hsome
      exact .triple hentity (.inl htype) (.inl (isVariable_of_ofName htarget hnames.1))
    · have hsome : triple? = some t := ht
      rw [heq] at hsome
      cases hsome
  · intro clause hclause
    rcases Draft.holds_or_listed hclause with hheld | hlisted
    · rcases hmade.origin clause hheld with ⟨place, rfl⟩ | ⟨leaf, hleaf, mapping, hget, hbecomes⟩
      · exact Clause.formed_nested T place
      · have hentry := Memo.mem_entries_of_get? hget
        exact hbecomes.formed hentity
          (fun _ => hmade.isIri_or_isVariable hnames.2 hpredicates hentry)
          (fun _ hfield => isVariable_of_ofName hfield (hnames.2 leaf hleaf))
          (hvalues clause hclause) (hpatterns leaf hleaf) (hstored.stored leaf hleaf).of_notIn
    · rw [hmade.sound.listed] at hlisted
      obtain ⟨field, name, candidates, hentry, rfl⟩ := Memo.mem_candidateClauses.1 hlisted
      exact Clause.formed_candidates (hmade.isVariable_choice hnames.2 hentry)
        (hpredicates _ hentry)

/-- The plan of a group points at the nested groups in their order. -/
theorem places_walk {group : Group} {subject : String} {trace : Trace} {draft : Draft}
    (hwalk : (group.walk ctx subject trace).result = .ok draft) (triple? : Option Triple) :
    (draft.finish triple?).clauses.filterMap Clause.place? = Entry.places 0 group.entries := by
  have hmade := made_walk hwalk
  obtain ⟨hvalues, hconditions⟩ := Entry.places_compileAll hwalk
  have hcandidates : draft.candidates.filterMap Clause.place? = [] := by
    rw [List.filterMap_eq_nil_iff, hmade.sound.listed]
    intro clause hclause
    obtain ⟨_, name, candidates, _, rfl⟩ := Memo.mem_candidateClauses.1 hclause
    rfl
  rw [Draft.clauses_finish, Draft.clauses, List.filterMap_append, List.filterMap_append, hvalues,
    hcandidates, hconditions]
  rfl

/-- The plan of a group without own leaves points at nested groups only. -/
theorem nested_of_no_leaves {keys : EntityKeys} {subject : String} {draft : Draft}
    (h : draft.Made ctx keys subject []) (triple? : Option Triple) :
    ∀ clause ∈ (draft.finish triple?).clauses, ∃ place, clause = .nested place := by
  intro clause hclause
  have hheld : draft.Holds clause := by
    rcases Draft.holds_or_listed hclause with hheld | hlist
    · exact hheld
    · -- No field has a mapping, so no candidates are listed.
      rw [h.sound.listed] at hlist
      obtain ⟨field, name, candidates, hentry, _⟩ := Memo.mem_candidateClauses.1 hlist
      have hfield : field ∈ draft.mappings.fields := List.mem_map.2 ⟨_, hentry, rfl⟩
      rw [h.fields] at hfield
      cases hfield
  rcases h.origin clause hheld with hplace | ⟨leaf, hleaf, _⟩
  · exact hplace
  · cases hleaf

/-- The plan of a union points at nested groups only. -/
theorem PlannedIn.of_union {group : Group} {plan : Plan} (h : group.PlannedIn ctx plan)
    (hstored : group.WellStored) (hor : group.conjunction = .or) :
    plan.defaultBundle = none ∧ ∀ clause ∈ plan.clauses, ∃ place, clause = .nested place := by
  obtain ⟨subject, draft, triple?, _, hmade, hbundle, rfl⟩ := h
  rw [hstored.union hor] at hmade
  refine ⟨?_, nested_of_no_leaves hmade triple?⟩
  rcases defaultBundle_ok hbundle with ⟨hneeds, _⟩ | ⟨_, hnone⟩
  · simp [needsDefaultBundle, hor] at hneeds
  · exact hnone

/-- The plan that a walk has given a group, with the texts of its nested groups, makes up the parts
of its text. -/
theorem parts_of_walk {group : Group} {subject : String} {trace : Trace} {draft : Draft}
    {triple? : Option Triple} (hname : Variable.ofName ctx.options.subjectVariable = .ok subject)
    (hwalk : (group.walk ctx subject trace).result = .ok draft)
    (hbundle : group.defaultBundle ctx subject = .ok triple?) {textAt : Nat → String}
    (hrendered : ∀ (place : Nat) (inner : Group),
      (group.walk ctx subject trace).left[place]? = some (.nested inner) →
        ∀ later, (inner.render later).result = .ok (textAt place)) :
    (group.withPlan (group.walk ctx subject trace).left (draft.finish triple?)).Parts ctx
      (draft.finish triple?) textAt := by
  have hentries : Entry.bareAll (group.walk ctx subject trace).left = Entry.bareAll group.entries :=
    Entry.bareAll_compileAll ..
  refine ⟨rfl, (plannedIn_walk hname hwalk hbundle).congr ?_, ?_, hrendered⟩
  · exact bare_eq_of_entries rfl rfl rfl hentries
  · rw [Plan.places_fragments, places_walk hwalk, ← Entry.places_bareAll, ← hentries,
      Entry.places_bareAll]
    rfl

/-- What a compiled group combines mirrors the group, if the texts of its nested groups are those to
which they render and mirror them. -/
theorem mirrors_combine {group : Group} {subject : String} {trace : Trace} {draft : Draft}
    {triple? : Option Triple} (hstored : group.WellStored) (hpatterns : group.PatternFree)
    (hnames : group.NamesPlain) (hsubject : Variable.IsPlain ctx.options.subjectVariable)
    (htype : isIri ctx.options.typePredicate = true)
    (hname : Variable.ofName ctx.options.subjectVariable = .ok subject)
    (hwalk : (group.walk ctx subject trace).result = .ok draft)
    (hbundle : group.defaultBundle ctx subject = .ok triple?)
    (htokens : (group.withPlan (group.walk ctx subject trace).left
      (draft.finish triple?)).Tokens T) {textAt : Nat → String}
    (hnested : ∀ (place : Nat) (inner : Group),
      (group.walk ctx subject trace).left[place]? = some (.nested inner) →
        (∀ later, (inner.render later).result = .ok (textAt place)) ∧
          inner.Mirrors T ctx (textAt place)) :
    (group.withPlan (group.walk ctx subject trace).left (draft.finish triple?)).Mirrors T ctx
      (group.conjunction.combine
        ((draft.finish triple?).fragments.map (Fragment.text textAt))) := by
  have hparts := parts_of_walk hname hwalk hbundle fun place inner h => (hnested place inner h).1
  have hmirrors := fun place inner h => (hnested place inner h).2
  cases hconjunction : group.conjunction with
  | or =>
      obtain ⟨hnone, hall⟩ :=
        (plannedIn_walk hname hwalk hbundle).of_union hstored hconjunction
      have hfragments := Plan.fragments_of_nested hnone hall
      rw [← Plan.places_fragments, hparts.places] at hfragments
      rw [hfragments, List.map_map]
      exact .union hconjunction hparts hfragments hmirrors
  | and =>
      obtain ⟨hpredicates, hvalues⟩ := htokens _ rfl
      obtain ⟨hdefault, hclauses⟩ := (plannedIn_walk hname hwalk hbundle).formed hstored hpatterns
        hnames hsubject htype hpredicates hvalues
      exact .sequence hconjunction hparts
        (fun text htext => Plan.derives_of_own hdefault hclauses htext) hmirrors

/-- The nested groups after a walk have texts at their places, if each of them has one once it is
compiled. -/
theorem exists_textAt {group : Group} {subject : String} {trace : Trace} {draft : Draft}
    {P : Group → String → Prop} (hwalk : (group.walk ctx subject trace).result = .ok draft)
    (h : ∀ before : Group, .nested before ∈ group.entries → ∀ mid,
      (before.compile ctx mid).result = .ok () →
      .nested (before.compile ctx mid).left ∈ (group.walk ctx subject trace).left → ∃ text,
        (∀ later, ((before.compile ctx mid).left.render later).result = .ok text) ∧
          P (before.compile ctx mid).left text) :
    ∃ textAt : Nat → String, ∀ (place : Nat) (inner : Group),
      (group.walk ctx subject trace).left[place]? = some (.nested inner) →
        (∀ later, (inner.render later).result = .ok (textAt place)) ∧ P inner (textAt place) := by
  refine ⟨fun place =>
    (Entry.textAt (group.walk ctx subject trace).left place).toOption.getD "", ?_⟩
  intro place inner hplace
  have hwas := Entry.isNestedAt_iff.2 ⟨inner, hplace⟩
  rw [Entry.isNestedAt_walk] at hwas
  obtain ⟨before, hbefore⟩ := Entry.isNestedAt_iff.1 hwas
  obtain ⟨mid, hinner, hat⟩ := walk_nested_at hwalk hbefore
  rw [hplace] at hat
  cases hat
  obtain ⟨text, htext, hproperty⟩ := h before (List.mem_of_getElem? hbefore) mid hinner
    (List.mem_of_getElem? hplace)
  dsimp only
  rw [Entry.textAt_of_nested hplace, htext]
  exact ⟨htext, hproperty⟩

/-- Where the plan of a walk points, there is the text of a nested group. -/
theorem textAt_of_walk {group : Group} {subject : String} {trace : Trace} {draft : Draft}
    (hwalk : (group.walk ctx subject trace).result = .ok draft) (triple? : Option Triple)
    {textAt : Nat → String} (hrendered : ∀ (place : Nat) (inner : Group),
      (group.walk ctx subject trace).left[place]? = some (.nested inner) →
        (inner.render []).result = .ok (textAt place)) {place : Nat}
    (hplace : .nested place ∈ (draft.finish triple?).clauses) :
    Entry.textAt (group.walk ctx subject trace).left place = .ok (textAt place) := by
  have hmem : place ∈ Entry.places 0 group.entries := by
    rw [← places_walk hwalk triple?]
    exact List.mem_filterMap.2 ⟨_, hplace, rfl⟩
  obtain ⟨_, inner, hinner⟩ := Entry.exists_nested_of_mem_places hmem
  obtain ⟨mid, _, hat⟩ := walk_nested_at hwalk hinner
  exact (Entry.textAt_of_nested hat).trans (hrendered place _ hat)

/-- The text of a compiled tree mirrors the tree. -/
theorem mirrors_of_compile {group : Group} (hstored : group.Everywhere WellStored)
    (hbuilding : group.AllBuilding) (hpatterns : group.Everywhere PatternFree)
    (hnames : group.Everywhere NamesPlain)
    (hsubject : Variable.IsPlain ctx.options.subjectVariable)
    (htype : isIri ctx.options.typePredicate = true) {trace : Trace}
    (hok : (group.compile ctx trace).result = .ok ())
    (htokens : (group.compile ctx trace).left.Everywhere (Tokens T)) :
    ∃ text, (∀ later, ((group.compile ctx trace).left.render later).result = .ok text) ∧
      (group.compile ctx trace).left.Mirrors T ctx text := by
  induction group using nestedInduction generalizing trace with
  | step group ih =>
      obtain ⟨subject, draft, triple?, hname, hwalk, hbundle, hleft⟩ :=
        compile_ok (phase_eq_building_iff.1 hbuilding.self) hok
      rw [hleft] at htokens ⊢
      obtain ⟨textAt, htextAt⟩ := exists_textAt hwalk fun before hmem mid hinner hleft =>
        ih before hmem (hstored.nested hmem) (hbuilding.nested hmem) (hpatterns.nested hmem)
          (hnames.nested hmem) hinner (htokens.nested hleft)
      have hpoints : ∀ place, .nested place ∈ (draft.finish triple?).clauses →
          Entry.textAt (group.walk ctx subject trace).left place = .ok (textAt place) :=
        fun place => textAt_of_walk hwalk triple? fun place inner h => (htextAt place inner h).1 []
      refine ⟨_, fun later => ?_, mirrors_combine hstored.self hpatterns.self hnames.self hsubject
        htype hname hwalk hbundle htokens.self htextAt⟩
      rw [render_withPlan, Plan.text_eq hpoints]

/-- In a tree that is being built and has no conditions on patterns and on existence, and whose
names are not written with a colon in front, let the type predicate and all predicates that were
found be IRIs and all texts for values be terms.  Then the text of the compiled tree is a pattern,
and it is the one text whose derivation mirrors the tree: group by group it is made of the fragments
of the plan and of the texts of the nested groups. -/
theorem pattern_of_compile {group : Group} (hreach : group.Reachable)
    (hbuilding : group.AllBuilding) (hpatterns : group.Everywhere PatternFree)
    (hnames : group.Everywhere NamesPlain)
    (hsubject : Variable.IsPlain ctx.options.subjectVariable)
    (htype : isIri ctx.options.typePredicate = true) {trace : Trace}
    (hok : (group.compile ctx trace).result = .ok ())
    (htokens : (group.compile ctx trace).left.Everywhere (Tokens T)) (later : Trace) :
    ∃ text, ((group.compile ctx trace).left.render later).result = .ok text ∧
      Derives T .pattern text ∧ (group.compile ctx trace).left.Mirrors T ctx text ∧
        ∀ other, (group.compile ctx trace).left.Mirrors T ctx other → other = text := by
  obtain ⟨steps, hsteps⟩ := hreach
  have hstored := (wellStored_invariant (Workspace.Uses steps)).everywhere hsteps
  obtain ⟨text, htext, hmirrors⟩ :=
    mirrors_of_compile hstored hbuilding hpatterns hnames hsubject htype hok htokens
  exact ⟨text, htext later, hmirrors.derives, hmirrors, fun other h => h.unique hmirrors⟩

end Group

/-! ## Small cases -/

namespace Sample

/-- Build a group of nodes with a given title that have some tag but one, or one of two ids. -/
def buildingTagged : List WorkspaceStep :=
  [.make "page" .and keys, .add "page" "title" (some (.single "'home'")) "=" none,
    .makeSibling "some" "page" .or, .add "some" "tag" (some (.single "'red'")) "!=" none,
    .add "some" "nid" (some (.list ["1", "2"])) "IN" none, .nest "page" "some"]

/-- The group when it is built. -/
def tagged : Group :=
  ((Workspace.run {} buildingTagged).get? "page").getD default

/-- The group when it has got its title only. -/
def titled : Group :=
  ((Workspace.run {} (buildingTagged.take 2)).get? "page").getD default

/-- The context of nodes that are called by a name with a colon in front. -/
def colonContext : Context :=
  { context with options := { subjectVariable := ":s" } }

end Sample

namespace Group

/-- The text of a small tree is a pattern: a title, then tags and ids as branches of a union. -/
theorem pattern_of_tagged :
    Sample.tagged.Reachable ∧ Sample.tagged.AllBuilding ∧
      Sample.tagged.Everywhere PatternFree ∧ Sample.tagged.Everywhere NamesPlain ∧
      (Sample.tagged.compile Sample.context []).left.Everywhere
        (Tokens (· ∈ ["'home'", "'red'", "1", "2"])) ∧
      ∃ text, ((Sample.tagged.compile Sample.context []).left.render []).result = .ok text ∧
        Derives (· ∈ ["'home'", "'red'", "1", "2"]) .pattern text ∧
        (Sample.tagged.compile Sample.context []).left.Mirrors
          (· ∈ ["'home'", "'red'", "1", "2"]) Sample.context text ∧
        ∀ other, (Sample.tagged.compile Sample.context []).left.Mirrors
          (· ∈ ["'home'", "'red'", "1", "2"]) Sample.context other → other = text := by
  have hreach : Sample.tagged.Reachable := ⟨Sample.buildingTagged, "page", rfl⟩
  have hbuilding : Sample.tagged.AllBuilding := bare_eq_self_iff.1 rfl
  have hpatterns : Sample.tagged.Everywhere PatternFree := by decide +kernel
  have hnames : Sample.tagged.Everywhere NamesPlain := by decide +kernel
  have htokens : (Sample.tagged.compile Sample.context []).left.Everywhere
      (Tokens (· ∈ ["'home'", "'red'", "1", "2"])) := by decide +kernel
  exact ⟨hreach, hbuilding, hpatterns, hnames, htokens,
    pattern_of_compile hreach hbuilding hpatterns hnames (by decide) (by decide +kernel) rfl
      htokens []⟩

/-- A subject whose name begins with a colon is accepted, but what is written of it is no pattern,
whatever the terms are. -/
theorem colon_pattern :
    Sample.titled.Reachable ∧ Sample.titled.AllBuilding ∧
      Sample.titled.Everywhere PatternFree ∧ Sample.titled.Everywhere NamesPlain ∧
      isIri Sample.colonContext.options.typePredicate = true ∧
      (Sample.titled.compile Sample.colonContext []).result = .ok () ∧
      (Sample.titled.compile Sample.colonContext []).left.Everywhere (Tokens (· = "'home'")) ∧
      ∃ text, ((Sample.titled.compile Sample.colonContext []).left.render []).result = .ok text ∧
        text = "?:s <http://www.w3.org/1999/02/22-rdf-syntax-ns#type> ?type . " ++
          "?:s <title> 'home'" ∧
        ∀ T, ¬ Derives T .pattern text := by
  have hreach : Sample.titled.Reachable := ⟨Sample.buildingTagged.take 2, "page", rfl⟩
  have htext : ((Sample.titled.compile Sample.colonContext []).left.render []).result =
      .ok ("?:s <http://www.w3.org/1999/02/22-rdf-syntax-ns#type> ?type . " ++
        "?:s <title> 'home'") := rfl
  refine ⟨hreach, bare_eq_self_iff.1 rfl, by decide +kernel, by decide +kernel,
    by decide +kernel, rfl, by decide +kernel, _, htext, rfl, fun T hderives => ?_⟩
  exact hderives.take_ne (by decide +kernel)

end Group

end GraphCriteria
