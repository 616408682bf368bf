import GraphCriteria.Group.Compile

/-!
# Rendering groups

The text of a group joins its fragments: the triples that bind variables, the clauses
themselves, the texts of nested groups, and last one filter that holds all comparisons.
A fragment is written only once.  The text is kept, and later calls return it again.
-/

namespace GraphCriteria

/-! ## Fragments -/

/-- Add a fragment, wrapped as the conjunction asks, unless it is empty or there already. -/
def Conjunction.addFragment (conjunction : Conjunction) (fragments : List String)
    (fragment : String) : List String :=
  if fragment = "" then fragments
  else
    let wrapped := conjunction.rule.opening ++ fragment ++ conjunction.rule.closing
    if wrapped ∈ fragments then fragments else fragments ++ [wrapped]

/-- The fragments of a group made of a list of texts. -/
def Conjunction.fragments (conjunction : Conjunction) (texts : List String) : List String :=
  texts.foldl conjunction.addFragment []

/-- Join fragments. -/
def Conjunction.join (conjunction : Conjunction) (fragments : List String) : String :=
  conjunction.rule.separator.intercalate fragments

/-- The one filter of a group, from its comparisons. -/
def filterText : List String → String
  | [comparison] => "FILTER (" ++ comparison ++ ")"
  | comparisons => "FILTER ((" ++ ") && (".intercalate comparisons ++ "))"

/-- The texts of the one filter of a group, if there is one. -/
def filterTexts (comparisons : List String) : List String :=
  if comparisons = [] then [] else [filterText comparisons]

namespace Clause

/-- The text of a clause without its binding, where it stands on its own. -/
def ownTexts : Clause → List String
  | nested _ | filter .. => []
  | triple t => [t.text]
  | values _ clause => [clause.text]
  | existence _ operator target => [operator.rule.opening ++ target ++ operator.rule.closing]
  | pattern _ operator target text =>
    [operator.rule.opening ++ target ++ ", \"" ++ text ++ "\"" ++ operator.rule.closing]

/-- The comparison that a clause adds to the filter. -/
def comparison? : Clause → Option String
  | filter _ operator target operand =>
    some (operator.rule.opening ++ target ++ " " ++ operator.symbol ++ " " ++ operand.text ++
      operator.rule.closing)
  | _ => none

/-- The texts that a clause adds to the fragments of its group, given the texts of the
nested groups by their places. -/
def texts (nestedText? : Nat → Except ConditionError String) (clause : Clause) :
    Except ConditionError (List String) :=
  match clause with
  | nested index => (nestedText? index).map ([·])
  | clause => .ok ((clause.binding?.map Triple.text).toList ++ clause.ownTexts)

/-- The texts of a list of clauses. -/
def textsOfAll (nestedText? : Nat → Except ConditionError String) :
    List Clause → Except ConditionError (List String)
  | [] => .ok []
  | clause :: clauses => do
    let first ← clause.texts nestedText?
    let rest ← textsOfAll nestedText? clauses
    pure (first ++ rest)

end Clause

namespace Plan

/-- The texts from which the fragments of a group are made, in order. -/
def texts (plan : Plan) (nestedText? : Nat → Except ConditionError String) :
    Except ConditionError (List String) := do
  let texts ← Clause.textsOfAll nestedText? plan.clauses
  pure ((plan.defaultBundle.map Triple.text).toList ++ texts ++
    filterTexts (plan.clauses.filterMap Clause.comparison?))

/-- The text of a group. -/
def text (plan : Plan) (conjunction : Conjunction)
    (nestedText? : Nat → Except ConditionError String) : Except ConditionError String := do
  let texts ← plan.texts nestedText?
  pure (conjunction.join (conjunction.fragments texts))

end Plan

/-! ## Groups -/

/-- The text at a place of a list of optional outcomes.  A place that holds no nested group
counts as one that has not been compiled. -/
def nestedTextAt (texts : List (Option (Except ConditionError String))) (index : Nat) :
    Except ConditionError String :=
  match texts[index]? with
  | some (some text) => text
  | _ => .error .notCompiled

/-- What rendering the entries of a group leaves: the entries, the texts of the nested
groups by their places, and the trace. -/
structure RenderedEntries where
  entries : List Entry
  texts : List (Option (Except ConditionError String))
  trace : Trace

mutual

/-- The text of a compiled group. -/
def Group.render (group : Group) (trace : Trace) : Outcome Group String :=
  match group with
  | ⟨conjunction, keys, entries, lacksBundle, .building⟩ =>
    ⟨.error .notCompiled, ⟨conjunction, keys, entries, lacksBundle, .building⟩, trace⟩
  | ⟨conjunction, keys, entries, lacksBundle, .rendered plan text⟩ =>
    ⟨.ok text, ⟨conjunction, keys, entries, lacksBundle, .rendered plan text⟩, trace⟩
  | ⟨conjunction, keys, entries, lacksBundle, .compiled plan⟩ =>
    let inner := Entry.renderAll entries trace
    match plan.text conjunction (nestedTextAt inner.texts) with
    | .error e =>
      ⟨.error e, ⟨conjunction, keys, inner.entries, lacksBundle, .compiled plan⟩, inner.trace⟩
    | .ok text =>
      ⟨.ok text, ⟨conjunction, keys, inner.entries, lacksBundle, .rendered plan text⟩,
        inner.trace ++ [.rendered conjunction text]⟩

/-- Render the nested groups among the entries of a group. -/
def Entry.renderAll (entries : List Entry) (trace : Trace) : RenderedEntries :=
  match entries with
  | [] => ⟨[], [], trace⟩
  | .leaf leaf :: rest =>
    let later := Entry.renderAll rest trace
    ⟨.leaf leaf :: later.entries, none :: later.texts, later.trace⟩
  | .nested group :: rest =>
    let inner := group.render trace
    let later := Entry.renderAll rest inner.trace
    ⟨.nested inner.left :: later.entries, some inner.result :: later.texts, later.trace⟩

end

end GraphCriteria
