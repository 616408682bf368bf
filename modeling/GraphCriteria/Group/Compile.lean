import GraphCriteria.Context
import GraphCriteria.Group.Basic
import GraphCriteria.Term.Variable

/-!
# Compiling groups

Compiling walks the entries of a group in order, finds the mapping of every field and
turns every leaf into a clause.  Nested groups are compiled in place.  A group that has
been compiled before is left as it is.  At the first error the walk stops: the groups
that were finished by then stay compiled, and all others are still being built.
-/

namespace GraphCriteria

/-! ## Outcomes -/

/-- The outcome of an operation that leaves something behind whether it succeeds or
fails, and what has happened by its end. -/
structure Outcome (σ α : Type) where
  result : Except ConditionError α
  left : σ
  trace : Trace

/-! ## Mappings -/

/-- Find the mapping of a field.  Keys do not depend on the host; a field with several
predicates is reached through a variable named after it. -/
def Context.findMapping (ctx : Context) (kind : FieldKind) (field : String) :
    Pass FieldMapping :=
  match kind with
  | .id => pure .subject
  | .bundle => pure (.predicate ctx.options.typePredicate)
  | .label | .other => do
    let found ← ctx.resolve field
    match found.toList with
    | [] => Pass.fail (.unknownFieldMapping ctx.entityType field)
    | [predicate] => pure (.predicate predicate)
    | candidates => do
      let name ← Pass.ofExcept (Variable.ofName (field ++ "_predicate"))
      pure (.choice name candidates)

/-- The clause that lists the candidates of a predicate variable. -/
def FieldMapping.candidateClauses : FieldMapping → List Clause
  | choice name candidates => [.values none ⟨name, candidates⟩]
  | _ => []

/-! ## Plans under construction -/

/-- What has been compiled of a group so far. -/
structure Draft where
  mappings : Memo := {}
  values : List Clause := []
  candidates : List Clause := []
  conditions : List Clause := []
deriving Inhabited

namespace Draft

/-- The mapping of a field.  When it is new, its candidates are listed once. -/
def fetch (draft : Draft) (ctx : Context) (kind : FieldKind) (field : String) :
    Pass (FieldMapping × Draft) := do
  let found ← draft.mappings.fetch field (ctx.findMapping kind field)
  let listed := if found.isNew then found.mapping.candidateClauses else []
  pure (found.mapping,
    { draft with mappings := found.memo, candidates := draft.candidates ++ listed })

/-- Add the clause of a leaf.  Key sets come before all other conditions. -/
def add (draft : Draft) (kind : FieldKind) (operator : Operator) (clause : Clause) : Draft :=
  if operator = .isIn && kind.isKey then { draft with values := draft.values ++ [clause] }
  else { draft with conditions := draft.conditions ++ [clause] }

/-- Add the nested group at a place of the entries. -/
def addNested (draft : Draft) (index : Nat) : Draft :=
  { draft with conditions := draft.conditions ++ [.nested index] }

/-- The plan of a group whose entries have all been compiled. -/
def finish (draft : Draft) (defaultBundle : Option Triple) : Plan where
  defaultBundle := defaultBundle
  values := draft.values ++ draft.candidates
  conditions := draft.conditions
  mappings := draft.mappings

end Draft

/-! ## Leaves -/

namespace Leaf

/-- The one text of a leaf's value. -/
def scalar (leaf : Leaf) : Except ConditionError String :=
  match leaf.value with
  | some (.single text) => .ok text
  | some (.list _) => .error (.unsupportedArrayValue leaf.field leaf.operator)
  | none => .error (.missingRequiredValue leaf.field leaf.operator)

/-- The members of a leaf's value, escaped in order. -/
def members (leaf : Leaf) (ctx : Context) : Pass (List String) :=
  match leaf.value with
  | some value => ctx.escapeAll leaf.field leaf.language value.toList
  | none => Pass.fail (.missingRequiredValue leaf.field leaf.operator)

/-- The operand of a leaf that becomes part of the filter.  The members of keys are
escaped; other texts are written as they are given. -/
def operand (leaf : Leaf) (kind : FieldKind) (ctx : Context) : Pass Operand :=
  match leaf.value with
  | some (.single text) => pure (.scalar text)
  | some (.list texts) =>
    match leaf.operator.rule.separator with
    | none => Pass.fail (.unsupportedArrayValue leaf.field leaf.operator)
    | some separator =>
      if kind.isKey then do
        let texts ← leaf.members ctx
        pure (.list texts separator)
      else pure (.list texts separator)
  | none => Pass.fail (.missingRequiredValue leaf.field leaf.operator)

/-- The variable that stands for a leaf's field, and the triple that binds it.  The id is
the subject itself and needs no triple. -/
def bind (leaf : Leaf) (subject : String) (mapping : FieldMapping) :
    Except ConditionError (String × Option Triple) :=
  match mapping.predicate? with
  | none => .ok (subject, none)
  | some predicate => do
    let target ← Variable.ofName leaf.field
    pure (target, some ⟨subject, predicate, target⟩)

/-- The clause of a leaf whose field has a known mapping. -/
def clause (leaf : Leaf) (ctx : Context) (subject : String) (kind : FieldKind)
    (mapping : FieldMapping) : Pass Clause :=
  match leaf.operator with
  | .equal =>
    match mapping.predicate? with
    | none => Pass.fail (.unsupportedOperatorForKey leaf.field leaf.operator)
    | some predicate => do
      let text ← Pass.ofExcept leaf.scalar
      let object ← ctx.escape leaf.field text leaf.language
      pure (.triple ⟨subject, predicate, object⟩)
  | .isIn => do
    let (target, binding) ← Pass.ofExcept (leaf.bind subject mapping)
    let members ← leaf.members ctx
    pure (.values binding ⟨target, members⟩)
  | .present | .absent => do
    let (target, binding) ← Pass.ofExcept (leaf.bind subject mapping)
    pure (.existence binding leaf.operator target)
  | .like | .notLike => do
    let (target, binding) ← Pass.ofExcept (leaf.bind subject mapping)
    let text ← Pass.ofExcept leaf.scalar
    pure (.pattern binding leaf.operator target (Literal.patternText text))
  | .notIn | .notEqual | .less | .greater | .lessOrEqual | .greaterOrEqual => do
    let (target, binding) ← Pass.ofExcept (leaf.bind subject mapping)
    let operand ← leaf.operand kind ctx
    pure (.filter binding leaf.operator target operand)

/-- Compile a leaf into a draft. -/
def compile (leaf : Leaf) (ctx : Context) (keys : EntityKeys) (subject : String)
    (draft : Draft) : Pass Draft := do
  let kind := keys.kind leaf.field
  let (mapping, draft) ← draft.fetch ctx kind leaf.field
  let clause ← leaf.clause ctx subject kind mapping
  pure (draft.add kind leaf.operator clause)

end Leaf

/-! ## Groups -/

/-- The triple that links the entity to its bundle, for a group that needs it. -/
def Group.defaultBundle (group : Group) (ctx : Context) (subject : String) :
    Except ConditionError (Option Triple) :=
  if group.needsDefaultBundle then do
    let target ← Variable.ofName group.keys.bundle
    pure (some ⟨subject, ctx.options.typePredicate, target⟩)
  else pure none

mutual

/-- Compile a group. -/
def Group.compile (ctx : Context) (group : Group) (trace : Trace) : Outcome Group Unit :=
  match group with
  | ⟨conjunction, keys, entries, lacksBundle, .building⟩ =>
    let group : Group := ⟨conjunction, keys, entries, lacksBundle, .building⟩
    let trace := trace ++ [.compiling conjunction entries.length ctx.entityType]
    match Variable.ofName ctx.options.subjectVariable with
    | .error e => ⟨.error e, group, trace⟩
    | .ok subject =>
      let walk := Entry.compileAll ctx keys subject entries 0 {} trace
      match walk.result with
      | .error e => ⟨.error e, { group with entries := walk.left }, walk.trace⟩
      | .ok draft =>
        match group.defaultBundle ctx subject with
        | .error e => ⟨.error e, { group with entries := walk.left }, walk.trace⟩
        | .ok triple? =>
          ⟨.ok (),
            { group with entries := walk.left, state := .compiled (draft.finish triple?) },
            walk.trace⟩
  | ⟨conjunction, keys, entries, lacksBundle, state⟩ =>
    ⟨.ok (), ⟨conjunction, keys, entries, lacksBundle, state⟩, trace ++ [.skipped]⟩

/-- Compile the entries of a group from a place on. -/
def Entry.compileAll (ctx : Context) (keys : EntityKeys) (subject : String)
    (entries : List Entry) (index : Nat) (draft : Draft) (trace : Trace) :
    Outcome (List Entry) Draft :=
  match entries with
  | [] => ⟨.ok draft, [], trace⟩
  | .leaf leaf :: rest =>
    match leaf.compile ctx keys subject draft trace with
    | (.error e, trace) => ⟨.error e, .leaf leaf :: rest, trace⟩
    | (.ok draft, trace) =>
      let walk := Entry.compileAll ctx keys subject rest (index + 1) draft trace
      ⟨walk.result, .leaf leaf :: walk.left, walk.trace⟩
  | .nested group :: rest =>
    let inner := group.compile ctx trace
    match inner.result with
    | .error e => ⟨.error e, .nested inner.left :: rest, inner.trace⟩
    | .ok () =>
      let walk := Entry.compileAll ctx keys subject rest (index + 1) (draft.addNested index)
        inner.trace
      ⟨walk.result, .nested inner.left :: walk.left, walk.trace⟩

end

end GraphCriteria
