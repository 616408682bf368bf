import GraphCriteria.Proofs.Passes

/-!
# What compiling a leaf does

A leaf that is compiled finds the mapping of its field, remembers it if it is new, and becomes
one clause.  This file says once what each of these steps can do; everything that is known of
compiled groups follows from it.

Main results:

- Theorem `Leaf.becomes_of_clause`: the clause of a leaf is one of five forms, by its operator.
- Theorem `Leaf.compile_ok`: compiling a leaf notes its mapping and adds its clause.
-/

namespace GraphCriteria

/-! ## Bindings -/

/-- A leaf speaks of the subject itself, or of the variable of its field and a triple that
binds it. -/
theorem Leaf.bind_ok {leaf : Leaf} {subject target : String} {mapping : FieldMapping}
    {binding : Option Triple} (h : leaf.bind subject mapping = .ok (target, binding)) :
    (mapping.predicate? = none ∧ target = subject ∧ binding = none) ∨
      ∃ predicate, mapping.predicate? = some predicate ∧
        Variable.ofName leaf.field = .ok target ∧ binding = some ⟨subject, predicate, target⟩ := by
  unfold Leaf.bind at h
  split at h
  · rename_i hnone
    cases h
    exact .inl ⟨hnone, rfl, rfl⟩
  · rename_i predicate hsome
    cases hname : Variable.ofName leaf.field with
    | error e =>
        rw [hname] at h
        cases h
    | ok name =>
        rw [hname] at h
        cases h
        exact .inr ⟨predicate, hsome, rfl, rfl⟩

/-! ## Mappings -/

/-- The id stands for the subject, the bundle has the predicate of the context, and any other
field the one predicate or the several that the host has found. -/
theorem Context.findMapping_ok {ctx : Context} {kind : FieldKind} {field : String}
    {trace : Trace} {mapping : FieldMapping}
    (h : (ctx.findMapping kind field trace).1 = .ok mapping) :
    (kind = .id ∧ mapping = .subject) ∨
      (kind = .bundle ∧ mapping = .predicate ctx.options.typePredicate) ∨
      kind.isKey = false ∧ ∃ found, ctx.resolver trace ctx.entityType field = .ok found ∧
        ((∃ predicate, found.toList = [predicate] ∧ mapping = .predicate predicate) ∨
          2 ≤ found.toList.length ∧ ∃ name, Variable.ofName (field ++ "_predicate") = .ok name ∧
            mapping = .choice name found.toList) := by
  cases kind with
  | id =>
      cases h
      exact .inl ⟨rfl, rfl⟩
  | bundle =>
      cases h
      exact .inr (.inl ⟨rfl, rfl⟩)
  | label | other =>
      obtain ⟨found, mid, hfound, h⟩ := Pass.fst_bind_eq_ok.1 h
      refine .inr (.inr ⟨rfl, found, congrArg Prod.fst hfound, ?_⟩)
      cases hlist : found.toList with
      | nil =>
          rw [hlist] at h
          cases h
      | cons first others =>
          rw [hlist] at h
          cases others with
          | nil =>
              cases h
              exact .inl ⟨first, rfl, rfl⟩
          | cons second others =>
              obtain ⟨name, mid', hname, h⟩ := Pass.fst_bind_eq_ok.1 h
              cases h
              exact .inr ⟨by simp, name, congrArg Prod.fst hname, rfl⟩

/-- The id is the only field without a predicate. -/
theorem Context.predicate?_eq_none_iff {ctx : Context} {kind : FieldKind} {field : String}
    {trace : Trace} {mapping : FieldMapping}
    (h : (ctx.findMapping kind field trace).1 = .ok mapping) :
    mapping.predicate? = none ↔ kind = .id := by
  rcases findMapping_ok h with ⟨rfl, rfl⟩ | ⟨rfl, rfl⟩ | ⟨hkey, _, _, ⟨_, _, rfl⟩ | ⟨_, _, _, rfl⟩⟩
  · simp [FieldMapping.predicate?]
  · simp [FieldMapping.predicate?]
  · cases kind <;> simp_all [FieldMapping.predicate?, FieldKind.isKey]
  · cases kind <;> simp_all [FieldMapping.predicate?, FieldKind.isKey]

/-! ## Clauses -/

/-- Whether conditions with this operator become part of the filter of their group. -/
def Operator.isComparison : Operator → Bool
  | notIn | notEqual | less | greater | lessOrEqual | greaterOrEqual => true
  | _ => false

/-- The forms of the clause of a leaf whose field has a known mapping. -/
inductive Leaf.Becomes (leaf : Leaf) (ctx : Context) (subject : String) (kind : FieldKind)
    (mapping : FieldMapping) : Clause → Prop where
  | triple {predicate text object : String} {trace : Trace} (hoperator : leaf.operator = .equal)
      (hpredicate : mapping.predicate? = some predicate) (hscalar : leaf.scalar = .ok text)
      (hobject : (ctx.escape leaf.field text leaf.language trace).1 = .ok object) :
      Becomes leaf ctx subject kind mapping (.triple ⟨subject, predicate, object⟩)
  | values {target : String} {binding : Option Triple} {members : List String} {trace : Trace}
      (hoperator : leaf.operator = .isIn)
      (hbind : leaf.bind subject mapping = .ok (target, binding))
      (hmembers : (leaf.members ctx trace).1 = .ok members) :
      Becomes leaf ctx subject kind mapping (.values binding ⟨target, members⟩)
  | existence {target : String} {binding : Option Triple}
      (hoperator : leaf.operator = .present ∨ leaf.operator = .absent)
      (hbind : leaf.bind subject mapping = .ok (target, binding)) :
      Becomes leaf ctx subject kind mapping (.existence binding leaf.operator target)
  | pattern {target text : String} {binding : Option Triple}
      (hoperator : leaf.operator = .like ∨ leaf.operator = .notLike)
      (hbind : leaf.bind subject mapping = .ok (target, binding))
      (hscalar : leaf.scalar = .ok text) :
      Becomes leaf ctx subject kind mapping
        (.pattern binding leaf.operator target (Literal.patternText text))
  | filter {target : String} {binding : Option Triple} {operand : Operand} {trace : Trace}
      (hoperator : leaf.operator.isComparison = true)
      (hbind : leaf.bind subject mapping = .ok (target, binding))
      (hoperand : (leaf.operand kind ctx trace).1 = .ok operand) :
      Becomes leaf ctx subject kind mapping (.filter binding leaf.operator target operand)

/-- The clause of a leaf is one of five forms, by its operator. -/
theorem Leaf.becomes_of_clause {leaf : Leaf} {ctx : Context} {subject : String}
    {kind : FieldKind} {mapping : FieldMapping} {clause : Clause} {trace later : Trace}
    (h : leaf.clause ctx subject kind mapping trace = (.ok clause, later)) :
    leaf.Becomes ctx subject kind mapping clause := by
  unfold Leaf.clause at h
  cases hoperator : leaf.operator with
  | equal =>
      simp only [hoperator] at h
      cases hpredicate : mapping.predicate? with
      | none =>
          rw [hpredicate] at h
          cases h
      | some predicate =>
          rw [hpredicate] at h
          obtain ⟨text, mid, hscalar, h⟩ := Pass.bind_eq_ok.1 h
          obtain ⟨object, mid', hobject, h⟩ := Pass.bind_eq_ok.1 h
          cases h
          exact .triple hoperator hpredicate (congrArg Prod.fst hscalar)
            (congrArg Prod.fst hobject)
  | isIn =>
      simp only [hoperator] at h
      obtain ⟨⟨target, binding⟩, mid, hbind, h⟩ := Pass.bind_eq_ok.1 h
      obtain ⟨members, mid', hmembers, h⟩ := Pass.bind_eq_ok.1 h
      cases h
      exact .values hoperator (congrArg Prod.fst hbind) (congrArg Prod.fst hmembers)
  | present | absent =>
      simp only [hoperator] at h
      obtain ⟨⟨target, binding⟩, mid, hbind, h⟩ := Pass.bind_eq_ok.1 h
      cases h
      rw [← hoperator]
      exact .existence (by simp [hoperator]) (congrArg Prod.fst hbind)
  | like | notLike =>
      simp only [hoperator] at h
      obtain ⟨⟨target, binding⟩, mid, hbind, h⟩ := Pass.bind_eq_ok.1 h
      obtain ⟨text, mid', hscalar, h⟩ := Pass.bind_eq_ok.1 h
      cases h
      rw [← hoperator]
      exact .pattern (by simp [hoperator]) (congrArg Prod.fst hbind) (congrArg Prod.fst hscalar)
  | notIn | notEqual | less | greater | lessOrEqual | greaterOrEqual =>
      simp only [hoperator] at h
      obtain ⟨⟨target, binding⟩, mid, hbind, h⟩ := Pass.bind_eq_ok.1 h
      obtain ⟨operand, mid', hoperand, h⟩ := Pass.bind_eq_ok.1 h
      cases h
      rw [← hoperator]
      exact .filter (by rw [hoperator]; rfl) (congrArg Prod.fst hbind)
        (congrArg Prod.fst hoperand)

/-! ## Drafts -/

namespace Draft

/-- The draft that remembers the mapping of a field and lists its candidates, unless the field
is known. -/
def note (draft : Draft) (field : String) (mapping : FieldMapping) : Draft :=
  match draft.mappings.get? field with
  | some _ => draft
  | none =>
    { draft with
      mappings := draft.mappings.push field mapping
      candidates := draft.candidates ++ mapping.candidateClauses }

/-- The mapping that a field has for a draft: the one it remembers, or else one found in the
context. -/
def Maps (draft : Draft) (ctx : Context) (kind : FieldKind) (field : String)
    (mapping : FieldMapping) : Prop :=
  draft.mappings.get? field = some mapping ∨
    draft.mappings.get? field = none ∧ ∃ trace, (ctx.findMapping kind field trace).1 = .ok mapping

@[simp] theorem note_values (draft : Draft) (field : String) (mapping : FieldMapping) :
    (draft.note field mapping).values = draft.values := by
  unfold note
  split <;> rfl

@[simp] theorem note_conditions (draft : Draft) (field : String) (mapping : FieldMapping) :
    (draft.note field mapping).conditions = draft.conditions := by
  unfold note
  split <;> rfl

/-- A mapping that is known already is not noted again. -/
theorem note_of_get? {draft : Draft} {field : String} {known : FieldMapping}
    (h : draft.mappings.get? field = some known) (mapping : FieldMapping) :
    draft.note field mapping = draft := by
  rw [note, h]

/-- One that is new is remembered, and its candidates are listed if it has several. -/
theorem note_of_new {draft : Draft} {field : String} (h : draft.mappings.get? field = none)
    (mapping : FieldMapping) :
    draft.note field mapping =
      { draft with
        mappings := draft.mappings.push field mapping
        candidates := draft.candidates ++ mapping.candidateClauses } := by
  rw [note, h]

/-- Fetching the mapping of a field notes it. -/
theorem fetch_ok {draft next : Draft} {ctx : Context} {kind : FieldKind} {field : String}
    {mapping : FieldMapping} {trace later : Trace}
    (h : draft.fetch ctx kind field trace = (.ok (mapping, next), later)) :
    draft.Maps ctx kind field mapping ∧ next = draft.note field mapping := by
  obtain ⟨found, mid, hfound, h⟩ := Pass.bind_eq_ok.1 h
  cases hknown : draft.mappings.get? field with
  | some known =>
      rw [Memo.fetch_of_get? hknown] at hfound
      cases hfound
      cases h
      refine ⟨.inl hknown, ?_⟩
      rw [note_of_get? hknown]
      simp
  | none =>
      rw [Memo.fetch, hknown] at hfound
      obtain ⟨new, mid', hnew, hfound⟩ := Pass.bind_eq_ok.1 hfound
      obtain ⟨_, mid'', _, hfound⟩ := Pass.bind_eq_ok.1 hfound
      cases hfound
      cases h
      refine ⟨.inr ⟨hknown, trace, congrArg Prod.fst hnew⟩, ?_⟩
      rw [note_of_new hknown]
      rfl

end Draft

/-! ## Leaves -/

/-- Compiling a leaf notes the mapping of its field and adds its clause. -/
theorem Leaf.compile_ok {leaf : Leaf} {ctx : Context} {keys : EntityKeys} {subject : String}
    {draft next : Draft} {trace later : Trace}
    (h : leaf.compile ctx keys subject draft trace = (.ok next, later)) :
    ∃ mapping clause, draft.Maps ctx (keys.kind leaf.field) leaf.field mapping ∧
      leaf.Becomes ctx subject (keys.kind leaf.field) mapping clause ∧
      next = (draft.note leaf.field mapping).add (keys.kind leaf.field) leaf.operator clause := by
  obtain ⟨⟨mapping, noted⟩, mid, hfetch, h⟩ := Pass.bind_eq_ok.1 h
  obtain ⟨clause, mid', hclause, h⟩ := Pass.bind_eq_ok.1 h
  obtain ⟨hmaps, hnoted⟩ := Draft.fetch_ok hfetch
  cases h
  subst hnoted
  exact ⟨mapping, clause, hmaps, Leaf.becomes_of_clause hclause, rfl⟩

end GraphCriteria
