import GraphCriteria.Proofs.Plans

/-!
# Errors that stored leaves rule out

Building stores a leaf only in a form that compiling can use, whatever it is asked for.  So most
errors that guard the compiling of a leaf never show, unless the host reports them itself; what is
left is a list where the operator of a field takes none.

Main results:

- Theorem `EntityKeys.Stores.storedUnder`: the form in which building stores leaves.
- Theorem `Leaf.reports_of_compile`: the errors of a stored leaf.
- Theorem `Group.reports_of_compile`: the errors of a tree of stored leaves.
- Theorem `Workspace.stored_of_reaches`: the form of all leaves that a run leads to, and the errors
  that compiling them can report.
-/

namespace GraphCriteria

/-! ## Stored leaves -/

/-- The id and the bundle are the keys whose conditions are written as sets of members. -/
theorem EntityKeys.isKey_kind_iff {keys : EntityKeys} {field : String} :
    (keys.kind field).isKey = true ↔ field = keys.id ∨ field = keys.bundle := by
  unfold kind
  by_cases hid : field = keys.id
  · rw [if_pos hid]
    simp [hid, FieldKind.isKey]
  · rw [if_neg hid]
    by_cases hbundle : field = keys.bundle
    · rw [if_pos hbundle]
      simp [hbundle, FieldKind.isKey]
    · rw [if_neg hbundle]
      split <;> simp [hid, hbundle, FieldKind.isKey]

/-- The form in which building stores a leaf: on the id and the bundle a set of members, and on
other fields what the operator takes. -/
structure Leaf.StoredUnder (leaf : Leaf) (keys : EntityKeys) : Prop where
  dotless : '.' ∉ leaf.field.toList
  key : leaf.field = keys.id ∨ leaf.field = keys.bundle →
    (leaf.operator = .isIn ∨ leaf.operator = .notIn) ∧
      (∃ first others, leaf.value = some (.list (first :: others))) ∧ leaf.language = none
  absent : leaf.field ≠ keys.id → leaf.field ≠ keys.bundle →
    (leaf.value = none ↔ leaf.operator = .present ∨ leaf.operator = .absent)
  member : leaf.operator = .isIn ∨ leaf.operator = .notIn → ∃ texts, leaf.value = some (.list texts)

namespace EntityKeys

variable {keys : EntityKeys} {asked : Leaf}

/-- A set of members on a key is not empty. -/
theorem stored_ne_nil (hkey : (keys.kind asked.field).isKey = true)
    (haccepted : keys.askingFaults asked = []) :
    ∃ first others, (keys.stored asked).value = some (.list (first :: others)) := by
  obtain ⟨value, hasked, hvalue, _, _⟩ := stored_of_isKey hkey haccepted
  unfold askingFaults at haccepted
  rw [if_pos hkey] at haccepted
  have hempty : value.isEmpty ≠ true := by
    intro hempty
    simp [hasked, hempty] at haccepted
  cases htexts : value.toList with
  | nil => exact absurd (Value.isEmpty_iff.2 htexts) hempty
  | cons first others => exact ⟨first, others, by rw [hvalue, htexts]⟩

/-- On other fields the operator tells whether a value is stored, and whether it is a list. -/
theorem stored_of_not_isKey (hkey : (keys.kind asked.field).isKey = false)
    (haccepted : keys.askingFaults asked = []) :
    ((keys.stored asked).value = none ↔
      (keys.stored asked).operator = .present ∨ (keys.stored asked).operator = .absent) ∧
    ((keys.stored asked).operator = .isIn ∨ (keys.stored asked).operator = .notIn →
      ∃ texts, (keys.stored asked).value = some (.list texts)) := by
  obtain ⟨field, value, operator, language⟩ := asked
  unfold askingFaults at haccepted
  unfold stored
  rw [if_neg (by simp [hkey])] at haccepted ⊢
  cases operator <;> cases value <;> simp_all [Operator.usesValue, Operator.rule]

/-- A leaf is stored under the field that it is asked for. -/
theorem field_leaf {leaf : Leaf} {field : String} {value : Option Value} {operator : Operator}
    {language : Option String} (h : keys.leaf field value operator language = .ok leaf) :
    leaf.field = field := by
  have heq := keys.leaf_eq ⟨field, value, operator, language⟩
  dsimp only at heq
  rw [h] at heq
  unfold firstFault at heq
  split at heq
  · cases heq
    rw [field_stored]
  · cases heq

/-- The field of a stored leaf is the part of a name before its first full stop. -/
theorem Stores.dotless {leaf : Leaf} (h : keys.Stores leaf) : '.' ∉ leaf.field.toList := by
  obtain ⟨name, value, operator, language, hleaf⟩ := h
  rw [field_leaf hleaf]
  exact dot_not_mem_baseField name

/-- Building stores leaves in this form. -/
theorem Stores.storedUnder {leaf : Leaf} (h : keys.Stores leaf) : leaf.StoredUnder keys := by
  have hdotless := h.dotless
  obtain ⟨asked, haccepted, rfl⟩ := h.exists_asked
  cases hkey : (keys.kind asked.field).isKey with
  | true =>
      obtain ⟨_, _, hvalue, hlanguage, hoperator⟩ := stored_of_isKey hkey haccepted
      have hfield := isKey_kind_iff.1 hkey
      refine ⟨hdotless, fun _ => ⟨hoperator, stored_ne_nil hkey haccepted, hlanguage⟩, ?_,
        fun _ => ⟨_, hvalue⟩⟩
      intro hid hbundle
      rw [field_stored] at hid hbundle
      exact absurd hfield (by simp [hid, hbundle])
  | false =>
      have hnot : ¬ ((keys.stored asked).field = keys.id ∨
          (keys.stored asked).field = keys.bundle) := by
        rw [field_stored, ← isKey_kind_iff, hkey]
        simp
      obtain ⟨habsent, hmember⟩ := stored_of_not_isKey hkey haccepted
      exact ⟨hdotless, fun h => absurd h hnot, fun _ _ => habsent, hmember⟩

end EntityKeys

/-! ## Errors of steps -/

/-- The errors that speak of a condition which does not fit its operator or its field, or of an
operation that comes too early or too late. -/
def ConditionError.isMisuse : ConditionError → Bool
  | missingRequiredValue .. | unsupportedOperatorForKey .. | unsupportedArrayValue .. | notCompiled
  | alreadyCompiled => true
  | _ => false

/-- The host never reports a misuse itself. -/
structure Context.Impartial (ctx : Context) : Prop where
  resolver : ∀ trace entityType field e, ctx.resolver trace entityType field = .error e →
    e.isMisuse = false
  escaper : ∀ trace field value language e, ctx.escaper trace field value language = .error e →
    e.isMisuse = false

/-- A host that looks fields up in a table and leaves values as they are reports no misuse. -/
theorem Context.impartial_of_table (entityType : String) (table : MappingTable)
    (options : CompileOptions) :
    Context.Impartial ⟨entityType, table.resolver, rawEscaper, options⟩ where
  resolver trace entityType field e h := by
    have h' : table.resolve entityType field = .error e := h
    unfold MappingTable.resolve at h'
    dsimp only at h'
    split at h'
    · cases h'
      rfl
    · cases h'
  escaper trace field value language e h := by cases h

/-- A name that is refused has not been misused. -/
theorem Variable.isMisuse_of_ofName {name : String} {e : ConditionError}
    (h : ofName name = .error e) : e.isMisuse = false := by
  unfold ofName at h
  dsimp only at h
  split at h
  · cases h
  · cases h
    rfl

namespace Pass

variable {α β : Type} {P : ConditionError → Prop}

/-- All errors of a step have a property, whatever happened before. -/
def Raises (P : ConditionError → Prop) (pass : Pass α) : Prop :=
  ∀ trace e, (pass trace).1 = .error e → P e

theorem raises_ofExcept {outcome : Except ConditionError α} (h : ∀ e, outcome = .error e → P e) :
    (ofExcept outcome).Raises P :=
  fun _ e he => h e he

/-- A step that does nothing raises nothing. -/
theorem raises_pure (a : α) : (pure a : Pass α).Raises P :=
  raises_ofExcept fun e h => by cases h

theorem raises_fail {e : ConditionError} (h : P e) : (fail e : Pass α).Raises P :=
  raises_ofExcept fun e' he => by
    cases he
    exact h

/-- Steps in a row raise what each of them raises. -/
theorem Raises.bind {first : Pass α} {next : α → Pass β} (hfirst : first.Raises P)
    (hnext : ∀ a, (next a).Raises P) : (first >>= next).Raises P := by
  intro trace e h
  rcases fst_bind_eq_error.1 h with herror | ⟨a, mid, _, herror⟩
  · exact hfirst trace e herror
  · exact hnext a mid e herror

end Pass

/-! ## Errors of leaves -/

/-- A leaf holds a list, though its operator takes none on its field. -/
structure Leaf.RefusesList (leaf : Leaf) (keys : EntityKeys) : Prop where
  field : leaf.field ≠ keys.id ∧ leaf.field ≠ keys.bundle
  value : ∃ texts, leaf.value = some (.list texts)
  operator : leaf.operator ≠ .isIn ∧ leaf.operator ≠ .notIn

/-- The errors that compiling a leaf reports: no misuse but that of a list. -/
def Leaf.Reports (leaf : Leaf) (keys : EntityKeys) (e : ConditionError) : Prop :=
  e.isMisuse = false ∨
    e = .unsupportedArrayValue leaf.field leaf.operator ∧ leaf.RefusesList keys

namespace Leaf

variable {leaf : Leaf} {ctx : Context} {keys : EntityKeys} {subject : String}

/-- A stored leaf whose operator is about a value has one. -/
theorem StoredUnder.exists_value (h : leaf.StoredUnder keys)
    (hoperator : leaf.operator ≠ .present ∧ leaf.operator ≠ .absent) :
    ∃ value, leaf.value = some value := by
  by_cases hkey : leaf.field = keys.id ∨ leaf.field = keys.bundle
  · obtain ⟨_, ⟨first, others, hvalue⟩, _⟩ := h.key hkey
    exact ⟨_, hvalue⟩
  · rw [not_or] at hkey
    cases hvalue : leaf.value with
    | some value => exact ⟨value, rfl⟩
    | none =>
        rcases (h.absent hkey.1 hkey.2).1 hvalue with hpresent | habsent
        · exact absurd hpresent hoperator.1
        · exact absurd habsent hoperator.2

/-- A list on an operator other than those of membership stands on no key. -/
theorem StoredUnder.refusesList (h : leaf.StoredUnder keys) {texts : List String}
    (hvalue : leaf.value = some (.list texts))
    (hoperator : leaf.operator ≠ .isIn ∧ leaf.operator ≠ .notIn) : leaf.RefusesList keys := by
  have hkey : ¬ (leaf.field = keys.id ∨ leaf.field = keys.bundle) := by
    intro hkey
    rcases (h.key hkey).1 with hin | hnot
    · exact hoperator.1 hin
    · exact hoperator.2 hnot
  exact ⟨not_or.1 hkey, ⟨texts, hvalue⟩, hoperator⟩

/-- Of the errors of a text, a stored leaf reports a list at most. -/
theorem StoredUnder.scalar (h : leaf.StoredUnder keys)
    (hvalue : leaf.operator ≠ .present ∧ leaf.operator ≠ .absent)
    (hlist : leaf.operator ≠ .isIn ∧ leaf.operator ≠ .notIn) {e : ConditionError}
    (he : leaf.scalar = .error e) : leaf.Reports keys e := by
  obtain ⟨value, hsome⟩ := h.exists_value hvalue
  unfold Leaf.scalar at he
  rw [hsome] at he
  cases value with
  | single text => cases he
  | list texts =>
      cases he
      exact .inr ⟨rfl, h.refusesList hsome hlist⟩

theorem reports_bind {mapping : FieldMapping} {e : ConditionError}
    (he : leaf.bind subject mapping = .error e) : leaf.Reports keys e := by
  unfold bind at he
  split at he
  · cases he
  · cases hname : Variable.ofName leaf.field with
    | ok name =>
        rw [hname] at he
        cases he
    | error e' =>
        rw [hname] at he
        cases he
        exact .inl (Variable.isMisuse_of_ofName hname)

theorem raises_escape (hctx : ctx.Impartial) (value : String) :
    (ctx.escape leaf.field value leaf.language).Raises (leaf.Reports keys) :=
  fun trace e he => .inl (hctx.escaper trace leaf.field value leaf.language e he)

theorem raises_escapeAll (hctx : ctx.Impartial) (values : List String) :
    (ctx.escapeAll leaf.field leaf.language values).Raises (leaf.Reports keys) := by
  induction values with
  | nil => exact Pass.raises_pure _
  | cons value values ih =>
      exact (raises_escape hctx value).bind fun _ => ih.bind fun _ => Pass.raises_pure _

theorem StoredUnder.raises_members (h : leaf.StoredUnder keys) (hctx : ctx.Impartial)
    (hvalue : leaf.operator ≠ .present ∧ leaf.operator ≠ .absent) :
    (leaf.members ctx).Raises (leaf.Reports keys) := by
  obtain ⟨value, hsome⟩ := h.exists_value hvalue
  unfold Leaf.members
  rw [hsome]
  exact raises_escapeAll hctx value.toList

/-- Of all comparisons only exclusion takes a list. -/
theorem StoredUnder.raises_operand (h : leaf.StoredUnder keys) (hctx : ctx.Impartial)
    (hoperator : leaf.operator.isComparison = true) (kind : FieldKind) :
    (leaf.operand kind ctx).Raises (leaf.Reports keys) := by
  have hvalue : leaf.operator ≠ .present ∧ leaf.operator ≠ .absent := by
    constructor <;>
      · intro heq
        rw [heq] at hoperator
        cases hoperator
  obtain ⟨value, hsome⟩ := h.exists_value hvalue
  unfold Leaf.operand
  rw [hsome]
  cases value with
  | single text => exact Pass.raises_pure _
  | list texts =>
      dsimp only
      cases hrule : leaf.operator.rule.separator with
      | none =>
          refine Pass.raises_fail (.inr ⟨rfl, h.refusesList hsome ?_⟩)
          constructor <;>
            · intro heq
              rw [heq] at hrule
              cases hrule
      | some separator =>
          dsimp only
          split
          · exact (h.raises_members hctx hvalue).bind fun _ => Pass.raises_pure _
          · exact Pass.raises_pure _

/-- The clause of a stored leaf whose field has a mapping. -/
theorem StoredUnder.raises_clause (h : leaf.StoredUnder keys) (hctx : ctx.Impartial)
    {kind : FieldKind} {mapping : FieldMapping}
    (hmapping : mapping.predicate? = none → leaf.field = keys.id) :
    (leaf.clause ctx subject kind mapping).Raises (leaf.Reports keys) := by
  have hbind : (Pass.ofExcept (leaf.bind subject mapping)).Raises (leaf.Reports keys) :=
    Pass.raises_ofExcept fun e he => reports_bind he
  unfold Leaf.clause
  cases hoperator : leaf.operator with
  | equal =>
      dsimp only
      cases hpredicate : mapping.predicate? with
      | none =>
          -- The id is compared with sets of members only.
          have hkey := (h.key (.inl (hmapping hpredicate))).1
          simp [hoperator] at hkey
      | some predicate =>
          have hscalar : (Pass.ofExcept leaf.scalar).Raises (leaf.Reports keys) :=
            Pass.raises_ofExcept fun e he =>
              h.scalar (by simp [hoperator]) (by simp [hoperator]) he
          exact hscalar.bind fun text => (raises_escape hctx text).bind fun _ =>
            Pass.raises_pure _
  | isIn =>
      exact hbind.bind fun _ => (h.raises_members hctx (by simp [hoperator])).bind fun _ =>
        Pass.raises_pure _
  | present | absent => exact hbind.bind fun _ => Pass.raises_pure _
  | like | notLike =>
      have hscalar : (Pass.ofExcept leaf.scalar).Raises (leaf.Reports keys) :=
        Pass.raises_ofExcept fun e he => h.scalar (by simp [hoperator]) (by simp [hoperator]) he
      exact hbind.bind fun _ => hscalar.bind fun _ => Pass.raises_pure _
  | notIn | notEqual | less | greater | lessOrEqual | greaterOrEqual =>
      have hcomparison : leaf.operator.isComparison = true := by rw [hoperator]; rfl
      exact hbind.bind fun _ => (h.raises_operand hctx hcomparison kind).bind fun _ =>
        Pass.raises_pure _

/-- Finding a mapping reports no misuse. -/
theorem raises_findMapping (hctx : ctx.Impartial) (kind : FieldKind) :
    (ctx.findMapping kind leaf.field).Raises (leaf.Reports keys) := by
  have hresolve : (ctx.resolve leaf.field).Raises (leaf.Reports keys) :=
    fun trace e he => .inl (hctx.resolver trace ctx.entityType leaf.field e he)
  cases kind with
  | id => exact Pass.raises_pure _
  | bundle => exact Pass.raises_pure _
  | label | other =>
      refine hresolve.bind fun found => ?_
      split
      · exact Pass.raises_fail (.inl rfl)
      · exact Pass.raises_pure _
      · have hname : (Pass.ofExcept (Variable.ofName (leaf.field ++ "_predicate"))).Raises
            (leaf.Reports keys) :=
          Pass.raises_ofExcept fun e he => .inl (Variable.isMisuse_of_ofName he)
        exact hname.bind fun _ => Pass.raises_pure _

theorem raises_fetch (hctx : ctx.Impartial) (draft : Draft) (kind : FieldKind) :
    (draft.fetch ctx kind leaf.field).Raises (leaf.Reports keys) := by
  refine Pass.Raises.bind ?_ fun _ => Pass.raises_pure _
  unfold Memo.fetch
  split
  · exact Pass.raises_pure _
  · refine (raises_findMapping hctx kind).bind fun mapping => ?_
    refine Pass.Raises.bind (fun trace e he => ?_) fun _ => Pass.raises_pure _
    cases he

/-- The errors of compiling a stored leaf. -/
theorem reports_of_compile {draft : Draft} {done : List Leaf} {trace : Trace} {e : ConditionError}
    (hctx : ctx.Impartial) (hdraft : draft.Sound ctx keys subject done)
    (hleaf : leaf.StoredUnder keys)
    (h : (leaf.compile ctx keys subject draft trace).1 = .error e) : leaf.Reports keys e := by
  rcases Pass.fst_bind_eq_error.1 h with hfetch | ⟨⟨mapping, noted⟩, mid, hfetch, h⟩
  · exact raises_fetch hctx draft _ trace e hfetch
  · obtain ⟨start, hfound⟩ := hdraft.found_of_maps (Draft.fetch_ok hfetch).1
    have hmapping : mapping.predicate? = none → leaf.field = keys.id := by
      intro hnone
      have hid := (Context.predicate?_eq_none_iff hfound).1 hnone
      unfold EntityKeys.kind at hid
      split at hid
      · assumption
      · split at hid
        · cases hid
        · split at hid <;> cases hid
    rcases Pass.fst_bind_eq_error.1 h with hclause | ⟨clause, mid', _, h⟩
    · exact hleaf.raises_clause hctx hmapping mid e hclause
    · cases h

end Leaf

/-! ## Errors of trees -/

/-- An entry can fail with an error, given some past. -/
def Entry.MayFail (entry : Entry) (ctx : Context) (keys : EntityKeys) (subject : String)
    (e : ConditionError) : Prop :=
  match entry with
  | .leaf own => ∃ (draft : Draft) (done : List Leaf) (trace : Trace),
      draft.Sound ctx keys subject done ∧ (own.compile ctx keys subject draft trace).1 = .error e
  | .nested inner => ∃ trace, (inner.compile ctx trace).result = .error e

/-- A walk that fails does so at one of its entries. -/
theorem Entry.exists_mayFail {ctx : Context} {keys : EntityKeys} {subject : String}
    {entries : List Entry} {index : Nat} {draft : Draft} {trace : Trace} {done : List Leaf}
    {e : ConditionError} (hdraft : draft.Sound ctx keys subject done)
    (h : (compileAll ctx keys subject entries index draft trace).result = .error e) :
    ∃ entry ∈ entries, entry.MayFail ctx keys subject e := by
  induction entries generalizing index draft trace done with
  | nil =>
      rw [compileAll] at h
      cases h
  | cons entry rest ih =>
      simp only [List.mem_cons, exists_eq_or_imp]
      cases entry with
      | leaf own =>
          rw [compileAll] at h
          cases hown : own.compile ctx keys subject draft trace with
          | mk result mid =>
              rw [hown] at h
              cases result with
              | error e' =>
                  cases h
                  exact .inl ⟨draft, done, trace, hdraft, by rw [hown]⟩
              | ok next => exact .inr (ih (hdraft.compileLeaf hown) h)
      | nested inner =>
          rw [compileAll] at h
          dsimp only at h
          cases hinner : (inner.compile ctx trace).result with
          | error e' =>
              rw [hinner] at h
              cases h
              exact .inl ⟨trace, hinner⟩
          | ok _ =>
              rw [hinner] at h
              exact .inr (ih (hdraft.addNested index) h)

namespace Group

/-- All own leaves of a group have the form in which building stores them. -/
def KeepsForm (group : Group) : Prop :=
  ∀ leaf, .leaf leaf ∈ group.entries → leaf.StoredUnder group.keys

/-- The errors that compiling a tree reports: no misuse but that of a list in some leaf. -/
def Reports (group : Group) (e : ConditionError) : Prop :=
  e.isMisuse = false ∨
    ∃ (deep : Group) (leaf : Leaf), deep.Within group ∧ .leaf leaf ∈ deep.entries ∧
      e = .unsupportedArrayValue leaf.field leaf.operator ∧ leaf.RefusesList deep.keys

/-- What is reported in a nested group is reported in the group around it. -/
theorem Reports.nested {group inner : Group} {e : ConditionError} (h : inner.Reports e)
    (hinner : .nested inner ∈ group.entries) : group.Reports e :=
  h.imp id fun ⟨deep, leaf, hdeep, hleaf⟩ => ⟨deep, leaf, .nested hinner hdeep, hleaf⟩

/-- The errors of compiling a tree of stored leaves. -/
theorem reports_of_compile {group : Group} {ctx : Context} {trace : Trace} {e : ConditionError}
    (hctx : ctx.Impartial) (hform : group.Everywhere KeepsForm)
    (h : (group.compile ctx trace).result = .error e) : group.Reports e := by
  induction group using nestedInduction generalizing trace with
  | step group ih =>
      have hways := group.compiles ctx trace
      generalize group.compile ctx trace = outcome at h hways
      cases hways with
      | skipped | finished => cases h
      | unnamed _ hsubject =>
          cases h
          exact .inl (Variable.isMisuse_of_ofName hsubject)
      | @stopped subject _ _ _ hwalk =>
          cases h
          obtain ⟨entry, hentry, hfails⟩ :=
            Entry.exists_mayFail (Draft.sound_empty ctx group.keys subject) hwalk
          cases entry with
          | leaf own =>
              obtain ⟨draft, done, mid, hdraft, hown⟩ := hfails
              refine (Leaf.reports_of_compile hctx hdraft (hform.self own hentry) hown).imp id ?_
              exact fun hlist => ⟨group, own, .self group, hentry, hlist⟩
          | nested inner =>
              obtain ⟨mid, hinner⟩ := hfails
              exact (ih inner hentry (hform.nested hentry) hinner).nested hentry
      | unbound _ _ _ hbundle =>
          cases h
          unfold defaultBundle at hbundle
          split at hbundle
          · rename_i hneeds
            cases hname : Variable.ofName group.keys.bundle with
            | ok target =>
                rw [hname] at hbundle
                cases hbundle
            | error e' =>
                rw [hname] at hbundle
                cases hbundle
                exact .inl (Variable.isMisuse_of_ofName hname)
          · cases hbundle

end Group

/-! ## Reachable groups -/

/-- A group without own leaves holds nested groups only. -/
theorem Group.exists_nested_of_ownLeaves {group : Group} (h : group.ownLeaves = []) :
    ∀ entry ∈ group.entries, ∃ inner, entry = .nested inner := by
  intro entry hentry
  cases entry with
  | nested inner => exact ⟨inner, rfl⟩
  | leaf own =>
      have hmem : own ∈ group.ownLeaves := List.mem_filterMap.2 ⟨_, hentry, rfl⟩
      rw [h] at hmem
      cases hmem

/-- The plan of a group without own leaves knows no mapping. -/
theorem Group.fieldMapping?_of_ownLeaves {used : Context → Prop} {group : Group}
    (hplanned : group.Planned used) (h : group.ownLeaves = []) (field : String) :
    group.fieldMapping? field = none := by
  unfold fieldMapping?
  cases hplan : group.plan? with
  | none => rfl
  | some plan =>
      obtain ⟨ctx, _, hmade⟩ := hplanned plan hplan
      have hfields : plan.mappings.fields = [] := by rw [hmade.fields, h]; rfl
      exact Memo.get?_eq_none_iff.2 (by rw [hfields]; exact List.not_mem_nil)

/-- In every group that a run leads to and at every depth: a union holds nested groups only and
knows no mapping, and every own leaf has the form in which building stores leaves.  So where the
host reports no misuse itself, compiling the group reports none either, but for a list in some leaf
whose operator takes none on its field. -/
theorem Workspace.stored_of_reaches {steps : List WorkspaceStep} {group inner : Group}
    (hreach : Reaches steps group) (hinner : inner.Within group) :
    (inner.conjunction = .or → (∀ entry ∈ inner.entries, ∃ deep, entry = .nested deep) ∧
      ∀ field, inner.fieldMapping? field = none) ∧
    (∀ leaf, .leaf leaf ∈ inner.entries → leaf.StoredUnder inner.keys) ∧
    ∀ ctx : Context, ctx.Impartial → ∀ trace e, (inner.compile ctx trace).result = .error e →
      (∀ field operator, e ≠ .missingRequiredValue field operator) ∧
      (∀ field operator, e ≠ .unsupportedOperatorForKey field operator) ∧
      e ≠ .notCompiled ∧ e ≠ .alreadyCompiled ∧
      ∀ field operator, e = .unsupportedArrayValue field operator →
        ∃ (deep : Group) (leaf : Leaf), deep.Within inner ∧ .leaf leaf ∈ deep.entries ∧
          leaf.field = field ∧ leaf.operator = operator ∧ leaf.RefusesList deep.keys := by
  have hstored := (Group.wellStored_invariant (Uses steps)).everywhere hreach
  have hplanned := (Group.planned_invariant (Uses steps)).everywhere hreach
  have hform : group.Everywhere Group.KeepsForm := hstored.mono fun deep hdeep leaf hleaf =>
    (hdeep.stored leaf (List.mem_filterMap.2 ⟨_, hleaf, rfl⟩)).storedUnder
  refine ⟨fun hor => ?_, hform inner hinner, fun ctx hctx trace e h => ?_⟩
  · have hnone := (hstored inner hinner).union hor
    exact ⟨Group.exists_nested_of_ownLeaves hnone,
      Group.fieldMapping?_of_ownLeaves (hplanned inner hinner) hnone⟩
  · have hreports : inner.Reports e :=
      Group.reports_of_compile hctx (fun deep hdeep => hform deep (hdeep.trans hinner)) h
    rcases hreports with hother | ⟨deep, leaf, hdeep, hleaf, rfl, hlist⟩
    · cases e <;> simp_all [ConditionError.isMisuse]
    · refine ⟨by simp, by simp, by simp, by simp, fun field operator heq => ?_⟩
      cases heq
      exact ⟨deep, leaf, hdeep, hleaf, rfl, rfl, hlist⟩

/-- Build nodes that are before several tags, in a union. -/
def Sample.severalTags : List WorkspaceStep :=
  [.make "some" .or keys, .add "some" "tag.value" (some (.list ["'a'", "'b'"])) "<" none,
    .add "some" "nid" (some (.single "1")) "!=" (some "en")]

/-- The union that is built. -/
def Sample.severalTagsUnion : Group :=
  ((Workspace.run {} severalTags).get? "some").getD default

/-- Compiling that union reports the list in its first branch.  The condition on the id has become a
set of members. -/
theorem Workspace.stored_of_severalTags :
    Reaches Sample.severalTags Sample.severalTagsUnion ∧ Sample.context.Impartial ∧
      Sample.severalTagsUnion.Within Sample.severalTagsUnion ∧
      (∀ field, Sample.severalTagsUnion.fieldMapping? field = none) ∧
      (Sample.severalTagsUnion.at? [1]).map Group.ownLeaves =
        some [⟨"nid", some (.list ["1"]), .notIn, none⟩] ∧
      (Sample.severalTagsUnion.compile Sample.context []).result =
        .error (.unsupportedArrayValue "tag" .less) ∧
      ∃ (deep : Group) (leaf : Leaf), deep.Within Sample.severalTagsUnion ∧
        .leaf leaf ∈ deep.entries ∧ leaf.field = "tag" ∧ leaf.operator = .less ∧
        leaf.RefusesList deep.keys := by
  have hreach : Reaches Sample.severalTags Sample.severalTagsUnion := ⟨"some", rfl⟩
  have hctx : Sample.context.Impartial := Context.impartial_of_table "node" Sample.table {}
  have hfails : (Sample.severalTagsUnion.compile Sample.context []).result =
      .error (.unsupportedArrayValue "tag" .less) := rfl
  obtain ⟨hunion, _, hcompile⟩ := stored_of_reaches hreach (.self _)
  obtain ⟨_, _, _, _, hlist⟩ := hcompile Sample.context hctx [] _ hfails
  exact ⟨hreach, hctx, .self _, (hunion rfl).2, rfl, hfails, hlist _ _ rfl⟩

end GraphCriteria
