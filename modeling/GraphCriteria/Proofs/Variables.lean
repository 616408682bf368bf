import GraphCriteria.Proofs.Phases
import GraphCriteria.Proofs.Plans

/-!
# What the variables of a plan stand for

A plan speaks of the entity, of the values of fields, and of the predicates of fields that have
several.  Each of them has a variable that is named after it: no fresh names are made.  So two of
them share a variable exactly when their names say so, and this file says which names do.

Main definitions:

- Definition `Group.roles`: the roles of a group, from its conditions and what has been found for
  their fields.
- Structure `Plan.Named`: what the variables at each place of a plan stand for.

Main results:

- Theorem `Role.written_eq_iff`: two roles share a variable exactly when their names clash.
- Theorem `Draft.Made.speaksOf`: the clause of a condition speaks of its own field.
- Theorem `Draft.Made.candidates_eq`: the predicates of a field are listed if it has several.
- Theorem `Group.PlannedIn.named`: every variable of a plan is that of a role which its group has.
- Theorem `Group.variables_of_compile`: so the variables that compiling a group makes are distinct,
  apart from such clashes.
- Theorem `Workspace.named_of_reaches`: the plans of all groups that a run leads to are so named.
-/

namespace GraphCriteria

/-! ## Roles of variables -/

/-- What a variable stands for: the entity, the value of a field, or the predicate of a field
that has several. -/
inductive Role where
  | entity
  | value (field : String)
  | predicate (field : String)
deriving DecidableEq, Repr

namespace Role

/-- The name after which the variable of a role is made, where the entity goes by some name. -/
def name (subject : String) : Role → String
  | entity => subject
  | value field => field
  | predicate field => field ++ "_predicate"

/-- The variable of a role. -/
def written (role : Role) (subject : String) : String :=
  Variable.written (role.name subject)

/-- Different roles whose names make the same variable.  Leading question marks do not count. -/
def Clashes (subject : String) : Role → Role → Prop
  | entity, entity => False
  | entity, value field | value field, entity =>
    Variable.bareName subject = Variable.bareName field
  | entity, predicate field | predicate field, entity =>
    Variable.bareName subject = Variable.bareName field ++ "_predicate"
  | value field, value other | predicate field, predicate other =>
    field ≠ other ∧ Variable.bareName field = Variable.bareName other
  | value field, predicate other | predicate other, value field =>
    Variable.bareName field = Variable.bareName other ++ "_predicate"

end Role

namespace Variable

/-- What follows a name is not taken for leading question marks. -/
theorem bareName_predicate (field : String) :
    bareName (field ++ "_predicate") = bareName field ++ "_predicate" := by
  have hsuffix : "_predicate".toList.dropWhile (· == '?') = "_predicate".toList := by decide
  apply String.toList_injective
  simp only [bareName, String.toList_append, String.toList_ofList, List.dropWhile_append]
  by_cases hempty : (field.toList.dropWhile (· == '?')).isEmpty
  · rw [if_pos hempty, hsuffix, List.isEmpty_iff.1 hempty, List.nil_append]
  · rw [if_neg hempty]

theorem written_eq_iff {name other : String} :
    written name = written other ↔ bareName name = bareName other := by
  simp [written]

end Variable

/-- Two roles share a variable exactly when they are the same or their names clash. -/
theorem Role.written_eq_iff {a b : Role} {subject : String} :
    a.written subject = b.written subject ↔ a = b ∨ a.Clashes subject b := by
  rw [written, written, Variable.written_eq_iff]
  cases a with
  | entity =>
      cases b <;> simp [name, Clashes, Variable.bareName_predicate]
  | value field =>
      cases b with
      | entity => simp [name, Clashes, eq_comm]
      | value other =>
          by_cases hsame : field = other <;> simp [name, Clashes, hsame]
      | predicate other => simp [name, Clashes, Variable.bareName_predicate]
  | predicate field =>
      cases b with
      | entity => simp [name, Clashes, Variable.bareName_predicate, eq_comm]
      | value other => simp [name, Clashes, Variable.bareName_predicate, eq_comm]
      | predicate other =>
          by_cases hsame : field = other <;>
            simp [name, Clashes, Variable.bareName_predicate, hsame]

/-! ## Roles of a group -/

/-- The role of what a leaf restricts. -/
def Leaf.role (leaf : Leaf) (keys : EntityKeys) : Role :=
  if keys.kind leaf.field = .id then .entity else .value leaf.field

/-- A leaf that does not restrict the entity restricts the value of its field. -/
theorem Leaf.role_eq_value {leaf : Leaf} {keys : EntityKeys} (h : leaf.role keys ≠ .entity) :
    leaf.role keys = .value leaf.field := by
  unfold role at h ⊢
  split
  · rename_i hid
    exact absurd (if_pos hid) h
  · rfl

namespace Group

/-- The fields whose values have a variable: the bundle where the group is linked to it, and the
fields of conditions other than equations, apart from the id. -/
def boundFields (group : Group) : List String :=
  ((if group.needsDefaultBundle then [group.keys.bundle] else []) ++
    (group.ownLeaves.filter fun leaf =>
      leaf.operator ≠ .equal && group.keys.kind leaf.field ≠ .id).map Leaf.field).eraseDups

/-- The fields of conditions, apart from the keys, for which several predicates have been found. -/
def severalFields (group : Group) (found : String → List String) : List String :=
  (group.ownLeaves.map Leaf.field).eraseDups.filter fun field =>
    !(group.keys.kind field).isKey && 2 ≤ (found field).length

/-- The roles that have a variable in a group, where some predicates have been found for each
field: the entity, the values of fields, and the predicates of fields that have several. -/
def roles (group : Group) (found : String → List String) : List Role :=
  .entity :: (group.boundFields.map .value ++ (group.severalFields found).map .predicate)

/-- What stands for the predicate of a field: a variable if the field has several, and else that of
the context for the bundle, and the only one for any other field. -/
def predicateOf (group : Group) (ctx : Context) (found : String → List String) (field : String) :
    String :=
  if .predicate field ∈ group.roles found then
    (Role.predicate field).written ctx.options.subjectVariable
  else if group.keys.kind field = .bundle then ctx.options.typePredicate
  else (found field).headD ""

/-- What the host has found for the fields of a group that are no keys: it has given the predicates
of each of them when it was asked, and one at least.  A functional host finds nothing else. -/
structure Finds (group : Group) (ctx : Context) (found : String → List String) : Prop where
  given : ∀ leaf ∈ group.ownLeaves, (group.keys.kind leaf.field).isKey = false →
    found leaf.field ≠ [] ∧ ∃ trace answer,
      ctx.resolver trace ctx.entityType leaf.field = .ok answer ∧ answer.toList = found leaf.field
  settled : ctx.Functional → ∀ leaf ∈ group.ownLeaves, (group.keys.kind leaf.field).isKey = false →
    found leaf.field = ctx.candidates leaf.field

end Group

/-- A clause speaks of a leaf.  It restricts the variable of the role of the leaf, unless the leaf
is an equation.  It has one triple, unless this role is the entity.  The triple leads from the
entity, by what stands for the predicate of the field, to that variable, or else to the value of the
equation. -/
structure Clause.SpeaksOf (clause : Clause) (leaf : Leaf) (group : Group) (ctx : Context)
    (found : String → List String) : Prop where
  target : clause.target? = if leaf.operator = .equal then none else
    some ((leaf.role group.keys).written ctx.options.subjectVariable)
  entity : leaf.role group.keys = .entity → leaf.operator ≠ .equal ∧ clause.triples = []
  value : leaf.role group.keys ≠ .entity → ∃ object,
    clause.triples = [⟨Role.entity.written ctx.options.subjectVariable,
      group.predicateOf ctx found leaf.field, object⟩] ∧
    (leaf.operator ≠ .equal →
      object = (leaf.role group.keys).written ctx.options.subjectVariable)

/-- The triples of a plan that give a variable its values. -/
def Plan.bindings (plan : Plan) : List Triple :=
  plan.defaultBundle.toList ++ plan.clauses.filterMap Clause.binding?

/-- Every variable of a plan is that of a role which its group has, every such role has its
variable, and two of them share one only if their names clash. -/
structure Plan.Named (plan : Plan) (group : Group) (ctx : Context)
    (found : String → List String) : Prop where
  /-- All triples speak of the entity. -/
  subject : ∀ t ∈ plan.triples, t.subject = Role.entity.written ctx.options.subjectVariable
  /-- The entity is linked to its bundle where the group asks for it. -/
  linked : plan.defaultBundle = if group.needsDefaultBundle then
      some ⟨Role.entity.written ctx.options.subjectVariable, ctx.options.typePredicate,
        (Role.value group.keys.bundle).written ctx.options.subjectVariable⟩
    else none
  /-- What triples bind are the values of fields. -/
  bound : ∀ target, (∃ t ∈ plan.bindings, t.object = target) ↔ ∃ field,
    .value field ∈ group.roles found ∧
      target = (Role.value field).written ctx.options.subjectVariable
  /-- The predicates of each field that has several are listed once, for the variable of this role.
  Every other clause speaks of an own leaf or is the place of a nested group, and every own leaf has
  a clause that speaks of it. -/
  clauses : ∃ sets,
    plan.values = sets ++ (group.severalFields found).map (fun field =>
      .values none ⟨(Role.predicate field).written ctx.options.subjectVariable, found field⟩) ∧
    (∀ clause ∈ sets ++ plan.conditions, (∃ place, clause = .nested place) ∨
      ∃ leaf ∈ group.ownLeaves, clause.SpeaksOf leaf group ctx found) ∧
    ∀ leaf ∈ group.ownLeaves, ∃ clause ∈ sets ++ plan.conditions,
      clause.SpeaksOf leaf group ctx found
  /-- The roles are different, and two of them share a variable exactly when their names clash. -/
  distinct : (group.roles found).Pairwise fun a b => a ≠ b ∧
    (a.written ctx.options.subjectVariable = b.written ctx.options.subjectVariable ↔
      a.Clashes ctx.options.subjectVariable b)

namespace Group

variable {group : Group} {found : String → List String} {field : String}

/-- The bundle is bound where the group is linked to it, and any field but the id by a condition
other than an equation. -/
theorem mem_boundFields_iff : field ∈ group.boundFields ↔
    (group.needsDefaultBundle = true ∧ field = group.keys.bundle) ∨
      ∃ leaf ∈ group.ownLeaves, leaf.operator ≠ .equal ∧ leaf.role group.keys = .value field := by
  have hrole : ∀ leaf : Leaf, leaf.role group.keys = .value field ↔
      group.keys.kind leaf.field ≠ .id ∧ leaf.field = field := by
    intro leaf
    by_cases hid : group.keys.kind leaf.field = .id <;> simp [Leaf.role, hid]
  rw [boundFields, List.mem_eraseDups, List.mem_append]
  refine or_congr ?_ ?_
  · by_cases hneeds : group.needsDefaultBundle = true <;> simp [hneeds]
  · simp only [List.mem_map, List.mem_filter, Bool.and_eq_true, decide_eq_true_eq, hrole, and_assoc]

/-- A field has several predicates if it is no key, is restricted by the group, and two at least
have been found for it. -/
theorem mem_severalFields_iff : field ∈ group.severalFields found ↔
    (∃ leaf ∈ group.ownLeaves, leaf.field = field) ∧
      (group.keys.kind field).isKey = false ∧ 2 ≤ (found field).length := by
  simp [severalFields]

theorem value_mem_roles_iff : .value field ∈ group.roles found ↔ field ∈ group.boundFields := by
  simp [roles]

theorem predicate_mem_roles_iff :
    .predicate field ∈ group.roles found ↔ field ∈ group.severalFields found := by
  simp [roles]

/-- No role is listed twice. -/
theorem nodup_roles (group : Group) (found : String → List String) :
    (group.roles found).Nodup := by
  have hvalues : (group.boundFields.map Role.value).Nodup :=
    List.Pairwise.map _ (fun a b hne heq => hne (Role.value.inj heq)) (nodup_eraseDups _)
  have hpredicates : ((group.severalFields found).map Role.predicate).Nodup :=
    List.Pairwise.map _ (fun a b hne heq => hne (Role.predicate.inj heq))
      ((nodup_eraseDups _).filter _)
  rw [roles, List.nodup_cons, List.nodup_append]
  refine ⟨by simp, hvalues, hpredicates, fun a ha b hb => ?_⟩
  obtain ⟨value, _, rfl⟩ := List.mem_map.1 ha
  obtain ⟨other, _, rfl⟩ := List.mem_map.1 hb
  exact Role.noConfusion

end Group

/-! ## Mappings -/

namespace Context

variable {ctx : Context} {kind : FieldKind} {field : String} {trace : Trace}
  {mapping : FieldMapping}

/-- The predicates of a field that is no key are those that the host has given, one at least. -/
theorem given_of_findMapping (h : (ctx.findMapping kind field trace).1 = .ok mapping)
    (hkey : kind.isKey = false) : mapping.predicates ≠ [] ∧ ∃ answer,
      ctx.resolver trace ctx.entityType field = .ok answer ∧
        answer.toList = mapping.predicates := by
  rcases findMapping_ok h with ⟨rfl, _⟩ | ⟨rfl, _⟩ |
    ⟨_, answer, hanswer, ⟨predicate, hsingle, rfl⟩ | ⟨hlength, name, _, rfl⟩⟩
  · cases hkey
  · cases hkey
  · exact ⟨List.cons_ne_nil _ _, answer, hanswer, hsingle⟩
  · refine ⟨fun hnone => ?_, answer, hanswer, rfl⟩
    have hempty : answer.toList = [] := hnone
    rw [hempty] at hlength
    exact absurd hlength (by decide)

/-- A field with several predicates goes by a variable, and any other by its only one.  The id has
no predicate. -/
theorem predicate?_findMapping (h : (ctx.findMapping kind field trace).1 = .ok mapping) :
    mapping.predicate? = if kind = .id then none else some
      (if kind.isKey = false ∧ 2 ≤ mapping.predicates.length then
        Variable.written (field ++ "_predicate")
      else if kind = .bundle then ctx.options.typePredicate
      else mapping.predicates.headD "") := by
  rcases findMapping_ok h with ⟨rfl, rfl⟩ | ⟨rfl, rfl⟩ |
    ⟨hkey, answer, _, ⟨predicate, _, rfl⟩ | ⟨hlength, name, hname, rfl⟩⟩
  · rfl
  · rfl
  · cases kind with
    | id | bundle => cases hkey
    | label | other => rfl
  · have hid : kind ≠ .id := by
      rintro rfl
      cases hkey
    rw [if_neg hid, if_pos ⟨hkey, hlength⟩, Variable.eq_written hname]
    rfl

/-- The predicates of a field are listed if it has several. -/
theorem candidateClauses_findMapping (h : (ctx.findMapping kind field trace).1 = .ok mapping) :
    mapping.candidateClauses = if kind.isKey = false ∧ 2 ≤ mapping.predicates.length then
      [.values none ⟨Variable.written (field ++ "_predicate"), mapping.predicates⟩] else [] := by
  rcases findMapping_ok h with ⟨rfl, rfl⟩ | ⟨rfl, rfl⟩ |
    ⟨hkey, answer, _, ⟨predicate, _, rfl⟩ | ⟨hlength, name, hname, rfl⟩⟩
  · rfl
  · rfl
  · exact (if_neg fun hseveral => absurd hseveral.2 (by simp [FieldMapping.predicates])).symm
  · rw [if_pos ⟨hkey, hlength⟩, ← Variable.eq_written hname]
    rfl

end Context

/-- The predicates that a memo has for a field. -/
def Memo.found (memo : Memo) (field : String) : List String :=
  ((memo.get? field).map FieldMapping.predicates).getD []

/-- They are those of its mapping. -/
theorem Memo.found_eq {memo : Memo} {field : String} {mapping : FieldMapping}
    (h : memo.get? field = some mapping) : memo.found field = mapping.predicates := by
  rw [found, h]
  rfl

namespace Draft.Made

variable {draft : Draft} {ctx : Context} {group : Group} {subject : String}

/-- What a draft remembers of fields is what the host has found for them. -/
theorem finds (h : draft.Made ctx group.keys subject group.ownLeaves) :
    group.Finds ctx draft.mappings.found := by
  have hgiven : ∀ leaf ∈ group.ownLeaves, (group.keys.kind leaf.field).isKey = false →
      draft.mappings.found leaf.field ≠ [] ∧ ∃ trace answer,
        ctx.resolver trace ctx.entityType leaf.field = .ok answer ∧
          answer.toList = draft.mappings.found leaf.field := by
    intro leaf hleaf hkey
    obtain ⟨mapping, hmapping⟩ := h.sound.known leaf hleaf
    obtain ⟨trace, hfound⟩ := h.sound.found _ (Memo.mem_entries_of_get? hmapping)
    obtain ⟨hsome, answer, hanswer⟩ := Context.given_of_findMapping hfound hkey
    rw [Memo.found_eq hmapping]
    exact ⟨hsome, trace, answer, hanswer⟩
  refine ⟨hgiven, fun hctx leaf hleaf hkey => ?_⟩
  obtain ⟨_, trace, answer, hanswer, hlist⟩ := hgiven leaf hleaf hkey
  rw [hctx.candidates_eq hanswer, hlist]

/-- The id has no predicate; that of any other field is what stands for it in its group. -/
theorem predicate?_eq (h : draft.Made ctx group.keys subject group.ownLeaves) {leaf : Leaf}
    (hleaf : leaf ∈ group.ownLeaves) {mapping : FieldMapping}
    (hmapping : draft.mappings.get? leaf.field = some mapping) :
    mapping.predicate? = if group.keys.kind leaf.field = .id then none else
      some (group.predicateOf ctx draft.mappings.found leaf.field) := by
  obtain ⟨trace, hfound⟩ := h.sound.found _ (Memo.mem_entries_of_get? hmapping)
  have hseveral : .predicate leaf.field ∈ group.roles draft.mappings.found ↔
      (group.keys.kind leaf.field).isKey = false ∧ 2 ≤ mapping.predicates.length := by
    rw [Group.predicate_mem_roles_iff, Group.mem_severalFields_iff, Memo.found_eq hmapping]
    exact and_iff_right ⟨leaf, hleaf, rfl⟩
  rw [Context.predicate?_findMapping hfound, Group.predicateOf, Memo.found_eq hmapping]
  simp only [hseveral]
  rfl

/-- The lists of candidates are those of the fields with several predicates. -/
theorem candidates_eq (h : draft.Made ctx group.keys subject group.ownLeaves) :
    draft.candidates = (group.severalFields draft.mappings.found).map fun field =>
      .values none ⟨Variable.written (field ++ "_predicate"), draft.mappings.found field⟩ := by
  have hnodup : draft.mappings.fields.Nodup := by
    rw [h.fields]
    exact nodup_eraseDups _
  have hentry : ∀ entry ∈ draft.mappings.entries, entry.2.candidateClauses =
      if !(group.keys.kind entry.1).isKey && 2 ≤ (draft.mappings.found entry.1).length then
        [.values none ⟨Variable.written (entry.1 ++ "_predicate"), draft.mappings.found entry.1⟩]
      else [] := by
    intro entry hmem
    obtain ⟨trace, hfound⟩ := h.sound.found _ hmem
    rw [Context.candidateClauses_findMapping hfound,
      Memo.found_eq ((Memo.mem_entries_iff hnodup).1 hmem)]
    simp
  have hflat : ∀ entries ⊆ draft.mappings.entries,
      entries.flatMap (fun entry => entry.2.candidateClauses) =
        ((entries.map Prod.fst).filter fun field =>
          !(group.keys.kind field).isKey && 2 ≤ (draft.mappings.found field).length).map
            fun field => .values none
              ⟨Variable.written (field ++ "_predicate"), draft.mappings.found field⟩ := by
    intro entries hsub
    induction entries with
    | nil => rfl
    | cons entry entries ih =>
        obtain ⟨hmem, hrest⟩ := List.cons_subset.1 hsub
        rw [List.flatMap_cons, hentry entry hmem, ih hrest, List.map_cons, List.filter_cons]
        split <;> rfl
  have hfields : draft.mappings.entries.map Prod.fst =
      (group.ownLeaves.map Leaf.field).eraseDups := h.fields
  rw [h.sound.listed, Memo.candidateClauses, hflat _ (List.Subset.refl _), hfields]
  rfl

end Draft.Made

/-! ## Clauses -/

/-- A clause that restricts a variable has the binding of that variable as its only triple. -/
theorem Clause.binding?_eq (clause : Clause) :
    clause.binding? = clause.target?.bind fun _ => clause.triples.head? := by
  cases clause with
  | nested | triple => rfl
  | values binding | existence binding | pattern binding | filter binding =>
      cases binding <;> rfl

/-- An equation is written as a triple, and any other condition on what its leaf binds. -/
theorem Leaf.Becomes.cases_equal {leaf : Leaf} {ctx : Context} {subject : String}
    {kind : FieldKind} {mapping : FieldMapping} {clause : Clause}
    (h : leaf.Becomes ctx subject kind mapping clause) :
    (leaf.operator = .equal ∧ ∃ predicate object, mapping.predicate? = some predicate ∧
      clause = .triple ⟨subject, predicate, object⟩) ∨
    leaf.operator ≠ .equal ∧ ∃ target binding, leaf.bind subject mapping = .ok (target, binding) ∧
      clause.target? = some target ∧ clause.triples = binding.toList := by
  cases h with
  | triple hoperator hpredicate => exact .inl ⟨hoperator, _, _, hpredicate, rfl⟩
  | values hoperator hbind => exact .inr ⟨by simp [hoperator], _, _, hbind, rfl, rfl⟩
  | existence hoperator hbind =>
      refine .inr ⟨?_, _, _, hbind, rfl, rfl⟩
      rcases hoperator with h | h <;> simp [h]
  | pattern hoperator hbind =>
      refine .inr ⟨?_, _, _, hbind, rfl, rfl⟩
      rcases hoperator with h | h <;> simp [h]
  | filter hoperator hbind =>
      refine .inr ⟨?_, _, _, hbind, rfl, rfl⟩
      intro hequal
      rw [hequal] at hoperator
      cases hoperator

namespace Draft.Made

variable {draft : Draft} {ctx : Context} {group : Group} {clause : Clause}

/-- The clause that an own leaf makes speaks of it. -/
theorem speaksOf
    (h : draft.Made ctx group.keys (Variable.written ctx.options.subjectVariable) group.ownLeaves)
    {leaf : Leaf} (hleaf : leaf ∈ group.ownLeaves)
    (hmakes : leaf.Makes ctx group.keys (Variable.written ctx.options.subjectVariable)
      draft.mappings clause) :
    clause.SpeaksOf leaf group ctx draft.mappings.found := by
  obtain ⟨mapping, hmapping, hbecomes⟩ := hmakes
  have hpredicate := h.predicate?_eq hleaf hmapping
  by_cases hid : group.keys.kind leaf.field = .id
  · -- The id has no predicate: its variable is the entity, and there is no triple.
    have hrole : leaf.role group.keys = .entity := by rw [Leaf.role, if_pos hid]
    rw [if_pos hid] at hpredicate
    rcases hbecomes.cases_equal with ⟨_, predicate, _, hsome, _⟩ |
      ⟨hoperator, target, binding, hbind, htarget, htriples⟩
    · rw [hpredicate] at hsome
      cases hsome
    · rcases Leaf.bind_ok hbind with ⟨_, rfl, rfl⟩ | ⟨predicate, hsome, _⟩
      · refine ⟨?_, fun _ => ⟨hoperator, htriples⟩, fun hvalue => absurd hrole hvalue⟩
        rw [if_neg hoperator, htarget, hrole]
        rfl
      · rw [hpredicate] at hsome
        cases hsome
  · have hrole : leaf.role group.keys = .value leaf.field := by rw [Leaf.role, if_neg hid]
    have hother : leaf.role group.keys ≠ .entity := by
      rw [hrole]
      exact Role.noConfusion
    rw [if_neg hid] at hpredicate
    rcases hbecomes.cases_equal with ⟨hoperator, predicate, object, hsome, rfl⟩ |
      ⟨hoperator, target, binding, hbind, htarget, htriples⟩
    · rw [hpredicate] at hsome
      cases hsome
      refine ⟨?_, fun hentity => absurd hentity hother, fun _ => ⟨object, rfl, ?_⟩⟩
      · rw [if_pos hoperator]
        rfl
      · exact fun hnot => absurd hoperator hnot
    · rcases Leaf.bind_ok hbind with ⟨hnone, _⟩ | ⟨predicate, hsome, hname, rfl⟩
      · rw [hpredicate] at hnone
        cases hnone
      · rw [hpredicate] at hsome
        cases hsome
        obtain rfl := Variable.eq_written hname
        refine ⟨?_, fun hentity => absurd hentity hother, fun _ => ⟨_, htriples, fun _ => ?_⟩⟩
        · rw [if_neg hoperator, htarget, hrole]
          rfl
        · rw [hrole]
          rfl

/-- Every clause that a draft holds speaks of an own leaf or is the place of a nested group. -/
theorem speaksOf_of_holds
    (h : draft.Made ctx group.keys (Variable.written ctx.options.subjectVariable) group.ownLeaves)
    (hclause : draft.Holds clause) : (∃ place, clause = .nested place) ∨
      ∃ leaf ∈ group.ownLeaves, clause.SpeaksOf leaf group ctx draft.mappings.found := by
  rcases h.origin clause hclause with hplace | ⟨leaf, hleaf, hmakes⟩
  · exact .inl hplace
  · exact .inr ⟨leaf, hleaf, h.speaksOf hleaf hmakes⟩

end Draft.Made

namespace Clause.SpeaksOf

variable {clause : Clause} {leaf : Leaf} {group : Group} {ctx : Context}
  {found : String → List String}

/-- A clause binds the variable of a value, unless it is an equation. -/
theorem binding?_eq (h : clause.SpeaksOf leaf group ctx found) :
    clause.binding? = if leaf.operator = .equal ∨ leaf.role group.keys = .entity then none else
      some ⟨Role.entity.written ctx.options.subjectVariable,
        group.predicateOf ctx found leaf.field,
        (leaf.role group.keys).written ctx.options.subjectVariable⟩ := by
  rw [Clause.binding?_eq, h.target]
  by_cases hoperator : leaf.operator = .equal
  · simp [hoperator]
  · rw [if_neg hoperator, Option.bind_some]
    by_cases hentity : leaf.role group.keys = .entity
    · rw [if_pos (.inr hentity), (h.entity hentity).2]
      rfl
    · obtain ⟨object, htriples, hobject⟩ := h.value hentity
      rw [if_neg (by simp [hoperator, hentity]), htriples, hobject hoperator]
      rfl

/-- All triples of a clause speak of the entity. -/
theorem subject_eq (h : clause.SpeaksOf leaf group ctx found) {t : Triple}
    (ht : t ∈ clause.triples) :
    t.subject = Role.entity.written ctx.options.subjectVariable := by
  by_cases hentity : leaf.role group.keys = .entity
  · rw [(h.entity hentity).2] at ht
    cases ht
  · obtain ⟨object, htriples, _⟩ := h.value hentity
    rw [htriples, List.mem_singleton] at ht
    rw [ht]

end Clause.SpeaksOf

/-- What clauses bind are the values of the fields of conditions other than equations. -/
theorem Draft.Made.exists_binding_iff {draft : Draft} {ctx : Context} {group : Group}
    (h : draft.Made ctx group.keys (Variable.written ctx.options.subjectVariable) group.ownLeaves)
    (target : String) :
    (∃ clause, draft.Holds clause ∧ ∃ t, clause.binding? = some t ∧ t.object = target) ↔
      ∃ field, (∃ leaf ∈ group.ownLeaves, leaf.operator ≠ .equal ∧
        leaf.role group.keys = .value field) ∧
        target = (Role.value field).written ctx.options.subjectVariable := by
  constructor
  · rintro ⟨clause, hclause, t, hbinding, rfl⟩
    rcases h.speaksOf_of_holds hclause with ⟨place, rfl⟩ | ⟨leaf, hleaf, hspeaks⟩
    · cases hbinding
    · rw [hspeaks.binding?_eq] at hbinding
      split at hbinding
      · cases hbinding
      · rename_i hother
        rw [not_or] at hother
        cases hbinding
        have hvalue := leaf.role_eq_value hother.2
        refine ⟨leaf.field, ⟨leaf, hleaf, hother.1, hvalue⟩, ?_⟩
        rw [hvalue]
  · rintro ⟨field, ⟨leaf, hleaf, hoperator, hvalue⟩, rfl⟩
    obtain ⟨clause, hclause, hmakes⟩ := h.clause leaf hleaf
    have hbinding := (h.speaksOf hleaf hmakes).binding?_eq
    rw [if_neg (by simp [hoperator, hvalue]), hvalue] at hbinding
    exact ⟨clause, hclause, _, hbinding, rfl⟩

/-! ## Plans -/

/-- The entity is linked to its bundle where the group asks for it. -/
theorem Group.defaultBundle_eq {group : Group} {ctx : Context} {triple? : Option Triple}
    (h : group.defaultBundle ctx (Variable.written ctx.options.subjectVariable) = .ok triple?) :
    triple? = if group.needsDefaultBundle then
      some ⟨Role.entity.written ctx.options.subjectVariable, ctx.options.typePredicate,
        (Role.value group.keys.bundle).written ctx.options.subjectVariable⟩
    else none := by
  rcases defaultBundle_ok h with ⟨hneeds, target, htarget, rfl⟩ | ⟨hneeds, rfl⟩
  · rw [Variable.eq_written htarget, if_pos hneeds]
    rfl
  · rw [if_neg (by simp [hneeds])]

namespace Draft.Made

variable {draft : Draft} {ctx : Context} {group : Group} {triple? : Option Triple} {clause : Clause}

/-- A list of candidates has no triples, and binds nothing. -/
theorem triples_of_mem_candidates {subject : String}
    (h : draft.Made ctx group.keys subject group.ownLeaves) (hclause : clause ∈ draft.candidates) :
    clause.triples = [] ∧ clause.binding? = none := by
  rw [h.candidates_eq] at hclause
  obtain ⟨field, _, rfl⟩ := List.mem_map.1 hclause
  exact ⟨rfl, rfl⟩

/-- All triples of a finished plan speak of the entity. -/
theorem subject_eq
    (h : draft.Made ctx group.keys (Variable.written ctx.options.subjectVariable) group.ownLeaves)
    (hbundle : group.defaultBundle ctx (Variable.written ctx.options.subjectVariable) = .ok triple?)
    {t : Triple} (ht : t ∈ (draft.finish triple?).triples) :
    t.subject = Role.entity.written ctx.options.subjectVariable := by
  rcases Draft.mem_triples_finish.1 ht with hdefault | ⟨clause, hclause, hmem⟩ |
    ⟨clause, hclause, hmem⟩
  · rw [Group.defaultBundle_eq hbundle, Option.ite_none_right_eq_some] at hdefault
    rw [← Option.some.inj hdefault.2]
  · rcases h.speaksOf_of_holds hclause with ⟨place, rfl⟩ | ⟨leaf, _, hspeaks⟩
    · cases hmem
    · exact hspeaks.subject_eq hmem
  · rw [(h.triples_of_mem_candidates hclause).1] at hmem
    cases hmem

/-- A finished plan binds by the triple for the bundle and by the clauses that its draft holds. -/
theorem mem_bindings_finish {subject : String}
    (h : draft.Made ctx group.keys subject group.ownLeaves) {t : Triple} :
    t ∈ (draft.finish triple?).bindings ↔ triple? = some t ∨
      ∃ clause, draft.Holds clause ∧ clause.binding? = some t := by
  have hcandidates : ∀ clause ∈ draft.candidates, clause.binding? = none :=
    fun clause hclause => (h.triples_of_mem_candidates hclause).2
  simp only [Plan.bindings, Plan.clauses, Draft.finish, Draft.Holds, List.mem_append,
    Option.mem_toList, List.mem_filterMap]
  grind

/-- What a finished plan binds are the values of the fields that the group binds. -/
theorem bound_iff
    (h : draft.Made ctx group.keys (Variable.written ctx.options.subjectVariable) group.ownLeaves)
    (hbundle : group.defaultBundle ctx (Variable.written ctx.options.subjectVariable) = .ok triple?)
    (target : String) :
    (∃ t ∈ (draft.finish triple?).bindings, t.object = target) ↔ ∃ field ∈ group.boundFields,
      target = (Role.value field).written ctx.options.subjectVariable := by
  have hlinked := Group.defaultBundle_eq hbundle
  constructor
  · rintro ⟨t, ht, hobject⟩
    rcases h.mem_bindings_finish.1 ht with hdefault | ⟨clause, hclause, hbinding⟩
    · rw [hlinked, Option.ite_none_right_eq_some] at hdefault
      refine ⟨group.keys.bundle, Group.mem_boundFields_iff.2 (.inl ⟨hdefault.1, rfl⟩), ?_⟩
      rw [← hobject, ← Option.some.inj hdefault.2]
    · obtain ⟨field, hleaf, hwritten⟩ :=
        (h.exists_binding_iff target).1 ⟨clause, hclause, t, hbinding, hobject⟩
      exact ⟨field, Group.mem_boundFields_iff.2 (.inr hleaf), hwritten⟩
  · rintro ⟨field, hfield, rfl⟩
    rcases Group.mem_boundFields_iff.1 hfield with ⟨hneeds, rfl⟩ | hleaf
    · rw [if_pos hneeds] at hlinked
      exact ⟨_, h.mem_bindings_finish.2 (.inl hlinked), rfl⟩
    · obtain ⟨clause, hclause, t, hbinding, hobject⟩ :=
        (h.exists_binding_iff _).2 ⟨field, hleaf, rfl⟩
      exact ⟨t, h.mem_bindings_finish.2 (.inr ⟨clause, hclause, hbinding⟩), hobject⟩

end Draft.Made

/-- Every variable of a plan is that of a role which its group has. -/
theorem Group.PlannedIn.named {group : Group} {ctx : Context} {plan : Plan}
    (h : group.PlannedIn ctx plan) :
    ∃ found, group.Finds ctx found ∧ plan.Named group ctx found := by
  obtain ⟨subject, draft, triple?, hsubject, hmade, hbundle, rfl⟩ := h
  obtain rfl := Variable.eq_written hsubject
  refine ⟨draft.mappings.found, hmade.finds, ?_⟩
  refine ⟨fun t ht => hmade.subject_eq hbundle ht, defaultBundle_eq hbundle, fun target => ?_,
    ⟨draft.values, ?_, ?_, ?_⟩, ?_⟩
  · simpa only [value_mem_roles_iff] using hmade.bound_iff hbundle target
  · exact congrArg (draft.values ++ ·) hmade.candidates_eq
  · exact fun clause hclause => hmade.speaksOf_of_holds (List.mem_append.1 hclause)
  · intro leaf hleaf
    obtain ⟨clause, hclause, hmakes⟩ := hmade.clause leaf hleaf
    exact ⟨clause, List.mem_append.2 hclause, hmade.speaksOf hleaf hmakes⟩
  · refine (group.nodup_roles _).imp fun hne => ⟨hne, ?_⟩
    rw [Role.written_eq_iff]
    simp [hne]

/-! ## Compiled groups -/

/-- Compiling a group gives it a plan in which all variables are those of its roles, and two of
its roles share a variable exactly when their names clash.  After a run this holds at every depth;
nested groups that were compiled before have kept the plans that they were given then. -/
theorem Group.variables_of_compile {group : Group} {ctx : Context} {trace : Trace}
    (h : (group.compile ctx trace).result = .ok ()) :
    (group.state = .building → ∃ plan found, (group.compile ctx trace).left.plan? = some plan ∧
      group.Finds ctx found ∧ plan.Named group ctx found) ∧
    ∀ steps, Workspace.Reaches steps group →
      (group.compile ctx trace).left.Everywhere fun inner => ∃ plan used found,
        inner.plan? = some plan ∧ (used = ctx ∨ Workspace.Uses steps used) ∧
          inner.Finds used found ∧ plan.Named inner used found := by
  constructor
  · intro hstate
    obtain ⟨subject, draft, triple?, hsubject, hwalk, hbundle, hleft⟩ := compile_ok hstate h
    obtain ⟨found, hfinds, hnamed⟩ := (plannedIn_walk hsubject hwalk hbundle).named
    refine ⟨draft.finish triple?, found, ?_, hfinds, hnamed⟩
    rw [hleft]
    rfl
  · intro steps hreach inner hinner
    have hbefore : group.Everywhere (Planned fun used => used = ctx ∨ Workspace.Uses steps used) :=
      ((planned_invariant (Workspace.Uses steps)).everywhere hreach).mono
        fun _ hplanned => hplanned.mono fun _ => Or.inr
    have hplanned := (planned_invariant _).compile (Or.inl rfl) hbefore trace
    have hphase := phase_compile ((settled_invariant (Workspace.Uses steps)).everywhere hreach) h
    obtain ⟨plan, hplan⟩ := exists_plan (hphase inner hinner)
    obtain ⟨used, hused, hmade⟩ := hplanned inner hinner plan hplan
    obtain ⟨found, hfinds, hnamed⟩ := hmade.named
    exact ⟨plan, used, found, hplan, hused, hfinds, hnamed⟩

/-- The sample group, before and after it is compiled with the union inside it. -/
theorem Group.variables_of_page :
    (Sample.page.compile Sample.context []).result = .ok () ∧ Sample.page.state = .building ∧
      Workspace.Reaches Sample.building Sample.page ∧
      (∃ plan found, (Sample.page.compile Sample.context []).left.plan? = some plan ∧
        Sample.page.Finds Sample.context found ∧
          plan.Named Sample.page Sample.context found) ∧
      (Sample.page.compile Sample.context []).left.Everywhere fun inner => ∃ plan used found,
        inner.plan? = some plan ∧ (used = Sample.context ∨ Workspace.Uses Sample.building used) ∧
          inner.Finds used found ∧ plan.Named inner used found := by
  have hreach : Workspace.Reaches Sample.building Sample.page := ⟨"page", rfl⟩
  refine ⟨rfl, rfl, hreach, ?_, ?_⟩
  · exact (variables_of_compile rfl).1 rfl
  · exact (variables_of_compile rfl).2 Sample.building hreach

namespace Sample

/-- Nodes with a field that is named like the variable of the predicates of tags, and one that is
named like the entity. -/
def clashingContext : Context where
  entityType := "node"
  resolver := (((MappingTable.empty.insert "node" "tag" ["<tag>", "<topic>"]).insert
    "node" "tag_predicate" ["<kind>"]).insert "node" "entity" ["<owner>"]).resolver

/-- Nodes that have a tag and each of these two fields. -/
def clashing : Group :=
  ((Workspace.run {} [.make "page" .and keys, .addPresent "page" "tag",
    .addPresent "page" "tag_predicate", .addPresent "page" "entity"]).get? "page").getD default

end Sample

/-- Names do clash: here a field shares its variable with the predicates of another field, and a
third field shares its variable with the entity. -/
theorem Group.shared_variables :
    (Sample.clashing.compile Sample.clashingContext []).result = .ok () ∧
    Sample.clashing.roles Sample.clashingContext.candidates = [.entity, .value "tag",
      .value "tag_predicate", .value "entity", .predicate "tag"] ∧
    (Role.value "tag_predicate").written "entity" = (Role.predicate "tag").written "entity" ∧
    (Role.value "entity").written "entity" = Role.entity.written "entity" ∧
    ((Sample.clashing.compile Sample.clashingContext []).left.render []).result.toOption = some
      ("VALUES ?tag_predicate \x7b <tag> <topic> \x7d . ?entity ?tag_predicate ?tag . " ++
        "EXISTS \x7b ?tag \x7d . ?entity <kind> ?tag_predicate . " ++
        "EXISTS \x7b ?tag_predicate \x7d . " ++
        "?entity <owner> ?entity . EXISTS \x7b ?entity \x7d") := by
  exact ⟨rfl, by decide +kernel, by decide, by decide, by decide +kernel⟩

/-! ## Reachable groups -/

/-- Every variable of a plan that a run leads to, at any depth, is that of a role which its group
has, the entity going by its name in a context in which the run compiles. -/
theorem Workspace.named_of_reaches {steps : List WorkspaceStep} {group inner : Group}
    {plan : Plan} (hreach : Reaches steps group) (hinner : inner.Within group)
    (hplan : inner.plan? = some plan) :
    ∃ ctx found, Uses steps ctx ∧ inner.Finds ctx found ∧ plan.Named inner ctx found := by
  have hplanned := (Group.planned_invariant (Uses steps)).everywhere hreach inner hinner
  obtain ⟨ctx, hused, hmade⟩ := hplanned plan hplan
  obtain ⟨found, hfinds, hnamed⟩ := hmade.named
  exact ⟨ctx, found, hused, hfinds, hnamed⟩

end GraphCriteria
