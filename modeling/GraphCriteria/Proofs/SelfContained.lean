import GraphCriteria.Proofs.Leaves

/-!
# Self-contained plans

The plan of a group that joins its conditions by AND can stand alone, as a branch of a union
does: it says something about the entity, it speaks of no variable that it does not bind, and
it lists the candidates of every predicate variable that it uses.

Main results:

- Theorem `Draft.Sound.compileLeaf`: compiling a leaf keeps a draft sound.
- Theorem `Entry.sound_compileAll`: so does a walk over the entries of a group.
- Theorem `Workspace.selfContained_of_reaches`: the plans of all AND groups that a run leads to
  are self-contained.
-/

namespace GraphCriteria

/-! ## Triples and targets -/

/-- The triples that a clause writes. -/
def Clause.triples : Clause → List Triple
  | triple t => [t]
  | clause => clause.binding?.toList

/-- The variable that a clause restricts. -/
def Clause.target? : Clause → Option String
  | nested _ | triple _ => none
  | values _ clause => some clause.target
  | existence _ _ target | pattern _ _ target _ | filter _ _ target _ => some target

/-- The clauses that list the candidates of the predicate variables of a memo. -/
def Memo.candidateClauses (memo : Memo) : List Clause :=
  memo.entries.flatMap fun entry => entry.2.candidateClauses

/-- The triples of a plan itself. -/
def Plan.triples (plan : Plan) : List Triple :=
  plan.defaultBundle.toList ++ plan.clauses.flatMap Clause.triples

/-- A plan that can stand alone under a subject. -/
structure Plan.SelfContained (plan : Plan) (ctx : Context) (subject : String) : Prop where
  /-- Something is said about the entity, and nothing about anything else. -/
  anchored : (∃ t ∈ plan.triples, t.subject = subject) ∧ ∀ t ∈ plan.triples, t.subject = subject
  /-- Where candidates are not listed, a clause restricts the subject or a bound variable. -/
  bound : ∃ sets, plan.values = sets ++ plan.mappings.candidateClauses ∧
    ∀ clause ∈ sets ++ plan.conditions, ∀ target, clause.target? = some target →
      target = subject ∨ ∃ t ∈ plan.triples, t.object = target
  /-- A predicate is that of the bundle or that of a mapped field. -/
  mapped : ∀ t ∈ plan.triples, plan.defaultBundle = some t ∨
    ∃ field mapping, plan.mappings.get? field = some mapping ∧
      mapping.predicate? = some t.predicate
  /-- The candidates of a field are listed, and they are all that the host has found. -/
  listed : ∀ field name candidates,
    plan.mappings.get? field = some (.choice name candidates) →
      .values none ⟨name, candidates⟩ ∈ plan.values ∧
        Variable.ofName (field ++ "_predicate") = .ok name ∧
          ∃ trace found, ctx.resolver trace ctx.entityType field = .ok found ∧
            found.toList = candidates
  /-- Candidates are listed for the predicates of triples only. -/
  used : ∀ clause ∈ plan.mappings.candidateClauses, ∀ target, clause.target? = some target →
    ∃ t ∈ plan.triples, t.predicate = target

/-! ## Clauses of leaves -/

/-- A clause that is anchored in a subject, given the mappings of fields. -/
structure Clause.Anchored (clause : Clause) (memo : Memo) (subject : String) : Prop where
  subject_eq : ∀ t ∈ clause.triples, t.subject = subject
  bound : ∀ target, clause.target? = some target →
    target = subject ∨ ∃ t ∈ clause.triples, t.object = target
  mapped : ∀ t ∈ clause.triples, ∃ field mapping, memo.get? field = some mapping ∧
    mapping.predicate? = some t.predicate

namespace Leaf

variable {leaf : Leaf} {ctx : Context} {subject : String} {kind : FieldKind}
  {mapping : FieldMapping} {clause : Clause}

/-- Apart from the triple of an equation, a clause consists of a target and its binding. -/
theorem Becomes.cases_bind (h : leaf.Becomes ctx subject kind mapping clause) :
    (∃ predicate object, mapping.predicate? = some predicate ∧
      clause = .triple ⟨subject, predicate, object⟩) ∨
    ∃ target binding, leaf.bind subject mapping = .ok (target, binding) ∧
      clause.target? = some target ∧ clause.triples = binding.toList := by
  cases h with
  | triple _ hpredicate => exact .inl ⟨_, _, hpredicate, rfl⟩
  | values _ hbind => exact .inr ⟨_, _, hbind, rfl, rfl⟩
  | existence _ hbind => exact .inr ⟨_, _, hbind, rfl, rfl⟩
  | pattern _ hbind => exact .inr ⟨_, _, hbind, rfl, rfl⟩
  | filter _ hbind => exact .inr ⟨_, _, hbind, rfl, rfl⟩

/-- The clause of a leaf is anchored once the mapping of its field is remembered. -/
theorem Becomes.anchored (h : leaf.Becomes ctx subject kind mapping clause) {memo : Memo}
    (hmemo : memo.get? leaf.field = some mapping) : clause.Anchored memo subject := by
  rcases h.cases_bind with ⟨predicate, object, hpredicate, rfl⟩ | ⟨target, binding, hbind, ht, hts⟩
  · refine ⟨?_, ?_, ?_⟩
    · simp [Clause.triples]
    · intro target htarget
      cases htarget
    · intro t hmem
      rw [Clause.triples, List.mem_singleton] at hmem
      subst hmem
      exact ⟨leaf.field, mapping, hmemo, hpredicate⟩
  · rcases bind_ok hbind with ⟨_, rfl, rfl⟩ | ⟨predicate, hpredicate, _, rfl⟩
    · refine ⟨?_, ?_, ?_⟩
      · simp [hts]
      · intro other hother
        rw [ht] at hother
        exact .inl (Option.some.inj hother).symm
      · simp [hts]
    · refine ⟨?_, ?_, ?_⟩
      · simp [hts]
      · intro other hother
        rw [ht] at hother
        cases hother
        exact .inr ⟨_, by rw [hts]; exact List.mem_singleton.2 rfl, rfl⟩
      · intro t hmem
        rw [hts, Option.toList_some, List.mem_singleton] at hmem
        subst hmem
        exact ⟨leaf.field, mapping, hmemo, hpredicate⟩

/-- A field that has a predicate is written with it. -/
theorem Becomes.exists_triple (h : leaf.Becomes ctx subject kind mapping clause)
    {predicate : String} (hpredicate : mapping.predicate? = some predicate) :
    ∃ t ∈ clause.triples, t.predicate = predicate := by
  rcases h.cases_bind with ⟨other, object, hother, rfl⟩ | ⟨target, binding, hbind, _, hts⟩
  · rw [hpredicate] at hother
    cases hother
    exact ⟨_, List.mem_singleton.2 rfl, rfl⟩
  · rcases bind_ok hbind with ⟨hnone, _, _⟩ | ⟨other, hother, _, rfl⟩
    · rw [hpredicate] at hnone
      cases hnone
    · rw [hpredicate] at hother
      cases hother
      exact ⟨_, by rw [hts]; exact List.mem_singleton.2 rfl, rfl⟩

end Leaf

/-! ## Sound drafts -/

namespace Draft

/-- The clauses that a draft holds apart from its lists of candidates. -/
def Holds (draft : Draft) (clause : Clause) : Prop :=
  clause ∈ draft.values ∨ clause ∈ draft.conditions

/-- Noting a mapping leaves the clauses that a draft holds. -/
theorem holds_note {draft : Draft} {field : String} {mapping : FieldMapping} {clause : Clause} :
    (draft.note field mapping).Holds clause ↔ draft.Holds clause := by
  simp [Holds]

/-- Adding a clause adds that clause, wherever it is put. -/
theorem holds_add {draft : Draft} {kind : FieldKind} {operator : Operator}
    {clause other : Clause} :
    (draft.add kind operator clause).Holds other ↔ draft.Holds other ∨ other = clause := by
  unfold add
  split
  · simp only [Holds, List.mem_append, List.mem_singleton]
    exact or_right_comm
  · simp only [Holds, List.mem_append, List.mem_singleton, or_assoc]

/-- Adding a nested group adds the place of it. -/
theorem holds_addNested {draft : Draft} {index : Nat} {other : Clause} :
    (draft.addNested index).Holds other ↔ draft.Holds other ∨ other = .nested index := by
  simp only [addNested, Holds, List.mem_append, List.mem_singleton, or_assoc]

@[simp] theorem add_mappings (draft : Draft) (kind : FieldKind) (operator : Operator)
    (clause : Clause) : (draft.add kind operator clause).mappings = draft.mappings := by
  unfold add
  split <;> rfl

@[simp] theorem add_candidates (draft : Draft) (kind : FieldKind) (operator : Operator)
    (clause : Clause) : (draft.add kind operator clause).candidates = draft.candidates := by
  unfold add
  split <;> rfl

/-- What a draft knows once the leaves in a list have been compiled. -/
structure Sound (draft : Draft) (ctx : Context) (keys : EntityKeys) (subject : String)
    (done : List Leaf) : Prop where
  found : ∀ entry ∈ draft.mappings.entries,
    ∃ trace, (ctx.findMapping (keys.kind entry.1) entry.1 trace).1 = .ok entry.2
  listed : draft.candidates = draft.mappings.candidateClauses
  anchored : ∀ clause, draft.Holds clause → clause.Anchored draft.mappings subject
  used : ∀ entry ∈ draft.mappings.entries, ∀ predicate, entry.2.predicate? = some predicate →
    ∃ clause, draft.Holds clause ∧ ∃ t ∈ clause.triples, t.predicate = predicate
  known : ∀ leaf ∈ done, ∃ mapping, draft.mappings.get? leaf.field = some mapping

/-- An empty draft knows nothing, and holds nothing that would have to be known. -/
theorem sound_empty (ctx : Context) (keys : EntityKeys) (subject : String) :
    Sound {} ctx keys subject [] where
  found entry h := by cases h
  listed := rfl
  anchored clause h := by
    rcases h with h | h <;> cases h
  used entry h := by cases h
  known leaf h := by cases h

/-- What a draft remembers after noting the mapping that a field has for it. -/
theorem get?_note {draft : Draft} {ctx : Context} {kind : FieldKind} {field : String}
    {mapping : FieldMapping} (h : draft.Maps ctx kind field mapping) (other : String) :
    (draft.note field mapping).mappings.get? other =
      if other = field then some mapping else draft.mappings.get? other := by
  rcases h with hknown | ⟨hnew, _⟩
  · rw [note_of_get? hknown]
    split
    · rename_i heq
      rw [heq, hknown]
    · rfl
  · rw [note_of_new hnew]
    exact Memo.get?_push hnew mapping other

/-- What is remembered stays as it is. -/
theorem get?_note_of_get? {draft : Draft} {field other : String} {mapping known : FieldMapping}
    (h : draft.mappings.get? other = some known) :
    (draft.note field mapping).mappings.get? other = some known := by
  unfold note
  split
  · exact h
  · rename_i hnew
    rw [Memo.get?_push hnew, if_neg, h]
    rintro rfl
    rw [h] at hnew
    cases hnew

/-- Nothing is remembered besides what was, and the mapping that is noted. -/
theorem mem_entries_note {draft : Draft} {field : String} {mapping : FieldMapping}
    {entry : String × FieldMapping} (h : entry ∈ (draft.note field mapping).mappings.entries) :
    entry ∈ draft.mappings.entries ∨ entry = (field, mapping) := by
  unfold note at h
  split at h
  · exact .inl h
  · simpa [Memo.push] using h

/-- Candidates are listed when their mapping is noted, so that the lists stay complete. -/
theorem listed_note {draft : Draft} (h : draft.candidates = draft.mappings.candidateClauses)
    (field : String) (mapping : FieldMapping) :
    (draft.note field mapping).candidates =
      (draft.note field mapping).mappings.candidateClauses := by
  unfold note
  split
  · exact h
  · simp [Memo.candidateClauses, Memo.push, h]

/-- A mapping that a field has for a sound draft is found in the context. -/
theorem Sound.found_of_maps {draft : Draft} {ctx : Context} {keys : EntityKeys}
    {subject : String} {done : List Leaf} (h : draft.Sound ctx keys subject done) {field : String}
    {mapping : FieldMapping} (hmaps : draft.Maps ctx (keys.kind field) field mapping) :
    ∃ trace, (ctx.findMapping (keys.kind field) field trace).1 = .ok mapping := by
  rcases hmaps with hknown | ⟨_, hfound⟩
  · exact h.found _ (Memo.mem_entries_of_get? hknown)
  · exact hfound

/-- Compiling a leaf keeps a draft sound. -/
theorem Sound.compileLeaf {draft next : Draft} {ctx : Context} {keys : EntityKeys}
    {subject : String} {done : List Leaf} (h : draft.Sound ctx keys subject done) {leaf : Leaf}
    {trace later : Trace} (hleaf : leaf.compile ctx keys subject draft trace = (.ok next, later)) :
    next.Sound ctx keys subject (done ++ [leaf]) := by
  obtain ⟨mapping, clause, hmaps, hbecomes, rfl⟩ := Leaf.compile_ok hleaf
  have hget := get?_note hmaps
  have hkept : ∀ {other known}, draft.mappings.get? other = some known →
      (draft.note leaf.field mapping).mappings.get? other = some known := get?_note_of_get?
  have hself : (draft.note leaf.field mapping).mappings.get? leaf.field = some mapping := by
    rw [hget, if_pos rfl]
  refine ⟨?_, ?_, ?_, ?_, ?_⟩
  · intro entry hentry
    rw [add_mappings] at hentry
    rcases mem_entries_note hentry with hold | rfl
    · exact h.found entry hold
    · exact h.found_of_maps hmaps
  · rw [add_mappings, add_candidates]
    exact listed_note h.listed leaf.field mapping
  · intro other hother
    rw [add_mappings]
    rcases holds_add.1 hother with hold | rfl
    · have hanchored := h.anchored other (holds_note.1 hold)
      refine ⟨hanchored.subject_eq, hanchored.bound, fun t ht => ?_⟩
      obtain ⟨field, known, hknown, hpredicate⟩ := hanchored.mapped t ht
      exact ⟨field, known, hkept hknown, hpredicate⟩
    · exact hbecomes.anchored hself
  · intro entry hentry predicate hpredicate
    rw [add_mappings] at hentry
    rcases mem_entries_note hentry with hold | rfl
    · obtain ⟨held, hheld, ht⟩ := h.used entry hold predicate hpredicate
      exact ⟨held, holds_add.2 (.inl (holds_note.2 hheld)), ht⟩
    · exact ⟨clause, holds_add.2 (.inr rfl), hbecomes.exists_triple hpredicate⟩
  · intro other hother
    rw [add_mappings]
    rcases List.mem_append.1 hother with hdone | hlast
    · obtain ⟨known, hknown⟩ := h.known other hdone
      exact ⟨known, hkept hknown⟩
    · rw [List.mem_singleton.1 hlast]
      exact ⟨mapping, hself⟩

/-- The place of a nested group says nothing about the entity, and leaves a draft sound. -/
theorem Sound.addNested {draft : Draft} {ctx : Context} {keys : EntityKeys} {subject : String}
    {done : List Leaf} (h : draft.Sound ctx keys subject done) (index : Nat) :
    (draft.addNested index).Sound ctx keys subject done where
  found := h.found
  listed := h.listed
  anchored clause hclause := by
    rcases holds_addNested.1 hclause with hold | rfl
    · exact h.anchored clause hold
    · refine ⟨?_, ?_, ?_⟩
      · intro t ht
        cases ht
      · intro target htarget
        cases htarget
      · intro t ht
        cases ht
  used entry hentry predicate hpredicate := by
    obtain ⟨clause, hclause, ht⟩ := h.used entry hentry predicate hpredicate
    exact ⟨clause, holds_addNested.2 (.inl hclause), ht⟩
  known := h.known

end Draft

/-- A walk over the entries of a group keeps a draft sound. -/
theorem Entry.sound_compileAll {ctx : Context} {keys : EntityKeys} {subject : String}
    {entries : List Entry} {index : Nat} {draft final : Draft} {trace : Trace} {done : List Leaf}
    (hdraft : draft.Sound ctx keys subject done)
    (h : (compileAll ctx keys subject entries index draft trace).result = .ok final) :
    final.Sound ctx keys subject (done ++ leaves entries) := by
  induction entries generalizing index draft trace done with
  | nil =>
      rw [compileAll] at h
      cases h
      simpa using hdraft
  | cons entry rest ih =>
      cases entry with
      | leaf own =>
          obtain ⟨next, mid, hown, hrest, _⟩ := compileAll_leaf_ok h
          have hfinal := ih (hdraft.compileLeaf hown) hrest
          rwa [List.append_assoc] at hfinal
      | nested inner =>
          obtain ⟨_, mid, hrest, _⟩ := compileAll_nested_ok h
          exact ih (hdraft.addNested index) hrest

/-! ## Finished plans -/

/-- The triple that links the entity to its bundle is there exactly when it is needed. -/
theorem Group.defaultBundle_ok {group : Group} {ctx : Context} {subject : String}
    {triple? : Option Triple} (h : group.defaultBundle ctx subject = .ok triple?) :
    (group.needsDefaultBundle = true ∧ ∃ target, Variable.ofName group.keys.bundle = .ok target ∧
      triple? = some ⟨subject, ctx.options.typePredicate, target⟩) ∨
      group.needsDefaultBundle = false ∧ triple? = none := by
  unfold defaultBundle at h
  split at h
  · rename_i hneeds
    cases hname : Variable.ofName group.keys.bundle with
    | error e =>
        rw [hname] at h
        cases h
    | ok target =>
        rw [hname] at h
        cases h
        exact .inl ⟨hneeds, target, rfl, rfl⟩
  · rename_i hneeds
    cases h
    exact .inr ⟨by simpa using hneeds, rfl⟩

/-- A field that narrows a group to some bundle has a predicate. -/
theorem Context.exists_predicate_of_narrows {ctx : Context} {kind : FieldKind} {field : String}
    {trace : Trace} {mapping : FieldMapping} (hkind : kind.narrows = true)
    (h : (ctx.findMapping kind field trace).1 = .ok mapping) :
    ∃ predicate, mapping.predicate? = some predicate := by
  rcases findMapping_ok h with ⟨rfl, _⟩ | ⟨_, rfl⟩ | ⟨_, _, _, ⟨_, _, rfl⟩ | ⟨_, _, _, rfl⟩⟩
  · cases hkind
  · exact ⟨_, rfl⟩
  · exact ⟨_, rfl⟩
  · exact ⟨_, rfl⟩

/-- Lists of candidates are those of the fields that have several. -/
theorem Memo.mem_candidateClauses {memo : Memo} {clause : Clause} :
    clause ∈ memo.candidateClauses ↔
      ∃ field name candidates, (field, .choice name candidates) ∈ memo.entries ∧
        clause = .values none ⟨name, candidates⟩ := by
  simp only [candidateClauses, List.mem_flatMap, Prod.exists]
  constructor
  · rintro ⟨field, mapping, hmem, hclause⟩
    cases mapping with
    | subject | predicate => simp [FieldMapping.candidateClauses] at hclause
    | choice name candidates =>
        exact ⟨field, name, candidates, hmem, by simpa [FieldMapping.candidateClauses] using hclause⟩
  · rintro ⟨field, name, candidates, hmem, rfl⟩
    exact ⟨field, _, hmem, by simp [FieldMapping.candidateClauses]⟩

/-- The triples of a finished plan are those of the bundle and of the clauses. -/
theorem Draft.mem_triples_finish {draft : Draft} {triple? : Option Triple} {t : Triple} :
    t ∈ (draft.finish triple?).triples ↔ triple? = some t ∨
      (∃ clause, draft.Holds clause ∧ t ∈ clause.triples) ∨
        ∃ clause ∈ draft.candidates, t ∈ clause.triples := by
  simp only [Plan.triples, Plan.clauses, finish, Holds, List.mem_append, Option.mem_toList,
    List.mem_flatMap]
  grind

/-- A sound draft of all leaves of an AND group makes a self-contained plan. -/
theorem Draft.Sound.selfContained {draft : Draft} {ctx : Context} {group : Group}
    {subject : String} (h : draft.Sound ctx group.keys subject group.ownLeaves)
    (hmarked : group.Marked) (hand : group.conjunction = .and) {triple? : Option Triple}
    (hbundle : group.defaultBundle ctx subject = .ok triple?) :
    (draft.finish triple?).SelfContained ctx subject := by
  have hcandidates : ∀ clause ∈ draft.candidates, clause.triples = [] := by
    intro clause hclause
    rw [h.listed] at hclause
    obtain ⟨_, name, candidates, _, rfl⟩ := Memo.mem_candidateClauses.1 hclause
    rfl
  have hheld : ∀ {clause t}, draft.Holds clause → t ∈ clause.triples →
      t ∈ (draft.finish triple?).triples :=
    fun hclause ht => mem_triples_finish.2 (.inr (.inl ⟨_, hclause, ht⟩))
  have htriples : ∀ t ∈ (draft.finish triple?).triples, triple? = some t ∨
      ∃ clause, draft.Holds clause ∧ t ∈ clause.triples := by
    intro t ht
    rcases mem_triples_finish.1 ht with htriple | hclause | ⟨clause, hclause, ht⟩
    · exact .inl htriple
    · exact .inr hclause
    · rw [hcandidates clause hclause] at ht
      cases ht
  refine ⟨⟨?_, ?_⟩, ?_, ?_, ?_, ?_⟩
  · rcases Group.defaultBundle_ok hbundle with ⟨_, target, _, rfl⟩ | ⟨hneeds, rfl⟩
    · exact ⟨_, mem_triples_finish.2 (.inl rfl), rfl⟩
    · -- Without a triple of its own, some leaf narrows the group, and that leaf has a triple.
      obtain ⟨leaf, hleaf, hnarrows⟩ := group.exists_narrowing_leaf hmarked hand hneeds
      obtain ⟨mapping, hmapping⟩ := h.known leaf hleaf
      obtain ⟨trace, hfound⟩ := h.found _ (Memo.mem_entries_of_get? hmapping)
      obtain ⟨predicate, hpredicate⟩ := Context.exists_predicate_of_narrows hnarrows hfound
      obtain ⟨clause, hclause, t, ht, _⟩ :=
        h.used _ (Memo.mem_entries_of_get? hmapping) predicate hpredicate
      exact ⟨t, hheld hclause ht, (h.anchored clause hclause).subject_eq t ht⟩
  · intro t ht
    rcases htriples t ht with rfl | ⟨clause, hclause, ht⟩
    · rcases Group.defaultBundle_ok hbundle with ⟨_, target, _, heq⟩ | ⟨_, heq⟩
      · cases heq
        rfl
      · cases heq
    · exact (h.anchored clause hclause).subject_eq t ht
  · refine ⟨draft.values, congrArg (draft.values ++ ·) h.listed, ?_⟩
    intro clause hclause target htarget
    have hholds : draft.Holds clause := List.mem_append.1 hclause
    rcases (h.anchored clause hholds).bound target htarget with heq | ⟨t, ht, hobject⟩
    · exact .inl heq
    · exact .inr ⟨t, hheld hholds ht, hobject⟩
  · intro t ht
    rcases htriples t ht with htriple | ⟨clause, hclause, ht⟩
    · exact .inl htriple
    · exact .inr ((h.anchored clause hclause).mapped t ht)
  · intro field name candidates hmapping
    have hmem : Clause.values none ⟨name, candidates⟩ ∈ draft.mappings.candidateClauses :=
      Memo.mem_candidateClauses.2
        ⟨field, name, candidates, Memo.mem_entries_of_get? hmapping, rfl⟩
    refine ⟨List.mem_append_right _ (h.listed ▸ hmem), ?_⟩
    obtain ⟨trace, hfound⟩ := h.found _ (Memo.mem_entries_of_get? hmapping)
    rcases Context.findMapping_ok hfound with ⟨_, heq⟩ | ⟨_, heq⟩ |
      ⟨_, found, hresolver, ⟨_, _, heq⟩ | ⟨_, other, hname, heq⟩⟩
    · cases heq
    · cases heq
    · cases heq
    · cases heq
      exact ⟨hname, trace, found, hresolver, rfl⟩
  · intro clause hclause target htarget
    obtain ⟨field, name, candidates, hmem, rfl⟩ := Memo.mem_candidateClauses.1 hclause
    obtain ⟨held, hholds, t, ht, hpredicate⟩ := h.used _ hmem name rfl
    cases htarget
    exact ⟨t, hheld hholds ht, hpredicate⟩

/-! ## Reachable groups -/

namespace Group

/-- The mark of a group fits its leaves, and the plan of an AND group is self-contained in one
of the contexts in use. -/
structure Contained (used : Context → Prop) (group : Group) : Prop where
  marked : group.Marked
  plan : group.conjunction = .and → ∀ plan, group.plan? = some plan → ∃ ctx subject, used ctx ∧
    Variable.ofName ctx.options.subjectVariable = .ok subject ∧ plan.SelfContained ctx subject

theorem contained_of_building {used : Context → Prop} {group : Group} (hmarked : group.Marked)
    (h : group.state = .building) : group.Contained used where
  marked := hmarked
  plan _ plan hplan := by
    rw [plan?, h] at hplan
    cases hplan

/-- The plans of AND groups stay self-contained. -/
theorem contained_invariant (used : Context → Prop) : Invariant used (Contained used) where
  new conjunction keys := contained_of_building ((marked_invariant used).new conjunction keys) rfl
  pushLeaf group leaf h hstate hand hleaf :=
    contained_of_building ((marked_invariant used).pushLeaf group leaf h.marked hstate hand hleaf)
      hstate
  pushNested group inner h hstate :=
    contained_of_building ((marked_invariant used).pushNested group inner h.marked hstate) hstate
  stop group ctx subject trace h hstate :=
    contained_of_building ((marked_invariant used).stop group ctx subject trace h.marked hstate)
      hstate
  finish group ctx subject trace draft triple? hused h hstate hsubject hwalk hbundle hnested := by
    refine ⟨?_, ?_⟩
    · exact (marked_invariant used).finish group ctx subject trace draft triple? hused h.marked
        hstate hsubject hwalk hbundle fun inner hinner => (hnested inner hinner).marked
    · intro hand plan hplan
      cases hplan
      refine ⟨ctx, subject, hused, hsubject, ?_⟩
      have hsound := Entry.sound_compileAll (Draft.sound_empty ctx group.keys subject) hwalk
      exact hsound.selfContained h.marked hand hbundle
  fail group plan h hstate := by
    refine ⟨(marked_invariant used).fail group plan h.marked hstate, ?_⟩
    exact h.plan
  render group plan text h hstate htext := by
    refine ⟨(marked_invariant used).render group plan text h.marked hstate htext, ?_⟩
    intro hand other hother
    cases hother
    exact h.plan hand plan (by rw [plan?, hstate, GroupState.plan?])

end Group

/-- Every AND group that a run leads to, at any depth, has a self-contained plan once it is
compiled, its subject being that of a context in which the run compiles. -/
theorem Workspace.selfContained_of_reaches {steps : List WorkspaceStep} {group inner : Group}
    {plan : Plan} (hreach : Reaches steps group) (hinner : inner.Within group)
    (hand : inner.conjunction = .and) (hplan : inner.plan? = some plan) :
    ∃ ctx subject, Uses steps ctx ∧
      Variable.ofName ctx.options.subjectVariable = .ok subject ∧
        plan.SelfContained ctx subject :=
  ((Group.contained_invariant (Uses steps)).everywhere hreach inner hinner).plan hand plan hplan

/-- The first branch of the union in the sample group. -/
def Sample.tagBranch : Group :=
  (renderedPage.at? [1, 0]).getD default

/-- The plan of that branch can stand alone. -/
theorem Workspace.selfContained_of_tagBranch :
    ∃ plan, Sample.tagBranch.plan? = some plan ∧ Sample.tagBranch.conjunction = .and ∧
      ∃ ctx subject, Uses Sample.steps ctx ∧
        Variable.ofName ctx.options.subjectVariable = .ok subject ∧
          plan.SelfContained ctx subject := by
  have hwithin : Sample.tagBranch.Within Sample.renderedPage := @Group.within_of_at? [1, 0] _ _ rfl
  exact ⟨_, rfl, rfl, selfContained_of_reaches ⟨"page", rfl⟩ hwithin rfl rfl⟩

end GraphCriteria
