import GraphCriteria.Proofs.Reading

/-!
# What plans are made of

A plan holds one clause for each own leaf of its group, one place for each nested group, and the
mappings of the fields of its own leaves, each found once.  Whatever happens to a group that has
been compiled, this stays so.

Main results:

- Theorem `Draft.Made.compileLeaf`: compiling a leaf adds its clause and its field.
- Theorem `Entry.made_compileAll`: so does a walk, for all own leaves.
- Theorem `Group.planned_invariant`: every plan is made of the own leaves of its group.
-/

namespace GraphCriteria

/-! ## Drafts -/

/-- A clause that a leaf becomes under the mapping that a memo has for its field. -/
def Leaf.Makes (leaf : Leaf) (ctx : Context) (keys : EntityKeys) (subject : String) (memo : Memo)
    (clause : Clause) : Prop :=
  ∃ mapping, memo.get? leaf.field = some mapping ∧
    leaf.Becomes ctx subject (keys.kind leaf.field) mapping clause

namespace Leaf.Makes

variable {leaf : Leaf} {ctx : Context} {keys : EntityKeys} {subject : String} {draft : Draft}
  {clause : Clause}

/-- What a leaf becomes is what it makes once the mapping of its field is noted. -/
theorem of_becomes {mapping : FieldMapping}
    (hmaps : draft.Maps ctx (keys.kind leaf.field) leaf.field mapping)
    (hbecomes : leaf.Becomes ctx subject (keys.kind leaf.field) mapping clause) :
    leaf.Makes ctx keys subject (draft.note leaf.field mapping).mappings clause :=
  ⟨mapping, by rw [Draft.get?_note hmaps, if_pos rfl], hbecomes⟩

/-- Noting a mapping keeps what leaves have made. -/
theorem note (h : leaf.Makes ctx keys subject draft.mappings clause) (field : String)
    (mapping : FieldMapping) :
    leaf.Makes ctx keys subject (draft.note field mapping).mappings clause := by
  obtain ⟨known, hknown, hclause⟩ := h
  exact ⟨known, Draft.get?_note_of_get? hknown, hclause⟩

end Leaf.Makes

namespace Draft

/-- What a draft holds once the leaves in a list have been compiled. -/
structure Made (draft : Draft) (ctx : Context) (keys : EntityKeys) (subject : String)
    (done : List Leaf) : Prop where
  sound : draft.Sound ctx keys subject done
  fields : draft.mappings.fields = (done.map Leaf.field).eraseDups
  /-- Every clause is that of a leaf or the place of a nested group. -/
  origin : ∀ clause, draft.Holds clause → (∃ place, clause = .nested place) ∨
    ∃ leaf ∈ done, leaf.Makes ctx keys subject draft.mappings clause
  /-- Every leaf has a clause. -/
  clause : ∀ leaf ∈ done, ∃ clause, draft.Holds clause ∧
    leaf.Makes ctx keys subject draft.mappings clause

variable {draft next : Draft} {ctx : Context} {keys : EntityKeys} {subject : String}
  {done : List Leaf}

theorem made_empty (ctx : Context) (keys : EntityKeys) (subject : String) :
    Made {} ctx keys subject [] where
  sound := sound_empty ctx keys subject
  fields := rfl
  origin clause h := by
    rcases h with h | h <;> cases h
  clause leaf h := by cases h

/-- Compiling a leaf adds its clause and its field. -/
theorem Made.compileLeaf (h : draft.Made ctx keys subject done) {leaf : Leaf}
    {trace later : Trace} (hleaf : leaf.compile ctx keys subject draft trace = (.ok next, later)) :
    next.Made ctx keys subject (done ++ [leaf]) := by
  have hsound := h.sound.compileLeaf hleaf
  obtain ⟨mapping, clause, hmaps, hbecomes, rfl⟩ := Leaf.compile_ok hleaf
  have hself := Leaf.Makes.of_becomes hmaps hbecomes
  refine ⟨hsound, ?_, ?_, ?_⟩
  · rw [add_mappings, List.map_append]
    exact fields_note h.fields
  · intro held hheld
    rcases holds_add.1 hheld with hold | rfl
    · rcases h.origin held (holds_note.1 hold) with hplace | ⟨other, hother, hmakes⟩
      · exact .inl hplace
      · refine .inr ⟨other, List.mem_append_left _ hother, ?_⟩
        rw [add_mappings]
        exact hmakes.note leaf.field mapping
    · exact .inr ⟨leaf, by simp, by rwa [add_mappings]⟩
  · intro other hother
    rcases List.mem_append.1 hother with hdone | hlast
    · obtain ⟨held, hheld, hmakes⟩ := h.clause other hdone
      refine ⟨held, holds_add.2 (.inl (holds_note.2 hheld)), ?_⟩
      rw [add_mappings]
      exact hmakes.note leaf.field mapping
    · rw [List.mem_singleton.1 hlast, add_mappings]
      exact ⟨clause, holds_add.2 (.inr rfl), hself⟩

theorem Made.addNested (h : draft.Made ctx keys subject done) (index : Nat) :
    (draft.addNested index).Made ctx keys subject done where
  sound := h.sound.addNested index
  fields := h.fields
  origin clause hclause := by
    rcases holds_addNested.1 hclause with hold | rfl
    · exact h.origin clause hold
    · exact .inl ⟨index, rfl⟩
  clause leaf hleaf := by
    obtain ⟨clause, hclause, hmakes⟩ := h.clause leaf hleaf
    exact ⟨clause, holds_addNested.2 (.inl hclause), hmakes⟩

end Draft

/-- A walk over the entries of a group adds the clauses and the fields of all own leaves. -/
theorem Entry.made_compileAll {ctx : Context} {keys : EntityKeys} {subject : String}
    {entries : List Entry} {index : Nat} {draft final : Draft} {trace : Trace} {done : List Leaf}
    (hdraft : draft.Made ctx keys subject done)
    (h : (compileAll ctx keys subject entries index draft trace).result = .ok final) :
    final.Made ctx keys subject (done ++ leaves entries) := by
  induction entries generalizing index draft trace done with
  | nil =>
      rw [compileAll] at h
      cases h
      simpa using hdraft
  | cons entry rest ih =>
      cases entry with
      | leaf own =>
          obtain ⟨next, mid, hown, hrest, _⟩ := compileAll_leaf_ok h
          have hfinal := ih (hdraft.compileLeaf hown) hrest
          rwa [List.append_assoc] at hfinal
      | nested inner =>
          obtain ⟨_, mid, hrest, _⟩ := compileAll_nested_ok h
          exact ih (hdraft.addNested index) hrest

/-! ## Plans -/

namespace Group

/-- Compiling a group in a context gives it this plan. -/
def PlannedIn (group : Group) (ctx : Context) (plan : Plan) : Prop :=
  ∃ (subject : String) (draft : Draft) (triple? : Option Triple),
    Variable.ofName ctx.options.subjectVariable = .ok subject ∧
      draft.Made ctx group.keys subject group.ownLeaves ∧
        group.defaultBundle ctx subject = .ok triple? ∧ plan = draft.finish triple?

/-- The plan of a group, if it has one, is made of its own leaves in one of the contexts in
use. -/
def Planned (used : Context → Prop) (group : Group) : Prop :=
  ∀ plan, group.plan? = some plan → ∃ ctx, used ctx ∧ group.PlannedIn ctx plan

theorem Planned.mono {used allowed : Context → Prop} (hallowed : ∀ ctx, used ctx → allowed ctx)
    {group : Group} (h : group.Planned used) : group.Planned allowed := by
  intro plan hplan
  obtain ⟨ctx, hused, hplanned⟩ := h plan hplan
  exact ⟨ctx, hallowed ctx hused, hplanned⟩

/-- A group that is no longer being built has a plan. -/
theorem exists_plan {group : Group} (h : group.phase ≠ .building) :
    ∃ plan, group.plan? = some plan := by
  rw [phase_ne_building_iff] at h
  rw [plan?]
  cases hstate : group.state with
  | building => exact absurd hstate h
  | compiled plan => exact ⟨plan, rfl⟩
  | rendered plan text => exact ⟨plan, rfl⟩

theorem planned_of_building (used : Context → Prop) (group : Group)
    (h : group.state = .building) : group.Planned used := by
  intro plan hplan
  rw [plan?, h] at hplan
  cases hplan

/-- Groups with the same bare form have the same plans. -/
theorem PlannedIn.congr {group other : Group} {ctx : Context} {plan : Plan}
    (h : group.PlannedIn ctx plan) (hbare : other.bare = group.bare) :
    other.PlannedIn ctx plan := by
  have hkeys : other.keys = group.keys := by
    simpa using congrArg Group.keys hbare
  have hleaves : other.ownLeaves = group.ownLeaves :=
    Entry.leaves_eq_of_bareAll_eq (by simpa using congrArg Group.entries hbare)
  have hneeds : other.needsDefaultBundle = group.needsDefaultBundle := by
    simpa [needsDefaultBundle] using congrArg Group.needsDefaultBundle hbare
  obtain ⟨subject, draft, triple?, hsubject, hmade, hbundle, hplan⟩ := h
  refine ⟨subject, draft, triple?, hsubject, ?_, ?_, hplan⟩
  · rwa [hkeys, hleaves]
  · rw [← hbundle, defaultBundle, defaultBundle, hneeds, hkeys]

/-- A plan has the mappings of the fields of own leaves. -/
theorem PlannedIn.fields {group : Group} {ctx : Context} {plan : Plan}
    (h : group.PlannedIn ctx plan) :
    plan.mappings.fields = (group.ownLeaves.map Leaf.field).eraseDups := by
  obtain ⟨subject, draft, triple?, _, hmade, _, rfl⟩ := h
  exact hmade.fields

/-- They are mappings that the context has for these fields. -/
theorem PlannedIn.found {group : Group} {ctx : Context} {plan : Plan}
    (h : group.PlannedIn ctx plan) {entry : String × FieldMapping}
    (hentry : entry ∈ plan.mappings.entries) :
    ∃ trace, (ctx.findMapping (group.keys.kind entry.1) entry.1 trace).1 = .ok entry.2 := by
  obtain ⟨subject, draft, triple?, _, hmade, _, rfl⟩ := h
  exact hmade.sound.found entry hentry

/-- A walk that succeeds makes a draft of the own leaves of a group. -/
theorem made_walk {group : Group} {ctx : Context} {subject : String} {trace : Trace}
    {draft : Draft} (hwalk : (group.walk ctx subject trace).result = .ok draft) :
    draft.Made ctx group.keys subject group.ownLeaves :=
  Entry.made_compileAll (Draft.made_empty ctx group.keys subject) hwalk

/-- A walk that succeeds gives a group its plan. -/
theorem plannedIn_walk {group : Group} {ctx : Context} {subject : String} {trace : Trace}
    {draft : Draft} {triple? : Option Triple}
    (hsubject : Variable.ofName ctx.options.subjectVariable = .ok subject)
    (hwalk : (group.walk ctx subject trace).result = .ok draft)
    (hbundle : group.defaultBundle ctx subject = .ok triple?) :
    group.PlannedIn ctx (draft.finish triple?) :=
  ⟨subject, draft, triple?, hsubject, made_walk hwalk, hbundle, rfl⟩

/-- What compiling makes true of a plan and its group stays so, if it depends on nothing but the
group as it was built. -/
theorem plan_invariant {used : Context → Prop} {P : Group → Plan → Prop}
    (congr : ∀ {group other : Group} {plan : Plan}, other.bare = group.bare → P group plan →
      P other plan)
    (made : ∀ {group : Group} {ctx : Context} {subject : String} {trace : Trace} {draft : Draft}
      {triple? : Option Triple}, used ctx →
      Variable.ofName ctx.options.subjectVariable = .ok subject →
      (group.walk ctx subject trace).result = .ok draft →
      group.defaultBundle ctx subject = .ok triple? → P group (draft.finish triple?)) :
    Invariant used fun group => ∀ plan, group.plan? = some plan → P group plan := by
  have hnone : ∀ {group : Group}, group.state = .building →
      ∀ plan, group.plan? = some plan → P group plan := by
    intro group hstate plan hplan
    rw [plan?, hstate] at hplan
    cases hplan
  -- Neither a walk nor rendering changes the bare form of the entries.
  refine ⟨fun _ _ => hnone rfl, fun _ _ _ hstate _ _ => hnone hstate,
    fun _ _ _ hstate => hnone hstate, fun _ _ _ _ _ hstate => hnone hstate, ?_, ?_, ?_⟩
  · intro group ctx subject trace draft triple? hused _ _ hsubject hwalk hbundle _ plan hplan
    cases hplan
    have hbare : (group.withPlan (group.walk ctx subject trace).left (draft.finish triple?)).bare =
        group.bare := bare_eq_of_entries rfl rfl rfl (Entry.bareAll_compileAll ..)
    exact congr hbare (made hused hsubject hwalk hbundle)
  · intro group plan h _ other hother
    have hbare : (group.withEntries (group.entries.map Entry.rendered)).bare = group.bare :=
      bare_eq_of_entries rfl rfl rfl (Entry.bareAll_rendered group.entries)
    exact congr hbare (h other hother)
  · intro group plan text h hstate _ other hother
    cases hother
    have hbare : (group.withText (group.entries.map Entry.rendered) plan text).bare = group.bare :=
      bare_eq_of_entries rfl rfl rfl (Entry.bareAll_rendered group.entries)
    exact congr hbare (h plan (by rw [plan?, hstate, GroupState.plan?]))

/-- Every plan is made of the own leaves of its group. -/
theorem planned_invariant (used : Context → Prop) : Invariant used (Planned used) := by
  refine plan_invariant (P := fun group plan => ∃ ctx, used ctx ∧ group.PlannedIn ctx plan) ?_ ?_
  · rintro group other plan hbare ⟨ctx, hused, hplanned⟩
    exact ⟨ctx, hused, hplanned.congr hbare⟩
  · intro group ctx subject trace draft triple? hused hsubject hwalk hbundle
    exact ⟨ctx, hused, plannedIn_walk hsubject hwalk hbundle⟩

end Group

end GraphCriteria
