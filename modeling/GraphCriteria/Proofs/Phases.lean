import GraphCriteria.Proofs.Reachable

/-!
# Phases of nested groups

A group is compiled only after all its nested groups, and rendered only after all of them are.
Its plan points at each nested group once and at nothing else, so rendering a compiled group
always gives a text.

Main results:

- Theorem `Entry.count_nested_compileAll`: a walk points once at each nested group it passes.
- Theorem `Group.settled_invariant`: phases and places fit together after every operation.
- Theorem `Group.render_of_settled`: a compiled group with fitting phases and places has a text.
- Theorem `Workspace.phases_of_reaches`: all of this holds at every depth of every group that a
  run leads to.
-/

namespace GraphCriteria

/-! ## Places of nested groups -/

/-- Whether a nested group stands at a place of the entries. -/
def Entry.isNestedAt (entries : List Entry) (place : Nat) : Bool :=
  match entries[place]? with
  | some (.nested _) => true
  | _ => false

namespace Entry

/-- The test finds a nested group at a place exactly if there is one. -/
theorem isNestedAt_iff {entries : List Entry} {place : Nat} :
    isNestedAt entries place = true ↔ ∃ inner, entries[place]? = some (.nested inner) := by
  unfold isNestedAt
  cases hentry : entries[place]? with
  | none => simp
  | some entry => cases entry <;> simp

/-- The entries at which groups are nested are the same before and after compiling. -/
theorem isNestedAt_bareAll (entries : List Entry) :
    isNestedAt (bareAll entries) = isNestedAt entries := by
  funext place
  unfold isNestedAt
  rw [bareAll_getElem?]
  cases hentry : entries[place]? with
  | none => rfl
  | some entry => cases entry <;> rfl

/-- Entries with one bare form have nested groups at the same places. -/
theorem isNestedAt_eq_of_bareAll_eq {es fs : List Entry} (h : bareAll es = bareAll fs) :
    isNestedAt es = isNestedAt fs := by
  rw [← isNestedAt_bareAll es, h, isNestedAt_bareAll]

/-- A walk leaves the nested groups where they are. -/
theorem isNestedAt_walk (group : Group) (ctx : Context) (subject : String) (trace : Trace) :
    isNestedAt (group.walk ctx subject trace).left = isNestedAt group.entries :=
  isNestedAt_eq_of_bareAll_eq (bareAll_compileAll ..)

/-- So does rendering. -/
theorem isNestedAt_map_rendered (entries : List Entry) :
    isNestedAt (entries.map rendered) = isNestedAt entries := by
  funext place
  unfold isNestedAt
  rw [List.getElem?_map]
  cases hentry : entries[place]? with
  | none => rfl
  | some entry => cases entry <;> rfl

end Entry

/-! ## Clauses that point at nested groups -/

/-- The clauses of a draft, in the order in which its plan will write them. -/
def Draft.clauses (draft : Draft) : List Clause :=
  draft.values ++ draft.candidates ++ draft.conditions

@[simp] theorem Draft.clauses_finish (draft : Draft) (defaultBundle : Option Triple) :
    (draft.finish defaultBundle).clauses = draft.clauses :=
  rfl

/-- A list of candidates is no place of a nested group. -/
theorem FieldMapping.count_nested_candidateClauses (mapping : FieldMapping) (place : Nat) :
    mapping.candidateClauses.count (.nested place) = 0 := by
  cases mapping <;> simp [candidateClauses]

/-- Neither is the clause of a leaf. -/
theorem Leaf.Becomes.ne_nested {leaf : Leaf} {ctx : Context} {subject : String}
    {kind : FieldKind} {mapping : FieldMapping} {clause : Clause}
    (h : leaf.Becomes ctx subject kind mapping clause) (place : Nat) : clause ≠ .nested place := by
  cases h <;> simp

namespace Draft

theorem count_nested_note (draft : Draft) (field : String) (mapping : FieldMapping)
    (place : Nat) :
    (draft.note field mapping).clauses.count (.nested place) =
      draft.clauses.count (.nested place) := by
  unfold note
  split
  · rfl
  · simp only [clauses, List.count_append, mapping.count_nested_candidateClauses]
    omega

theorem count_nested_add (draft : Draft) (kind : FieldKind) (operator : Operator)
    {clause : Clause} {place : Nat} (h : clause ≠ .nested place) :
    (draft.add kind operator clause).clauses.count (.nested place) =
      draft.clauses.count (.nested place) := by
  have hzero : [clause].count (.nested place) = 0 := by simp [h]
  unfold add
  split <;>
    (simp only [clauses, List.count_append, hzero]
     omega)

/-- A nested group adds its place once. -/
theorem count_nested_addNested (draft : Draft) (index place : Nat) :
    (draft.addNested index).clauses.count (.nested place) =
      draft.clauses.count (.nested place) + if index = place then 1 else 0 := by
  have hone : [Clause.nested index].count (.nested place) = if index = place then 1 else 0 := by
    by_cases h : index = place <;> simp [h]
  simp only [addNested, clauses, List.count_append, hone]
  omega

end Draft

/-- A walk points once at each nested group that it passes, and at nothing else. -/
theorem Entry.count_nested_compileAll {ctx : Context} {keys : EntityKeys} {subject : String}
    {entries : List Entry} {index : Nat} {draft final : Draft} {trace : Trace}
    (h : (compileAll ctx keys subject entries index draft trace).result = .ok final)
    (place : Nat) :
    final.clauses.count (.nested place) = draft.clauses.count (.nested place) +
      if index ≤ place then (isNestedAt entries (place - index)).toNat else 0 := by
  induction entries generalizing index draft trace with
  | nil =>
      rw [compileAll] at h
      cases h
      simp [isNestedAt]
  | cons entry rest ih =>
      -- The head stands at `index`, the rest at the places after it.
      have hplace : (if index ≤ place then (isNestedAt (entry :: rest) (place - index)).toNat
            else 0) =
          (if index = place then (isNestedAt (entry :: rest) 0).toNat else 0) +
            if index + 1 ≤ place then (isNestedAt rest (place - (index + 1))).toNat else 0 := by
        by_cases heq : index = place
        · rw [if_pos (by omega), if_pos heq, if_neg (by omega), heq, Nat.sub_self, Nat.add_zero]
        · by_cases hlt : index + 1 ≤ place
          · have hsub : place - index = place - (index + 1) + 1 := by omega
            rw [if_pos (by omega), if_neg heq, if_pos hlt, hsub, Nat.zero_add]
            rfl
          · rw [if_neg (by omega), if_neg heq, if_neg hlt]
      rw [hplace]
      cases entry with
      | leaf own =>
          obtain ⟨next, mid, hown, hrest, _⟩ := compileAll_leaf_ok h
          obtain ⟨mapping, clause, _, hclause, rfl⟩ := Leaf.compile_ok hown
          rw [ih hrest, Draft.count_nested_add _ _ _ (hclause.ne_nested place),
            Draft.count_nested_note]
          simp [isNestedAt]
      | nested inner =>
          obtain ⟨_, mid, hrest, _⟩ := compileAll_nested_ok h
          rw [ih hrest, Draft.count_nested_addNested]
          simp only [isNestedAt, List.getElem?_cons_zero, Bool.toNat_true]
          omega

/-! ## Phases -/

namespace Group

/-- The phases of a group and of its nested groups fit together, and so do the places at which
its plan points. -/
structure Settled (group : Group) : Prop where
  compiled : group.phase ≠ .building →
    ∀ inner, .nested inner ∈ group.entries → inner.phase ≠ .building
  rendered : group.phase = .rendered →
    ∀ inner, .nested inner ∈ group.entries → inner.phase = .rendered
  places : ∀ plan, group.plan? = some plan → ∀ place,
    plan.clauses.count (.nested place) = (Entry.isNestedAt group.entries place).toNat

/-- A group that is being built has no plan that could be wrong. -/
theorem settled_of_building {group : Group} (h : group.state = .building) : group.Settled where
  compiled hphase := absurd (phase_eq_building_iff.2 h) hphase
  rendered hphase := by
    rw [phase, h] at hphase
    cases hphase
  places plan hplan := by
    rw [plan?, h] at hplan
    cases hplan

/-- In a tree whose groups are all being built there is nothing to fit together. -/
theorem settled_of_allBuilding {group : Group} (h : group.AllBuilding) :
    group.Everywhere Settled :=
  h.mono fun _ hphase => settled_of_building (phase_eq_building_iff.1 hphase)

end Group

/-! ## Texts of compiled groups -/

/-- The texts of clauses can be written exactly when those of the nested groups can. -/
theorem Clause.exists_textsOfAll_iff {nestedText? : Nat → Except ConditionError String}
    {clauses : List Clause} :
    (∃ texts, textsOfAll nestedText? clauses = .ok texts) ↔
      ∀ place, .nested place ∈ clauses → ∃ text, nestedText? place = .ok text := by
  induction clauses with
  | nil => simp [textsOfAll]
  | cons clause clauses ih =>
      have hclause : (∃ first, clause.texts nestedText? = .ok first) ↔
          ∀ place, clause = .nested place → ∃ text, nestedText? place = .ok text := by
        cases clause with
        | nested index =>
            simp only [texts, nested.injEq, forall_eq']
            cases nestedText? index <;> simp [Except.map]
        | triple | values | existence | pattern | filter => simp [texts]
      have hall : (∃ texts, textsOfAll nestedText? (clause :: clauses) = .ok texts) ↔
          (∃ first, clause.texts nestedText? = .ok first) ∧
            ∃ rest, textsOfAll nestedText? clauses = .ok rest := by
        rw [textsOfAll]
        cases clause.texts nestedText? with
        | error e => simp [bind, Except.bind]
        | ok first =>
            cases textsOfAll nestedText? clauses <;> simp [bind, Except.bind, pure, Except.pure]
      rw [hall, hclause, ih]
      simp only [List.mem_cons]
      constructor
      · rintro ⟨hfirst, hrest⟩ place (heq | hmem)
        · exact hfirst place heq.symm
        · exact hrest place hmem
      · intro h
        exact ⟨fun place heq => h place (.inl heq.symm), fun place hmem => h place (.inr hmem)⟩

/-- The text of a plan can be written exactly when those of the nested groups can. -/
theorem Plan.exists_text_iff {plan : Plan} {conjunction : Conjunction}
    {nestedText? : Nat → Except ConditionError String} :
    (∃ text, plan.text conjunction nestedText? = .ok text) ↔
      ∀ place, .nested place ∈ plan.clauses → ∃ text, nestedText? place = .ok text := by
  rw [← Clause.exists_textsOfAll_iff]
  unfold text texts
  cases Clause.textsOfAll nestedText? plan.clauses <;>
    simp [bind, Except.bind, pure, Except.pure]

namespace Group

/-- The plan of a settled group points at the nested groups and at nothing else. -/
theorem Settled.nested_mem_clauses_iff {group : Group} (h : group.Settled) {plan : Plan}
    (hplan : group.plan? = some plan) (place : Nat) :
    .nested place ∈ plan.clauses ↔ ∃ inner, group.entries[place]? = some (.nested inner) := by
  rw [← List.count_pos_iff, h.places plan hplan place, ← Entry.isNestedAt_iff]
  cases Entry.isNestedAt group.entries place <;> simp

/-- A compiled group with fitting phases and places at every depth has a text. -/
theorem render_of_settled {group : Group} (h : group.Everywhere Settled)
    (hphase : group.phase ≠ .building) (trace : Trace) :
    ∃ text, (group.render trace).result = .ok text := by
  induction group using nestedInduction generalizing trace with
  | step group ih =>
      have hways := group.renders trace
      generalize (group.render trace).result = result at hways ⊢
      generalize (group.render trace).left = left at hways ⊢
      cases hways with
      | notCompiled hstate => exact absurd (phase_eq_building_iff.2 hstate) hphase
      | again => exact ⟨_, rfl⟩
      | finished => exact ⟨_, rfl⟩
      | failed hstate htext =>
          rename_i plan e
          exfalso
          have hplan : group.plan? = some plan := by rw [plan?, hstate, GroupState.plan?]
          have hsome : ∃ text, plan.text group.conjunction (Entry.textAt group.entries) =
              .ok text := by
            refine Plan.exists_text_iff.2 fun place hplace => ?_
            obtain ⟨inner, hinner⟩ := (h.self.nested_mem_clauses_iff hplan place).1 hplace
            have hmem := List.mem_of_getElem? hinner
            rw [Entry.textAt_of_nested hinner]
            exact ih inner hmem (h.nested hmem) (h.self.compiled hphase inner hmem) []
          obtain ⟨text, hok⟩ := hsome
          rw [htext] at hok
          cases hok

/-- Phases and places fit together after every operation. -/
theorem settled_invariant (used : Context → Prop) : Invariant used Settled where
  new conjunction keys := settled_of_building rfl
  pushLeaf group leaf _ hstate _ _ := settled_of_building hstate
  pushNested group inner _ hstate := settled_of_building hstate
  stop group ctx subject trace _ hstate := settled_of_building hstate
  finish group ctx subject trace draft triple? _ _ hstate _ hwalk _ _ := by
    refine ⟨?_, ?_, ?_⟩
    · intro _ inner hinner
      rw [phase_ne_building_iff]
      exact Entry.state_compileAll hwalk inner hinner
    · intro hphase
      cases hphase
    · intro plan hplan place
      cases hplan
      rw [Draft.clauses_finish, Entry.count_nested_compileAll hwalk place]
      simp [withPlan, Entry.isNestedAt_walk, Draft.clauses]
  fail group plan h hstate := by
    have hphase : group.phase = .compiled := by rw [phase, hstate, GroupState.phase]
    refine ⟨?_, ?_, ?_⟩
    · intro _ outer houter
      obtain ⟨inner, hinner, rfl⟩ := Entry.mem_map_rendered houter
      rw [ne_eq, phase_render_eq_building_iff]
      exact h.compiled (by simp [hphase]) inner hinner
    · intro hrendered
      have : group.phase = .rendered := hrendered
      rw [hphase] at this
      cases this
    · intro other hother place
      rw [h.places other hother place]
      exact congrArg Bool.toNat (congrFun (Entry.isNestedAt_map_rendered group.entries) place).symm
  render group plan text h hstate htext := by
    have hplan : group.plan? = some plan := by rw [plan?, hstate, GroupState.plan?]
    -- The plan points at every nested group, so each of them has got a text.
    have hrendered : ∀ outer, .nested outer ∈ group.entries.map Entry.rendered →
        outer.phase = .rendered := by
      intro outer houter
      obtain ⟨inner, hinner, rfl⟩ := Entry.mem_map_rendered houter
      obtain ⟨place, hplace⟩ := List.mem_iff_getElem?.1 hinner
      obtain ⟨innerText, hinnerText⟩ := Plan.exists_text_iff.1 ⟨text, htext⟩ place
        ((h.nested_mem_clauses_iff hplan place).2 ⟨inner, hplace⟩)
      rw [Entry.textAt_of_nested hplace] at hinnerText
      exact phase_render hinnerText
    refine ⟨?_, fun _ => hrendered, ?_⟩
    · intro _ outer houter
      rw [hrendered outer houter]
      simp
    · intro other hother place
      cases hother
      rw [h.places plan hplan place]
      exact congrArg Bool.toNat (congrFun (Entry.isNestedAt_map_rendered group.entries) place).symm

/-- Compiling a tree keeps phases and places fitting. -/
theorem settled_compile {group : Group} (h : group.Everywhere Settled) (ctx : Context)
    (trace : Trace) : (group.compile ctx trace).left.Everywhere Settled :=
  (settled_invariant fun _ => True).compile trivial h trace

/-- A phase that passes from each group to its nested groups passes to all depths. -/
theorem Everywhere.descend {Q P : Group → Prop} (down : ∀ g, Q g → P g →
      ∀ inner, .nested inner ∈ g.entries → P inner) {group : Group} (h : group.Everywhere Q)
    (hP : P group) : group.Everywhere P := by
  induction group using nestedInduction with
  | step group ih =>
      refine everywhere_iff.2 ⟨hP, fun inner hinner => ?_⟩
      exact ih inner hinner (h.nested hinner) (down group h.self hP inner hinner)

end Group

/-- A compile that succeeds leaves no group of a tree being built. -/
theorem Group.phase_compile {group : Group} (h : group.Everywhere Settled) {ctx : Context}
    {trace : Trace} (hcompile : (group.compile ctx trace).result = .ok ()) :
    (group.compile ctx trace).left.Everywhere fun inner => inner.phase ≠ .building := by
  have hsettled := settled_compile h ctx trace
  refine hsettled.descend (fun g hg => hg.compiled) ?_
  exact phase_ne_building_iff.2 (state_compile hcompile)

/-- In every group that a run leads to and at every depth: below a compiled group all groups are
compiled, below a rendered one all are rendered, the plan of a group points once at each of its
nested groups and at nothing else, and a group that is not being built has a text. -/
theorem Workspace.phases_of_reaches {steps : List WorkspaceStep} {group inner : Group}
    (hreach : Reaches steps group) (hinner : inner.Within group) :
    (inner.phase ≠ .building → inner.Everywhere fun deep => deep.phase ≠ .building) ∧
      (inner.phase = .rendered → inner.Everywhere fun deep => deep.phase = .rendered) ∧
      (∀ plan, inner.plan? = some plan → ∀ place,
        plan.clauses.count (.nested place) =
          (Entry.isNestedAt inner.entries place).toNat) ∧
      (inner.phase ≠ .building → ∀ trace, ∃ text, (inner.render trace).result = .ok text) := by
  have hgroup := (Group.settled_invariant (Uses steps)).everywhere hreach
  have hsettled : inner.Everywhere Group.Settled :=
    fun deep hdeep => hgroup deep (hdeep.trans hinner)
  refine ⟨?_, ?_, hsettled.self.places, fun hphase => Group.render_of_settled hsettled hphase⟩
  · intro hphase
    exact hsettled.descend (fun g hg => hg.compiled) hphase
  · intro hphase
    exact hsettled.descend (fun g hg => hg.rendered) hphase

/-- The sample group is rendered with all that is in it. -/
theorem Workspace.phases_of_renderedPage :
    Reaches Sample.steps Sample.renderedPage ∧ Sample.renderedPage.Within Sample.renderedPage ∧
      Sample.renderedPage.Everywhere fun deep => deep.phase = .rendered := by
  have hreach : Reaches Sample.steps Sample.renderedPage := ⟨"page", rfl⟩
  refine ⟨hreach, .self _, ?_⟩
  exact (phases_of_reaches hreach (.self _)).2.1 rfl

end GraphCriteria
