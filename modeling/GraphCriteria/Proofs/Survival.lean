import GraphCriteria.Proofs.Frozen
import GraphCriteria.Proofs.WellFormed

/-!
# What survives in a text

Rendering drops empty texts and repetitions at every level of a tree.  No condition is lost that
way: whatever a leaf is compiled to stands in the text of its group, and from there in the texts of
all groups around it.  Only unions of unions have an empty text.

Main results:

- Theorem `Conjunction.occursIn_combine`: what is combined is part of the result.
- Theorem `Plan.writtenIn_combine`: so every clause of a plan is written in the text of the plan.
- Theorem `Entry.paired_compileAll`: a walk makes one clause for each own leaf, in their order.
- Theorem `Group.text_eq_empty_iff`: the text of a compiled group is empty exactly when the tree
  consists of unions.
- Theorem `Workspace.nothing_lost_of_reaches`: every leaf of a compiled tree is written in its text.
-/

namespace GraphCriteria

/-! ## Parts of texts -/

/-- A text stands in another, without gaps. -/
def OccursIn (part text : String) : Prop :=
  part.toList <:+: text.toList

instance (part text : String) : Decidable (OccursIn part text) :=
  inferInstanceAs (Decidable (part.toList <:+: text.toList))

namespace OccursIn

variable {part text whole : String}

theorem refl (text : String) : OccursIn text text :=
  List.infix_rfl

theorem trans (h : OccursIn part text) (hwhole : OccursIn text whole) : OccursIn part whole :=
  List.IsInfix.trans h hwhole

/-- Only the empty text stands in the empty text. -/
theorem eq_empty (h : OccursIn part "") : part = "" := by
  have hnil : part.toList = [] := List.infix_nil.1 h
  rw [← String.toList_inj, hnil]
  rfl

theorem empty (text : String) : OccursIn "" text :=
  List.nil_infix

theorem between (front text back : String) : OccursIn text (front ++ text ++ back) := by
  rw [OccursIn, String.toList_append, String.toList_append]
  exact List.infix_append ..

/-- A text stands in every text that it is a member of. -/
theorem intercalate {texts : List String} (h : text ∈ texts) (separator : String) :
    OccursIn text (separator.intercalate texts) := by
  induction texts with
  | nil => cases h
  | cons first rest ih =>
      by_cases hrest : rest = []
      · subst hrest
        rw [List.mem_singleton.1 h, String.intercalate_singleton]
        exact .refl first
      · rw [String.intercalate_cons_of_ne_nil hrest]
        rcases List.mem_cons.1 h with rfl | hmem
        · rw [String.append_assoc]
          simpa using between "" text (separator ++ separator.intercalate rest)
        · refine (ih hmem).trans ?_
          simpa using between (first ++ separator) (separator.intercalate rest) ""

end OccursIn

namespace Conjunction

variable (conjunction : Conjunction) {texts : List String}

/-- What is combined is part of the result, empty or not and repeated or not. -/
theorem occursIn_combine {text : String} (h : text ∈ texts) :
    OccursIn text (conjunction.combine texts) := by
  by_cases hempty : text = ""
  · rw [hempty]
    exact .empty _
  · have hgiven : text ∈ texts.filter (· ≠ "") := List.mem_filter.2 ⟨h, by simpa using hempty⟩
    cases conjunction with
    | and => exact .intercalate (List.mem_eraseDups.2 hgiven) " . "
    | or =>
        have hbranch : OccursIn text ("\x7b " ++ text ++ " \x7d") := .between _ _ _
        refine hbranch.trans (.intercalate ?_ " UNION ")
        exact List.mem_eraseDups.2 (List.mem_map.2 ⟨text, hgiven, rfl⟩)

/-- The result is empty only if there is nothing to combine. -/
theorem combine_eq_empty_iff : conjunction.combine texts = "" ↔ ∀ text ∈ texts, text = "" := by
  constructor
  · intro h text htext
    have hoccurs := conjunction.occursIn_combine htext
    rw [h] at hoccurs
    exact hoccurs.eq_empty
  · intro h
    have hnone : texts.filter (· ≠ "") = [] := by simpa using h
    unfold combine
    rw [hnone]
    cases conjunction <;> rfl

/-- A text is left out of the fragments if it is empty, and else stands among them. -/
theorem wrap_mem_fragments {text : String} (h : text ∈ texts) (hempty : text ≠ "") :
    conjunction.wrap text ∈ conjunction.fragments texts := by
  rw [fragments_eq, List.mem_eraseDups]
  exact List.mem_map.2 ⟨text, List.mem_filter.2 ⟨h, by simpa using hempty⟩, rfl⟩

end Conjunction

/-- Every comparison is part of the one filter. -/
theorem exists_filterText {comparisons : List String} {comparison : String}
    (h : comparison ∈ comparisons) :
    ∃ text ∈ filterTexts comparisons, OccursIn comparison text := by
  rw [filterTexts_eq]
  match comparisons, h with
  | [only], h =>
      rw [List.mem_singleton.1 h]
      exact ⟨_, List.mem_singleton.2 rfl, .between _ _ _⟩
  | first :: second :: others, h =>
      refine ⟨_, List.mem_singleton.2 rfl, ?_⟩
      have hparenthesized : OccursIn comparison ("(" ++ comparison ++ ")") := .between _ _ _
      have hjoined := OccursIn.intercalate
        (List.mem_map.2 ⟨comparison, h, rfl⟩ :
          "(" ++ comparison ++ ")" ∈ (first :: second :: others).map fun text => "(" ++ text ++ ")")
        " && "
      exact (hparenthesized.trans hjoined).trans (.between _ _ _)

/-! ## Clauses of a plan -/

/-- The clause of a condition is written in a text: the triple that binds its variable, where it
has one, and its one expression, which stands on its own or is part of a filter. -/
structure Clause.WrittenIn (clause : Clause) (text : String) : Prop where
  binding : ∀ t, clause.binding? = some t → OccursIn t.text text
  expression : ∃ own, clause.ownTexts ++ clause.comparison?.toList = [own] ∧ OccursIn own text

theorem Clause.WrittenIn.mono {clause : Clause} {text whole : String} (h : clause.WrittenIn text)
    (hwhole : OccursIn text whole) : clause.WrittenIn whole where
  binding t ht := (h.binding t ht).trans hwhole
  expression := by
    obtain ⟨own, hown, hoccurs⟩ := h.expression
    exact ⟨own, hown, hoccurs.trans hwhole⟩

/-- A leaf becomes a clause with one expression. -/
theorem Leaf.Becomes.exists_expression {leaf : Leaf} {ctx : Context} {subject : String}
    {kind : FieldKind} {mapping : FieldMapping} {clause : Clause}
    (h : leaf.Becomes ctx subject kind mapping clause) :
    ∃ own, clause.ownTexts ++ clause.comparison?.toList = [own] := by
  cases h <;> exact ⟨_, rfl⟩

namespace Plan

variable {plan : Plan} {clause : Clause}

/-- The texts of a clause are fragments of its plan. -/
theorem own_mem_fragments (hclause : clause ∈ plan.clauses) {text : String}
    (htext : text ∈ (clause.binding?.map Triple.text).toList ++ clause.ownTexts) :
    .own text ∈ plan.fragments := by
  refine List.mem_append_left _ (List.mem_append_right _ (List.mem_flatMap.2 ⟨clause, hclause, ?_⟩))
  cases clause with
  | nested place => cases htext
  | triple | values | existence | pattern | filter => exact List.mem_map.2 ⟨text, htext, rfl⟩

/-- The comparison of a clause is part of a fragment of its plan. -/
theorem exists_fragment_of_comparison (hclause : clause ∈ plan.clauses) {comparison : String}
    (h : clause.comparison? = some comparison) :
    ∃ text, .own text ∈ plan.fragments ∧ OccursIn comparison text := by
  obtain ⟨text, htext, hoccurs⟩ :=
    exists_filterText (List.mem_filterMap.2 ⟨clause, hclause, h⟩)
  exact ⟨text, List.mem_append_right _ (List.mem_map.2 ⟨text, htext, rfl⟩), hoccurs⟩

/-- The triples of a plan are among its fragments. -/
theorem triple_mem_fragments {t : Triple} (h : t ∈ plan.triples) :
    .own t.text ∈ plan.fragments := by
  rw [triples, List.mem_append, List.mem_flatMap] at h
  rcases h with hdefault | ⟨clause, hclause, ht⟩
  · refine List.mem_append_left _ (List.mem_append_left _ (List.mem_map.2 ⟨t.text, ?_, rfl⟩))
    rw [Option.mem_toList] at hdefault ⊢
    rw [hdefault]
    rfl
  · refine own_mem_fragments hclause ?_
    cases clause with
    | triple other =>
        rw [List.mem_singleton.1 ht]
        exact List.mem_singleton.2 rfl
    | nested | values | existence | pattern | filter =>
        refine List.mem_append_left _ ?_
        rw [Clause.triples, Option.mem_toList] at ht
        · rw [ht]
          exact List.mem_singleton.2 rfl
        · intro other hother
          cases hother

/-- Every clause of a plan is written in the text of the plan. -/
theorem writtenIn_combine (hclause : clause ∈ plan.clauses)
    (hone : ∃ own, clause.ownTexts ++ clause.comparison?.toList = [own])
    (conjunction : Conjunction) (textAt : Nat → String) :
    clause.WrittenIn (conjunction.combine (plan.fragments.map (Fragment.text textAt))) := by
  have hfragment : ∀ {text}, .own text ∈ plan.fragments →
      OccursIn text (conjunction.combine (plan.fragments.map (Fragment.text textAt))) :=
    fun htext => conjunction.occursIn_combine (List.mem_map.2 ⟨_, htext, rfl⟩)
  constructor
  · intro t ht
    exact hfragment (own_mem_fragments hclause (by simp [ht]))
  · obtain ⟨own, hown⟩ := hone
    refine ⟨own, hown, ?_⟩
    have hmem : own ∈ clause.ownTexts ++ clause.comparison?.toList := by simp [hown]
    rw [List.mem_append, Option.mem_toList] at hmem
    rcases hmem with htext | hcomparison
    · exact hfragment (own_mem_fragments hclause (List.mem_append_right _ htext))
    · obtain ⟨text, htext, hoccurs⟩ := exists_fragment_of_comparison hclause hcomparison
      exact hoccurs.trans (hfragment htext)

end Plan

/-! ## Leaves and their clauses -/

namespace Draft

/-- A draft holds one clause for each leaf that has been compiled, and a pointer to each nested
group. -/
structure Pairs (draft : Draft) (ctx : Context) (keys : EntityKeys) (subject : String)
    (pairs : List (Leaf × Clause)) (places : List Nat) : Prop where
  makes : ∀ pair ∈ pairs, pair.1.Makes ctx keys subject draft.mappings pair.2
  held : (draft.values ++ draft.conditions).Perm (pairs.map Prod.snd ++ places.map .nested)

theorem pairs_empty (ctx : Context) (keys : EntityKeys) (subject : String) :
    Pairs {} ctx keys subject [] [] where
  makes pair h := by cases h
  held := .refl _

/-- Adding a clause adds it to what is held, wherever it is put. -/
theorem held_add (draft : Draft) (leaf : Leaf) (keys : EntityKeys) (clause : Clause) :
    ((draft.add (keys.kind leaf.field) leaf.operator clause).values ++
        (draft.add (keys.kind leaf.field) leaf.operator clause).conditions).Perm
      (clause :: (draft.values ++ draft.conditions)) := by
  rw [values_add, conditions_add]
  cases leaf.isKeySet keys with
  | true =>
      simp only [if_true, List.append_assoc, List.singleton_append]
      exact List.perm_middle
  | false =>
      simp only [Bool.false_eq_true, if_false, ← List.append_assoc]
      exact List.perm_append_singleton clause _

variable {draft next : Draft} {ctx : Context} {keys : EntityKeys} {subject : String}
  {pairs : List (Leaf × Clause)} {places : List Nat}

/-- Compiling a leaf adds the pair of the leaf and its clause. -/
theorem Pairs.compileLeaf (h : draft.Pairs ctx keys subject pairs places) {leaf : Leaf}
    {trace later : Trace} (hleaf : leaf.compile ctx keys subject draft trace = (.ok next, later)) :
    ∃ clause, next.Pairs ctx keys subject (pairs ++ [(leaf, clause)]) places := by
  obtain ⟨mapping, clause, hmaps, hbecomes, rfl⟩ := Leaf.compile_ok hleaf
  refine ⟨clause, ?_, ?_⟩
  · intro pair hpair
    rw [add_mappings]
    rcases List.mem_append.1 hpair with hold | hnew
    · exact (h.makes pair hold).note leaf.field mapping
    · rw [List.mem_singleton.1 hnew]
      exact .of_becomes hmaps hbecomes
  · refine (held_add _ leaf keys clause).trans ?_
    rw [note_values, note_conditions, List.map_append, List.append_assoc]
    exact (h.held.cons clause).trans List.perm_middle.symm

theorem Pairs.addNested (h : draft.Pairs ctx keys subject pairs places) (index : Nat) :
    (draft.addNested index).Pairs ctx keys subject pairs (places ++ [index]) where
  makes := h.makes
  held := by
    rw [List.map_append, ← List.append_assoc]
    simpa [Draft.addNested] using h.held.append_right [Clause.nested index]

end Draft

/-- A walk makes one clause for each leaf that it passes, in their order, and a pointer to each
nested group. -/
theorem Entry.paired_compileAll {ctx : Context} {keys : EntityKeys} {subject : String}
    {entries : List Entry} {index : Nat} {draft final : Draft} {trace : Trace}
    {pairs : List (Leaf × Clause)} {passed : List Nat}
    (hdraft : draft.Pairs ctx keys subject pairs passed)
    (h : (compileAll ctx keys subject entries index draft trace).result = .ok final) :
    ∃ later, later.map Prod.fst = leaves entries ∧
      final.Pairs ctx keys subject (pairs ++ later) (passed ++ places index entries) := by
  induction entries generalizing index draft trace pairs passed with
  | nil =>
      rw [compileAll] at h
      cases h
      exact ⟨[], rfl, by simpa [places] using hdraft⟩
  | cons entry rest ih =>
      cases entry with
      | leaf own =>
          obtain ⟨next, mid, hown, hrest, _⟩ := compileAll_leaf_ok h
          obtain ⟨clause, hnext⟩ := hdraft.compileLeaf hown
          obtain ⟨later, hleaves, hfinal⟩ := ih hnext hrest
          refine ⟨(own, clause) :: later, by simp [hleaves], ?_⟩
          rwa [List.append_cons]
      | nested inner =>
          obtain ⟨_, mid, hrest, _⟩ := compileAll_nested_ok h
          obtain ⟨later, hleaves, hfinal⟩ := ih (hdraft.addNested index) hrest
          refine ⟨later, by simp [hleaves], ?_⟩
          rwa [List.append_assoc] at hfinal

/-- A plan holds one clause for each own leaf of its group, each made by its leaf in the context,
and besides these it points at the nested groups and lists candidates. -/
structure Group.Expresses (group : Group) (ctx : Context) (plan : Plan)
    (pairs : List (Leaf × Clause)) : Prop where
  leaves : pairs.map Prod.fst = group.ownLeaves
  makes : ∃ subject, Variable.ofName ctx.options.subjectVariable = .ok subject ∧
    ∀ pair ∈ pairs, pair.1.Makes ctx group.keys subject plan.mappings pair.2
  clauses : plan.clauses.Perm (pairs.map Prod.snd ++
    (Entry.places 0 group.entries).map .nested ++ plan.mappings.candidateClauses)

namespace Group

theorem Expresses.congr {group other : Group} {ctx : Context} {plan : Plan}
    {pairs : List (Leaf × Clause)} (h : group.Expresses ctx plan pairs)
    (hbare : other.bare = group.bare) : other.Expresses ctx plan pairs := by
  have hkeys : other.keys = group.keys := by
    simpa using congrArg Group.keys hbare
  have hentries : Entry.bareAll other.entries = Entry.bareAll group.entries := by
    simpa using congrArg Group.entries hbare
  refine ⟨?_, ?_, ?_⟩
  · rw [h.leaves]
    exact (Entry.leaves_eq_of_bareAll_eq hentries).symm
  · rw [hkeys]
    exact h.makes
  · rw [← Entry.places_bareAll other.entries, hentries, Entry.places_bareAll]
    exact h.clauses

/-- The plan of a group, if it has one, expresses its own leaves in one of the contexts in use. -/
theorem expresses_invariant (used : Context → Prop) : Invariant used fun group =>
    ∀ plan, group.plan? = some plan →
      ∃ ctx pairs, used ctx ∧ group.Expresses ctx plan pairs := by
  refine plan_invariant ?_ ?_
  · rintro group other plan hbare ⟨ctx, pairs, hused, h⟩
    exact ⟨ctx, pairs, hused, h.congr hbare⟩
  · intro group ctx subject trace draft triple? hused hsubject hwalk _
    obtain ⟨pairs, hleaves, hpairs⟩ :=
      Entry.paired_compileAll (Draft.pairs_empty ctx group.keys subject) hwalk
    refine ⟨ctx, pairs, hused, hleaves, ⟨subject, hsubject, hpairs.makes⟩, ?_⟩
    have hlisted := (made_walk hwalk).sound.listed
    have hclauses : (draft.finish triple?).clauses.Perm
        (draft.values ++ draft.conditions ++ draft.candidates) := by
      rw [Draft.clauses_finish, Draft.clauses, List.append_assoc, List.append_assoc]
      exact List.perm_append_comm.append_left _
    rw [hlisted] at hclauses
    exact hclauses.trans (hpairs.held.append_right _)

/-! ## Texts of compiled groups -/

/-- The text of a compiled group. -/
def text (group : Group) : String :=
  match (group.render []).result with
  | .ok text => text
  | .error _ => ""

/-- A text that has been kept is still the one that the plan gives. -/
def TextKept (group : Group) : Prop :=
  ∀ plan text, group.state = .rendered plan text →
    plan.text group.conjunction (Entry.textAt group.entries) = .ok text

theorem textKept_of_building {group : Group} (h : group.state = .building) : group.TextKept := by
  intro plan text hrendered
  rw [h] at hrendered
  cases hrendered

/-- Texts are kept up to date by every operation. -/
theorem textKept_invariant (used : Context → Prop) : Invariant used TextKept where
  new conjunction keys := textKept_of_building rfl
  pushLeaf group leaf _ hstate _ _ := textKept_of_building hstate
  pushNested group inner _ hstate := textKept_of_building hstate
  stop group ctx subject trace _ hstate := textKept_of_building hstate
  finish group ctx subject trace draft triple? _ _ _ _ _ _ _ := by
    intro plan text hrendered
    cases hrendered
  fail group plan _ hstate := by
    intro other text hrendered
    have hrendered : group.state = .rendered other text := hrendered
    rw [hstate] at hrendered
    cases hrendered
  render group plan text _ _ htext := by
    intro other kept hrendered
    cases hrendered
    have hentries := textAt_rendered group.entries
    unfold withText
    rw [hentries]
    exact htext

/-- What is known of every group in a tree that a run leads to. -/
structure Legible (used : Context → Prop) (group : Group) : Prop where
  settled : group.Settled
  stored : group.WellStored
  contained : group.Contained used
  planned : group.Planned used
  expressed : ∀ plan, group.plan? = some plan →
    ∃ ctx pairs, used ctx ∧ group.Expresses ctx plan pairs
  textKept : group.TextKept

/-- Every tree that a run leads to is legible. -/
theorem legible_of_reaches {steps : List WorkspaceStep} {group : Group}
    (h : Workspace.Reaches steps group) : group.Everywhere (Legible (Workspace.Uses steps)) :=
  fun inner hinner =>
    { settled := (settled_invariant _).everywhere h inner hinner
      stored := (wellStored_invariant _).everywhere h inner hinner
      contained := (contained_invariant _).everywhere h inner hinner
      planned := (planned_invariant _).everywhere h inner hinner
      expressed := (expresses_invariant _).everywhere h inner hinner
      textKept := (textKept_invariant _).everywhere h inner hinner }

/-- What all operations keep makes a group legible. -/
theorem Built.legible {group : Group} (h : group.Built) : group.Everywhere (Legible fun _ => True) :=
  fun deep hdeep =>
    { settled := h _ (settled_invariant _) deep hdeep
      stored := h _ (wellStored_invariant _) deep hdeep
      contained := h _ (contained_invariant _) deep hdeep
      planned := h _ (planned_invariant _) deep hdeep
      expressed := h _ (expresses_invariant _) deep hdeep
      textKept := h _ (textKept_invariant _) deep hdeep }

/-- A compiled group has its text. -/
theorem render_eq_text {group : Group} (h : group.Everywhere Settled)
    (hphase : group.phase ≠ .building) (trace : Trace) :
    (group.render trace).result = .ok group.text := by
  obtain ⟨text, htext⟩ := render_of_settled h hphase []
  rw [(group.render_steady trace []).1, Group.text, htext]

end Group

/-- The text of the nested group at a place. -/
def Entry.nestedText (entries : List Entry) (place : Nat) : String :=
  match entries[place]? with
  | some (.nested inner) => inner.text
  | _ => ""

theorem Entry.nestedText_eq {entries : List Entry} {place : Nat} {inner : Group}
    (h : entries[place]? = some (.nested inner)) : nestedText entries place = inner.text := by
  rw [nestedText, h]

namespace Group

variable {used : Context → Prop} {group : Group} {plan : Plan}

/-- The plan of a compiled group gives the texts of its fragments. -/
theorem texts_eq (h : group.Everywhere (Legible used)) (hplan : group.plan? = some plan)
    (hphase : group.phase ≠ .building) :
    plan.texts (Entry.textAt group.entries) =
      .ok (plan.fragments.map (Fragment.text (Entry.nestedText group.entries))) := by
  refine Plan.texts_eq fun place hplace => ?_
  obtain ⟨inner, hinner⟩ := (h.self.settled.nested_mem_clauses_iff hplan place).1 hplace
  have hmem := List.mem_of_getElem? hinner
  rw [Entry.textAt_of_nested hinner, Entry.nestedText_eq hinner]
  exact render_eq_text ((h.nested hmem).mono fun _ hdeep => hdeep.settled)
    (h.self.settled.compiled hphase inner hmem) []

/-- Rendered or not, the text of a compiled group is that of its plan. -/
theorem text_eq (h : group.Everywhere (Legible used)) (hplan : group.plan? = some plan)
    (hphase : group.phase ≠ .building) :
    group.text = group.conjunction.combine
      (plan.fragments.map (Fragment.text (Entry.nestedText group.entries))) := by
  have hplanText : plan.text group.conjunction (Entry.textAt group.entries) =
      .ok (group.conjunction.combine
        (plan.fragments.map (Fragment.text (Entry.nestedText group.entries)))) := by
    rw [Plan.text, texts_eq h hplan hphase]
    exact congrArg Except.ok (group.conjunction.join_fragments _)
  have hrender : (group.render []).result =
      plan.text group.conjunction (Entry.textAt group.entries) := by
    cases hstate : group.state with
    | building => exact absurd (phase_eq_building_iff.2 hstate) hphase
    | compiled other =>
        rw [plan?, hstate] at hplan
        cases hplan
        exact render_of_compiled hstate []
    | rendered other text =>
        rw [plan?, hstate] at hplan
        cases hplan
        rw [render_of_rendered hstate, h.self.textKept plan text hstate]
  rw [text, hrender, hplanText]

/-- A nested group is a fragment of the group around it. -/
theorem nestedText_mem (h : group.Everywhere (Legible used)) (hplan : group.plan? = some plan)
    {place : Nat} {inner : Group} (hplace : group.entries[place]? = some (.nested inner)) :
    inner.text ∈ plan.fragments.map (Fragment.text (Entry.nestedText group.entries)) := by
  have hclause := (h.self.settled.nested_mem_clauses_iff hplan place).2 ⟨inner, hplace⟩
  refine List.mem_map.2 ⟨.nested place, ?_, Entry.nestedText_eq hplace⟩
  exact List.mem_append_left _ (List.mem_append_right _
    (List.mem_flatMap.2 ⟨_, hclause, List.mem_singleton.2 rfl⟩))

/-- A tree of unions only. -/
def OnlyUnions (group : Group) : Prop :=
  group.Everywhere fun inner => inner.conjunction = .or

instance : DecidablePred OnlyUnions :=
  fun group => inferInstanceAs (Decidable (group.Everywhere fun inner => inner.conjunction = .or))

/-- The text of a compiled group is empty exactly when the tree consists of unions. -/
theorem text_eq_empty_iff (h : group.Everywhere (Legible used)) (hphase : group.phase ≠ .building) :
    group.text = "" ↔ group.OnlyUnions := by
  induction group using nestedInduction with
  | step group ih =>
      obtain ⟨plan, hplan⟩ := exists_plan hphase
      rw [text_eq h hplan hphase, Conjunction.combine_eq_empty_iff]
      cases hconjunction : group.conjunction with
      | and =>
          -- The plan of an AND group has a triple, and no triple is empty.
          obtain ⟨ctx, subject, _, _, hself⟩ := h.self.contained.plan hconjunction plan hplan
          obtain ⟨t, ht, _⟩ := hself.anchored.1
          constructor
          · intro hempty
            have htext : t.text = "" :=
              hempty _ (List.mem_map.2 ⟨_, Plan.triple_mem_fragments ht, rfl⟩)
            exact absurd htext (by simp [Triple.text])
          · intro hunions
            have hor : group.conjunction = .or := hunions.self
            rw [hconjunction] at hor
            cases hor
      | or =>
          obtain ⟨ctx, _, hplanned⟩ := h.self.planned plan hplan
          obtain ⟨hnone, hnested⟩ := hplanned.of_union h.self.stored hconjunction
          have hinner : ∀ inner, .nested inner ∈ group.entries →
              (inner.text = "" ↔ inner.OnlyUnions) := fun inner hmem =>
            ih inner hmem (h.nested hmem) (h.self.settled.compiled hphase inner hmem)
          constructor
          · intro hempty
            refine everywhere_iff.2 ⟨hconjunction, fun inner hmem => (hinner inner hmem).1 ?_⟩
            obtain ⟨place, hplace⟩ := List.mem_iff_getElem?.1 hmem
            exact hempty _ (nestedText_mem h hplan hplace)
          · intro hunions text htext
            rw [Plan.fragments_of_nested hnone hnested] at htext
            obtain ⟨fragment, hfragment, rfl⟩ := List.mem_map.1 htext
            obtain ⟨place, hplace, rfl⟩ := List.mem_map.1 hfragment
            obtain ⟨clause, hclause, hpoints⟩ := List.mem_filterMap.1 hplace
            obtain ⟨other, rfl⟩ := hnested clause hclause
            cases hpoints
            obtain ⟨inner, hat⟩ := (h.self.settled.nested_mem_clauses_iff hplan place).1 hclause
            have hmem := List.mem_of_getElem? hat
            rw [Fragment.text, Entry.nestedText_eq hat]
            exact (hinner inner hmem).2 (hunions.nested hmem)

/-- The texts of all groups within a compiled group stand in its text. -/
theorem occursIn_text {inner : Group} (hinner : inner.Within group)
    (h : group.Everywhere (Legible used)) (hphase : group.phase ≠ .building) :
    OccursIn inner.text group.text := by
  induction hinner with
  | self => exact .refl _
  | @nested middle outer mem _ ih =>
      obtain ⟨plan, hplan⟩ := exists_plan hphase
      obtain ⟨place, hplace⟩ := List.mem_iff_getElem?.1 mem
      refine (ih (h.nested mem) (h.self.settled.compiled hphase middle mem)).trans ?_
      rw [text_eq h hplan hphase]
      exact Conjunction.occursIn_combine _ (nestedText_mem h hplan hplace)

/-- The own conditions of a group are all written in a text. -/
def WrittenIn (used : Context → Prop) (group : Group) (text : String) : Prop :=
  ∃ plan ctx pairs, group.plan? = some plan ∧ used ctx ∧ group.Expresses ctx plan pairs ∧
    ∀ pair ∈ pairs, pair.2.WrittenIn text

/-- The own conditions of a compiled group are written in its text. -/
theorem writtenIn_text (h : group.Everywhere (Legible used)) (hphase : group.phase ≠ .building) :
    group.WrittenIn used group.text := by
  obtain ⟨plan, hplan⟩ := exists_plan hphase
  obtain ⟨ctx, pairs, hused, hexpresses⟩ := h.self.expressed plan hplan
  refine ⟨plan, ctx, pairs, hplan, hused, hexpresses, fun pair hpair => ?_⟩
  obtain ⟨subject, _, hmakes⟩ := hexpresses.makes
  obtain ⟨mapping, _, hbecomes⟩ := hmakes pair hpair
  have hclause : pair.2 ∈ plan.clauses := by
    refine hexpresses.clauses.mem_iff.2 (List.mem_append_left _ (List.mem_append_left _ ?_))
    exact List.mem_map.2 ⟨pair, hpair, rfl⟩
  rw [text_eq h hplan hphase]
  exact Plan.writtenIn_combine hclause hbecomes.exists_expression _ _

theorem WrittenIn.mono {text whole : String} (h : group.WrittenIn used text)
    (hwhole : OccursIn text whole) : group.WrittenIn used whole := by
  obtain ⟨plan, ctx, pairs, hplan, hused, hexpresses, hwritten⟩ := h
  exact ⟨plan, ctx, pairs, hplan, hused, hexpresses, fun pair hpair =>
    (hwritten pair hpair).mono hwhole⟩

/-- A nested group is left out of a text only if it consists of unions, or if it is there already:
its text is empty, or is put among the fragments. -/
def KeepsNested (group : Group) : Prop :=
  ∃ plan texts, group.plan? = some plan ∧ plan.texts (Entry.textAt group.entries) = .ok texts ∧
    group.text = group.conjunction.join (group.conjunction.fragments texts) ∧
    ∀ inner, .nested inner ∈ group.entries → inner.text ∈ texts ∧
      (inner.text = "" ∧ inner.OnlyUnions ∨ ¬ inner.OnlyUnions ∧
        group.conjunction.wrap inner.text ∈ group.conjunction.fragments texts)

theorem keepsNested (h : group.Everywhere (Legible used)) (hphase : group.phase ≠ .building) :
    group.KeepsNested := by
  obtain ⟨plan, hplan⟩ := exists_plan hphase
  refine ⟨plan, _, hplan, texts_eq h hplan hphase, ?_, fun inner hmem => ?_⟩
  · rw [Conjunction.join_fragments, text_eq h hplan hphase]
  · obtain ⟨place, hplace⟩ := List.mem_iff_getElem?.1 hmem
    have htext := nestedText_mem h hplan hplace
    have hempty := text_eq_empty_iff (h.nested hmem) (h.self.settled.compiled hphase inner hmem)
    refine ⟨htext, ?_⟩
    by_cases hunions : inner.OnlyUnions
    · exact .inl ⟨hempty.2 hunions, hunions⟩
    · exact .inr ⟨hunions, Conjunction.wrap_mem_fragments _ htext fun h => hunions (hempty.1 h)⟩

end Group

/-- No condition is lost.  Let a group that a run leads to, at any depth, be compiled or rendered.
Its text is empty exactly when the tree consists of unions; a nested group with another text is one
of its fragments; and the clauses of all leaves within it are written in its text, with the triples
that bind their variables. -/
theorem Workspace.nothing_lost_of_reaches {steps : List WorkspaceStep} {group inner : Group}
    (hreach : Reaches steps group) (hinner : inner.Within group)
    (hphase : inner.phase ≠ .building) :
    (∀ trace, (inner.render trace).result = .ok inner.text) ∧
      (inner.text = "" ↔ inner.OnlyUnions) ∧ inner.KeepsNested ∧
      ∀ deep : Group, deep.Within inner → deep.WrittenIn (Uses steps) inner.text := by
  have hgroup := Group.legible_of_reaches hreach
  have h : inner.Everywhere (Group.Legible (Uses steps)) :=
    fun deep hdeep => hgroup deep (hdeep.trans hinner)
  refine ⟨Group.render_eq_text (h.mono fun _ hdeep => hdeep.settled) hphase,
    Group.text_eq_empty_iff h hphase, Group.keepsNested h hphase, fun deep hdeep => ?_⟩
  have hbelow : inner.Everywhere fun below => below.phase ≠ .building :=
    (h.mono fun _ hbelow => hbelow.settled).descend (fun below hbelow => hbelow.compiled) hphase
  have hown := Group.writtenIn_text (fun below hin => h below (hin.trans hdeep)) (hbelow deep hdeep)
  exact hown.mono (Group.occursIn_text hdeep h hphase)

/-- Pages as above, with an empty union of unions beside the conditions. -/
def Sample.withHollow : List WorkspaceStep :=
  building ++ [.makeSibling "none" "page" .or, .makeSibling "hollow" "page" .or,
    .nest "hollow" "none", .nest "page" "hollow", .compile "page" context]

/-- The empty union is left out of the text of the page, and all leaves are written in it. -/
theorem Workspace.nothing_lost_of_withHollow :
    ∃ page hollow, Reaches Sample.withHollow page ∧ page.phase ≠ .building ∧
      page.at? [2] = some hollow ∧ hollow.text = "" ∧
      page.text = Sample.renderedPage.text ∧ page.text ≠ "" ∧
      ∀ deep : Group, deep.Within page →
        deep.WrittenIn (Uses Sample.withHollow) page.text := by
  have hreach : ∃ page, Reaches Sample.withHollow page ∧ page.phase ≠ .building ∧
      page.text = Sample.renderedPage.text ∧ ∃ hollow, page.at? [2] = some hollow ∧
        hollow.phase ≠ .building ∧ hollow.OnlyUnions ∧ ¬ page.OnlyUnions :=
    ⟨_, ⟨"page", rfl⟩, by decide +kernel, rfl, _, rfl, by decide +kernel, by decide +kernel,
      by decide +kernel⟩
  obtain ⟨page, hpage, hphase, htext, hollow, hat, hhollow, hunions, hnot⟩ := hreach
  have hinner := Group.within_of_at? hat
  refine ⟨page, hollow, hpage, hphase, hat, ?_, htext, ?_, ?_⟩
  · exact (nothing_lost_of_reaches hpage hinner hhollow).2.1.2 hunions
  · exact fun h => hnot ((nothing_lost_of_reaches hpage (.self _) hphase).2.1.1 h)
  · exact (nothing_lost_of_reaches hpage (.self _) hphase).2.2.2

end GraphCriteria
