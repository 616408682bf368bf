import GraphCriteria.Proofs.OnePass

/-!
# The order of entries

The entries of a group may be described in any order.  Whether building and compiling succeed does
not depend on it, though every step of the walk over the entries finds other mappings in its draft;
and the plans of two orders have the same mappings, the same fragments apart from the filter, and
the same comparisons, each as often.

Main results:

- Theorem `Draft.Sound.exists_compile_iff`: a leaf compiles in a draft exactly when it does on its
  own.
- Theorem `Entry.exists_compileAll_iff`: a walk succeeds exactly when each entry compiles on its
  own.
- Theorem `Group.compile_ok_iff`: so a group compiles exactly when its parts do.
- Theorem `Group.writes_of_compile`: what a compiled group writes, given the texts of its nested
  groups.
- Theorem `Group.written_of_compile`: what it writes, read off its entries.
- Theorem `GroupDescription.reorder`: two orders of the entries of a described group are compiled to
  the same conditions.
-/

namespace GraphCriteria

/-! ## Entries on their own -/

/-- A leaf has a mapping and a clause, whatever is known already. -/
def Leaf.Compilable (leaf : Leaf) (ctx : Context) (keys : EntityKeys) (subject : String) : Prop :=
  ∃ mapping clause, (ctx.findMapping (keys.kind leaf.field) leaf.field []).1 = .ok mapping ∧
    (leaf.clause ctx subject (keys.kind leaf.field) mapping []).1 = .ok clause

/-- An entry compiles on its own. -/
def Entry.Compilable (entry : Entry) (ctx : Context) (keys : EntityKeys) (subject : String) :
    Prop :=
  match entry with
  | .leaf own => own.Compilable ctx keys subject
  | .nested inner => (inner.compile ctx []).result = .ok ()

theorem Context.Functional.findMapping {ctx : Context} (hctx : ctx.Functional) (kind : FieldKind)
    (field : String) : (ctx.findMapping kind field).Steady :=
  Pass.closed_steady.findMapping (hctx.resolve field) kind

namespace Draft

variable {draft : Draft} {ctx : Context} {keys : EntityKeys} {subject : String} {done : List Leaf}

/-- Fetching the mapping of a field gives the one that the host has for it, known already or not. -/
theorem Sound.fetch_iff (hctx : ctx.Functional) (h : draft.Sound ctx keys subject done)
    {field : String} {mapping : FieldMapping} (trace : Trace) :
    (∃ next, (draft.fetch ctx (keys.kind field) field trace).1 = .ok (mapping, next)) ↔
      (ctx.findMapping (keys.kind field) field []).1 = .ok mapping := by
  constructor
  · rintro ⟨next, hfetch⟩
    obtain ⟨start, hfound⟩ := h.found_of_maps (fetch_ok (Prod.ext hfetch rfl)).1
    rwa [hctx.findMapping _ _ [] start]
  · intro hfound
    cases hknown : draft.mappings.get? field with
    | some known =>
        -- What is remembered was found before, so it is the same.
        obtain ⟨start, hstart⟩ := h.found _ (Memo.mem_entries_of_get? hknown)
        rw [hctx.findMapping _ _ start [], hfound] at hstart
        cases hstart
        have hfetch : draft.mappings.fetch field (ctx.findMapping (keys.kind field) field) trace =
            (.ok ⟨known, false, draft.mappings⟩, trace) := by
          rw [Memo.fetch_of_get? hknown]
          rfl
        exact ⟨_, Pass.fst_bind_eq_ok.2 ⟨_, _, hfetch, rfl⟩⟩
    | none =>
        rw [hctx.findMapping _ _ [] trace] at hfound
        have hfetch : (draft.mappings.fetch field (ctx.findMapping (keys.kind field) field)
            trace).1 = .ok ⟨mapping, true, draft.mappings.push field mapping⟩ := by
          rw [Memo.fetch, hknown]
          exact Pass.fst_bind_eq_ok.2 ⟨mapping, _, Prod.ext hfound rfl, rfl⟩
        exact ⟨_, Pass.fst_bind_eq_ok.2 ⟨_, _, Prod.ext hfetch rfl, rfl⟩⟩

/-- A leaf compiles in a draft exactly when it does on its own. -/
theorem Sound.exists_compile_iff (hctx : ctx.Functional) (h : draft.Sound ctx keys subject done)
    (leaf : Leaf) (trace : Trace) :
    (∃ next, (leaf.compile ctx keys subject draft trace).1 = .ok next) ↔
      leaf.Compilable ctx keys subject := by
  constructor
  · rintro ⟨next, hleaf⟩
    obtain ⟨⟨mapping, noted⟩, mid, hfetch, hleaf⟩ := Pass.fst_bind_eq_ok.1 hleaf
    obtain ⟨clause, mid', hclause, _⟩ := Pass.fst_bind_eq_ok.1 hleaf
    refine ⟨mapping, clause, (h.fetch_iff hctx trace).1 ⟨noted, congrArg Prod.fst hfetch⟩, ?_⟩
    rw [hctx.clause leaf subject _ mapping [] mid, hclause]
  · rintro ⟨mapping, clause, hfound, hclause⟩
    obtain ⟨noted, hfetch⟩ := (h.fetch_iff hctx trace).2 hfound
    have hclause' : ∀ mid, (leaf.clause ctx subject (keys.kind leaf.field) mapping mid).1 =
        .ok clause := fun mid => (hctx.clause leaf subject _ mapping mid []).trans hclause
    refine ⟨noted.add (keys.kind leaf.field) leaf.operator clause, ?_⟩
    refine Pass.fst_bind_eq_ok.2 ⟨(mapping, noted), _, Prod.ext hfetch rfl, ?_⟩
    exact Pass.fst_bind_eq_ok.2 ⟨clause, _, Prod.ext (hclause' _) rfl, rfl⟩

end Draft

/-- A walk succeeds exactly when each entry compiles on its own. -/
theorem Entry.exists_compileAll_iff {ctx : Context} {keys : EntityKeys} {subject : String}
    (hctx : ctx.Functional) {entries : List Entry} {index : Nat} {draft : Draft} {trace : Trace}
    {done : List Leaf} (h : draft.Sound ctx keys subject done) :
    (∃ final, (compileAll ctx keys subject entries index draft trace).result = .ok final) ↔
      ∀ entry ∈ entries, entry.Compilable ctx keys subject := by
  -- What the draft remembers differs from order to order; that it is sound is enough.
  induction entries generalizing index draft trace done with
  | nil => simp [compileAll]
  | cons entry rest ih =>
      rw [List.forall_mem_cons]
      cases entry with
      | leaf own =>
          have hown := h.exists_compile_iff hctx own trace
          constructor
          · rintro ⟨final, hfinal⟩
            obtain ⟨next, mid, hnext, hrest, _⟩ := compileAll_leaf_ok hfinal
            exact ⟨hown.1 ⟨next, congrArg Prod.fst hnext⟩,
              (ih (h.compileLeaf hnext)).1 ⟨final, hrest⟩⟩
          · rintro ⟨hfirst, hlater⟩
            obtain ⟨next, hok⟩ := hown.2 hfirst
            have hnext : own.compile ctx keys subject draft trace = (.ok next, _) :=
              Prod.ext hok rfl
            obtain ⟨final, hfinal⟩ := (ih (h.compileLeaf hnext)).2 hlater
            refine ⟨final, ?_⟩
            rw [compileAll, hnext]
            exact hfinal
      | nested inner =>
          have hinner : (inner.compile ctx trace).result = (inner.compile ctx []).result :=
            (inner.compile_steady hctx trace []).1
          constructor
          · rintro ⟨final, hfinal⟩
            obtain ⟨hok, mid, hrest, _⟩ := compileAll_nested_ok hfinal
            exact ⟨hinner.symm.trans hok, (ih (h.addNested index)).1 ⟨final, hrest⟩⟩
          · rintro ⟨hok, hlater⟩
            obtain ⟨final, hfinal⟩ := (ih (h.addNested index)).2 hlater
            refine ⟨final, ?_⟩
            rw [compileAll, hinner.trans hok]
            exact hfinal

/-- A group that is being built compiles exactly when its subject is a variable, each entry compiles
on its own, and its bundle is a variable if it is written. -/
theorem Group.compile_ok_iff {group : Group} {ctx : Context} (hctx : ctx.Functional)
    (hstate : group.state = .building) (trace : Trace) :
    (group.compile ctx trace).result = .ok () ↔ ∃ subject triple?,
      Variable.ofName ctx.options.subjectVariable = .ok subject ∧
      (∀ entry ∈ group.entries, entry.Compilable ctx group.keys subject) ∧
      group.defaultBundle ctx subject = .ok triple? := by
  constructor
  · intro hcompile
    obtain ⟨subject, draft, triple?, hsubject, hwalk, hbundle, _⟩ := compile_ok hstate hcompile
    exact ⟨subject, triple?, hsubject, (Entry.exists_compileAll_iff hctx
      (Draft.sound_empty ctx group.keys subject)).1 ⟨draft, hwalk⟩, hbundle⟩
  · rintro ⟨subject, triple?, hsubject, hentries, hbundle⟩
    obtain ⟨draft, hwalk⟩ : ∃ draft, (group.walk ctx subject trace).result = .ok draft :=
      (Entry.exists_compileAll_iff hctx (Draft.sound_empty ctx group.keys subject)).2 hentries
    rw [compile_eq_of_walk hstate hsubject hwalk hbundle]

/-! ## What a compiled group writes -/

namespace Group

/-- The texts of a group before its filter, in one pass. -/
def bodyTexts (group : Group) (ctx : Context) : List String :=
  ctx.bundleTexts group.conjunction group.keys group.ownLeaves ++
    group.ownLeaves.flatMap (·.keySetTexts ctx group.keys) ++
    ctx.candidateTexts group.keys group.ownLeaves ++
    Entry.otherTexts ctx group.keys group.entries

/-- The texts of a group before its filter, where its nested groups have the given texts. -/
def bodyTextsWith (nestedText : Group → String) (group : Group) (ctx : Context) : List String :=
  ctx.bundleTexts group.conjunction group.keys group.ownLeaves ++
    group.ownLeaves.flatMap (·.keySetTexts ctx group.keys) ++
    ctx.candidateTexts group.keys group.ownLeaves ++
    group.entries.flatMap (Entry.textsWith nestedText ctx group.keys)

/-- The comparisons of a group, in one pass. -/
def comparisonTexts (group : Group) (ctx : Context) : List String :=
  group.ownLeaves.flatMap (·.comparisonTexts ctx group.keys)

/-- A compiled group writes some texts and one filter for some comparisons, and renders to the
fragments made of them. -/
def Writes (group : Group) (body comparisons : List String) : Prop :=
  ∃ plan, group.plan? = some plan ∧
    plan.clauses.filterMap Clause.comparison? = comparisons ∧
    plan.texts (Entry.textAt group.entries) = .ok (body ++ filterTexts comparisons) ∧
    ∀ trace, (group.render trace).result = .ok (group.conjunction.join
      (group.conjunction.fragments (body ++ filterTexts comparisons)))

/-- In a tree that is being built, every group compiles to the text of one pass. -/
theorem render_of_marked {group : Group} {ctx : Context} (hctx : ctx.Functional)
    (hmarked : group.Everywhere Marked) (hbuilding : group.AllBuilding) {trace : Trace}
    (hcompile : (group.compile ctx trace).result = .ok ()) (later : Trace) :
    ((group.compile ctx trace).left.render later).result = .ok (group.reference ctx) := by
  induction group using nestedInduction generalizing trace later with
  | step group ih =>
      refine render_of_compile hctx hmarked.self (phase_eq_building_iff.1 hbuilding.self) ?_
        hcompile later
      intro inner hinner trace later hcompile
      exact ih inner hinner (hmarked.nested hinner) (hbuilding.nested hinner) hcompile later

end Group

/-- A draft remembers the fields of the leaves passed so far, with the mappings that the host has
for them. -/
theorem Draft.Reads.get?_mappings {draft : Draft} {ctx : Context} {keys : EntityKeys}
    {nestedText? : Nat → Except ConditionError String} {nestedText : Group → String}
    {done : List Entry} (hctx : ctx.Functional)
    (h : draft.Reads ctx keys nestedText? nestedText done) (field : String) :
    draft.mappings.get? field =
      if field ∈ (Entry.leaves done).map Leaf.field then
        some (ctx.mappingOf (keys.kind field) field) else none := by
  have hfields : field ∈ draft.mappings.fields ↔ field ∈ (Entry.leaves done).map Leaf.field := by
    rw [h.fields, List.mem_eraseDups]
  cases hknown : draft.mappings.get? field with
  | none => rw [if_neg fun hmem => Memo.get?_eq_none_iff.1 hknown (hfields.2 hmem)]
  | some mapping =>
      have hentry := Memo.mem_entries_of_get? hknown
      obtain ⟨start, hfound⟩ := h.sound.found _ hentry
      have hmapping : mapping = ctx.mappingOf (keys.kind field) field := hctx.eq_mappingOf hfound
      rw [if_pos (hfields.1 (List.mem_map_of_mem hentry)), hmapping]

namespace Group

/-- Compiling keeps whether a group is to be linked to its bundle. -/
theorem needsDefaultBundle_compile (group : Group) (ctx : Context) (trace : Trace) :
    (group.compile ctx trace).left.needsDefaultBundle = group.needsDefaultBundle := by
  have hmark := congrArg Group.lacksBundle (bare_compile ctx group trace)
  simp only [bare_lacksBundle] at hmark
  rw [needsDefaultBundle, needsDefaultBundle, conjunction_compile, hmark]

/-- What a compiled group writes and the mappings it knows, if its nested groups have the given
texts. -/
theorem writes_of_compile {group : Group} {ctx : Context} {nestedText : Group → String}
    (hctx : ctx.Functional) (hmarked : group.Marked) (hbuilding : group.state = .building)
    (hnested : ∀ inner, .nested inner ∈ group.entries → ∀ trace later,
      (inner.compile ctx trace).result = .ok () →
        ((inner.compile ctx trace).left.render later).result = .ok (nestedText inner))
    {trace : Trace} (hcompile : (group.compile ctx trace).result = .ok ()) :
    (group.compile ctx trace).left.Writes (bodyTextsWith nestedText group ctx)
        (group.comparisonTexts ctx) ∧
      ∀ field, (group.compile ctx trace).left.fieldMapping? field =
        if field ∈ group.ownLeaves.map Leaf.field then
          some (ctx.mappingOf (group.keys.kind field) field) else none := by
  obtain ⟨entries, draft, triple?, hleft, hreads, hbundle⟩ :=
    reads_of_compile hctx hbuilding hnested hcompile
  have htexts : (draft.finish triple?).texts (Entry.textAt entries) =
      .ok (bodyTextsWith nestedText group ctx ++ filterTexts (group.comparisonTexts ctx)) := by
    rw [hreads.texts_finish hctx, defaultBundle_texts hmarked hbundle, filterTexts_eq]
    rfl
  rw [hleft]
  refine ⟨⟨draft.finish triple?, rfl, hreads.comparisons_finish triple?, htexts, fun later => ?_⟩,
    hreads.get?_mappings hctx⟩
  rw [render_withPlan, Plan.text, htexts]
  rfl

/-- What a compiled group writes and the mappings it knows, read off its entries. -/
theorem written_of_compile {group : Group} {ctx : Context} (hctx : ctx.Functional)
    (hmarked : group.Everywhere Marked) (hbuilding : group.AllBuilding) {trace : Trace}
    (hcompile : (group.compile ctx trace).result = .ok ()) :
    (group.compile ctx trace).left.Writes (group.bodyTexts ctx) (group.comparisonTexts ctx) ∧
      ∀ field, (group.compile ctx trace).left.fieldMapping? field =
        if field ∈ group.ownLeaves.map Leaf.field then
          some (ctx.mappingOf (group.keys.kind field) field) else none := by
  have hbody : group.bodyTexts ctx = bodyTextsWith (·.reference ctx) group ctx := by
    rw [bodyTexts, Entry.otherTexts_eq]
    rfl
  rw [hbody]
  exact writes_of_compile hctx hmarked.self (phase_eq_building_iff.1 hbuilding.self)
    (fun inner hinner trace later hcompile =>
      render_of_marked hctx (hmarked.nested hinner) (hbuilding.nested hinner) hcompile later)
    hcompile

end Group

/-! ## Other orders -/

/-- What is computed one after another does not depend on the order, apart from its own order. -/
theorem perm_of_cons {α β : Type} {f : List α → List β}
    (hcons : ∀ entry rest, f (entry :: rest) = f [entry] ++ f rest) {entries others : List α}
    (h : entries.Perm others) : (f entries).Perm (f others) := by
  induction h with
  | nil => rfl
  | @cons entry rest others _ ih =>
      rw [hcons entry rest, hcons entry others]
      exact ih.append_left _
  | swap first second rest =>
      rw [hcons second, hcons first rest, hcons first (second :: rest), hcons second rest,
        ← List.append_assoc, ← List.append_assoc]
      exact List.perm_append_comm.append_right _
  | trans _ _ ih ih' => exact ih.trans ih'

namespace EntryDescription

variable (keys : EntityKeys) {entries others : List EntryDescription}

theorem askingFaults_perm (h : entries.Perm others) :
    (askingFaults keys entries).Perm (askingFaults keys others) := by
  refine perm_of_cons (fun entry rest => ?_) h
  cases entry <;> simp only [askingFaults, List.append_nil]

theorem trees_perm (conjunction : Conjunction) (h : entries.Perm others) :
    (trees keys conjunction entries).Perm (trees keys conjunction others) := by
  refine perm_of_cons (fun entry rest => ?_) h
  cases entry <;> simp only [trees, List.cons_append, List.nil_append]

end EntryDescription

theorem Entry.otherTexts_perm (ctx : Context) (keys : EntityKeys) {entries others : List Entry}
    (h : entries.Perm others) :
    (otherTexts ctx keys entries).Perm (otherTexts ctx keys others) :=
  perm_of_cons (fun entry rest => otherTexts_append ctx keys [entry] rest) h

/-- Two groups that are being built and differ in the order of their entries only. -/
structure Group.Reordered (group other : Group) : Prop where
  conjunction : other.conjunction = group.conjunction
  keys : other.keys = group.keys
  lacksBundle : other.lacksBundle = group.lacksBundle
  building : group.state = .building ∧ other.state = .building
  entries : group.entries.Perm other.entries

/-- Described entries in another order stand for a group with its entries in another order. -/
theorem GroupDescription.reordered_tree (keys : EntityKeys) (conjunction : Conjunction)
    {entries others : List EntryDescription} (h : entries.Perm others) :
    (tree keys ⟨conjunction, entries⟩).Reordered (tree keys ⟨conjunction, others⟩) := by
  have htrees := EntryDescription.trees_perm keys conjunction h
  rw [tree, tree]
  exact ⟨rfl, rfl, (htrees.filterMap _).symm.all_eq, ⟨rfl, rfl⟩, htrees⟩

namespace Group.Reordered

variable {group other : Group} {ctx : Context}

theorem ownLeaves (h : group.Reordered other) : group.ownLeaves.Perm other.ownLeaves :=
  h.entries.filterMap _

theorem needsDefaultBundle (h : group.Reordered other) :
    other.needsDefaultBundle = group.needsDefaultBundle := by
  rw [Group.needsDefaultBundle, Group.needsDefaultBundle, h.conjunction, h.lacksBundle]

/-- If a group compiles, then so does every other order of it. -/
theorem compile_ok (h : group.Reordered other) (hctx : ctx.Functional) {trace : Trace}
    (hcompile : (group.compile ctx trace).result = .ok ()) (later : Trace) :
    (other.compile ctx later).result = .ok () := by
  obtain ⟨subject, triple?, hsubject, hentries, hbundle⟩ :=
    (compile_ok_iff hctx h.building.1 trace).1 hcompile
  refine (compile_ok_iff hctx h.building.2 later).2 ⟨subject, triple?, hsubject, ?_, ?_⟩
  · intro entry hentry
    rw [h.keys]
    exact hentries entry (h.entries.mem_iff.2 hentry)
  · rw [defaultBundle, h.needsDefaultBundle, h.keys]
    exact hbundle

/-- The leaves of two orders have the same fields. -/
theorem mem_fields (h : group.Reordered other) (field : String) :
    field ∈ group.ownLeaves.map Leaf.field ↔ field ∈ other.ownLeaves.map Leaf.field :=
  (h.ownLeaves.map Leaf.field).mem_iff

/-- Two orders have the same texts before the filter. -/
theorem mem_bodyTexts (h : group.Reordered other) (ctx : Context) (text : String) :
    text ∈ group.bodyTexts ctx ↔ text ∈ other.bodyTexts ctx := by
  have hbundle : ctx.bundleTexts group.conjunction group.keys group.ownLeaves =
      ctx.bundleTexts group.conjunction group.keys other.ownLeaves := by
    simp only [Context.bundleTexts, h.ownLeaves.mem_iff]
  have hsets := (h.ownLeaves.flatMap_right (·.keySetTexts ctx group.keys)).mem_iff (a := text)
  have hcandidates : text ∈ ctx.candidateTexts group.keys group.ownLeaves ↔
      text ∈ ctx.candidateTexts group.keys other.ownLeaves := by
    simp only [Context.candidateTexts, List.mem_map, List.mem_filter, List.mem_eraseDups,
      h.ownLeaves.mem_iff]
  have hothers := (Entry.otherTexts_perm ctx group.keys h.entries).mem_iff (a := text)
  simp only [bodyTexts, List.mem_append, h.conjunction, h.keys, hbundle, hsets, hcandidates,
    hothers]

/-- Two orders have the same comparisons, each as often. -/
theorem comparisonTexts (h : group.Reordered other) (ctx : Context) :
    (group.comparisonTexts ctx).Perm (other.comparisonTexts ctx) := by
  rw [Group.comparisonTexts, Group.comparisonTexts, h.keys]
  exact h.ownLeaves.flatMap_right _

end Group.Reordered

/-- Texts that are the same, in whatever order, make the same fragments. -/
theorem Conjunction.mem_fragments {texts others : List String}
    (h : ∀ text, text ∈ texts ↔ text ∈ others) (conjunction : Conjunction) (fragment : String) :
    fragment ∈ conjunction.fragments texts ↔ fragment ∈ conjunction.fragments others := by
  simp only [fragments_eq, List.mem_eraseDups, List.mem_map, List.mem_filter, h]

/-! ## Described groups -/

namespace GroupDescription

/-- A description is built and compiled to a group. -/
def Yields (keys : EntityKeys) (ctx : Context) (trace : Trace) (description : GroupDescription)
    (group : Group) : Prop :=
  ∃ built, description.build keys = .ok built ∧ (built.compile ctx trace).result = .ok () ∧
    group = (built.compile ctx trace).left

theorem yields_iff {keys : EntityKeys} {ctx : Context} {trace : Trace}
    {description : GroupDescription} {group : Group} :
    description.Yields keys ctx trace group ↔ description.askingFaults keys = [] ∧
      ((description.tree keys).compile ctx trace).result = .ok () ∧
      group = ((description.tree keys).compile ctx trace).left := by
  unfold Yields
  rw [build_eq]
  cases description.askingFaults keys with
  | nil =>
      constructor
      · rintro ⟨built, hbuild, hcompile⟩
        cases hbuild
        exact ⟨rfl, hcompile⟩
      · rintro ⟨_, hcompile⟩
        exact ⟨_, rfl, hcompile⟩
  | cons e faults =>
      constructor
      · rintro ⟨built, hbuild, _⟩
        cases hbuild
      · rintro ⟨hnone, _⟩
        cases hnone

variable {keys : EntityKeys} {ctx : Context} {conjunction : Conjunction}
  {entries others : List EntryDescription}

/-- If a description is built and compiled, then so is one with its entries in another order. -/
theorem exists_yields (hctx : ctx.Functional) (hperm : entries.Perm others) {trace later : Trace}
    (h : ∃ group, Yields keys ctx trace ⟨conjunction, entries⟩ group) :
    ∃ other, Yields keys ctx later ⟨conjunction, others⟩ other := by
  obtain ⟨group, hgroup⟩ := h
  obtain ⟨haccepted, hcompile, _⟩ := yields_iff.1 hgroup
  have hother : askingFaults keys ⟨conjunction, others⟩ = [] := by
    rw [askingFaults] at haccepted ⊢
    exact List.perm_nil.1 (haccepted ▸ (EntryDescription.askingFaults_perm keys hperm).symm)
  exact ⟨_, yields_iff.2
    ⟨hother, (reordered_tree keys conjunction hperm).compile_ok hctx hcompile later, rfl⟩⟩

/-- The entries of a described group may be in any order.  For each order building and compiling
succeeds or for none; and the compiled groups have the same mappings, are linked to their bundle by
a triple of their own alike, and render to the same fragments apart from the filter, which has the
same comparisons. -/
theorem reorder (hctx : ctx.Functional) (hperm : entries.Perm others) :
    (∀ trace later,
      (∃ group, Yields keys ctx trace ⟨conjunction, entries⟩ group) ↔
        ∃ other, Yields keys ctx later ⟨conjunction, others⟩ other) ∧
      ∀ trace later group other, Yields keys ctx trace ⟨conjunction, entries⟩ group →
        Yields keys ctx later ⟨conjunction, others⟩ other →
          (∀ field, group.fieldMapping? field = other.fieldMapping? field) ∧
          group.needsDefaultBundle = other.needsDefaultBundle ∧
          ∃ body comparisons body' comparisons',
            group.Writes body comparisons ∧ other.Writes body' comparisons' ∧
            (∀ fragment, fragment ∈ conjunction.fragments body ↔
              fragment ∈ conjunction.fragments body') ∧
            comparisons.Perm comparisons' := by
  have hreordered := reordered_tree keys conjunction hperm
  have hmarked : ∀ description : GroupDescription,
      (description.tree keys).Everywhere Group.Marked :=
    everywhere_tree_of fun _ _ => rfl
  refine ⟨fun trace later =>
    ⟨exists_yields hctx hperm, exists_yields hctx hperm.symm⟩, ?_⟩
  intro trace later group other hgroup hother
  obtain ⟨_, hcompile, rfl⟩ := yields_iff.1 hgroup
  obtain ⟨_, hcompile', rfl⟩ := yields_iff.1 hother
  obtain ⟨hwrites, hmappings⟩ :=
    Group.written_of_compile hctx (hmarked _) (allBuilding_tree keys _) hcompile
  obtain ⟨hwrites', hmappings'⟩ :=
    Group.written_of_compile hctx (hmarked _) (allBuilding_tree keys _) hcompile'
  refine ⟨?_, ?_, _, _, _, _, hwrites, hwrites',
    Conjunction.mem_fragments (hreordered.mem_bodyTexts ctx) conjunction,
    hreordered.comparisonTexts ctx⟩
  · intro field
    simp only [hmappings, hmappings', hreordered.mem_fields, hreordered.keys]
  · rw [Group.needsDefaultBundle_compile, Group.needsDefaultBundle_compile,
      hreordered.needsDefaultBundle]

end GroupDescription

/-- Nodes whose tag and title are compared and that have one of two ids. -/
def Sample.compared : List EntryDescription :=
  [.leaf "tag" (some (.single "'a'")) (some ">") none,
    .leaf "title" (some (.single "'z'")) (some "<") none,
    .leaf "nid" (some (.list ["1", "2"])) (some "IN") none]

/-- The reversed order has the same mappings and makes the same fragments, in another order. -/
theorem GroupDescription.reorder_compared :
    ∃ group other, Yields Sample.keys Sample.context [] ⟨.and, Sample.compared⟩ group ∧
      Yields Sample.keys Sample.context [] ⟨.and, Sample.compared.reverse⟩ other ∧
      (∀ field, group.fieldMapping? field = other.fieldMapping? field) ∧
      (group.render []).result.toOption =
        some ("VALUES ?entity \x7b 1 2 \x7d . VALUES ?tag_predicate \x7b <tag> <topic> \x7d . " ++
          "?entity ?tag_predicate ?tag . ?entity <title> ?title . " ++
          "FILTER ((?tag > 'a') && (?title < 'z'))") ∧
      (other.render []).result.toOption =
        some ("VALUES ?entity \x7b 1 2 \x7d . VALUES ?tag_predicate \x7b <tag> <topic> \x7d . " ++
          "?entity <title> ?title . ?entity ?tag_predicate ?tag . " ++
          "FILTER ((?title < 'z') && (?tag > 'a'))") := by
  have hctx : Sample.context.Functional := Context.functional_of_table "node" Sample.table {}
  have hperm : Sample.compared.Perm Sample.compared.reverse :=
    (List.reverse_perm Sample.compared).symm
  have hgroup : Yields Sample.keys Sample.context [] ⟨.and, Sample.compared⟩ _ :=
    yields_iff.2 ⟨rfl, rfl, rfl⟩
  have hother : Yields Sample.keys Sample.context [] ⟨.and, Sample.compared.reverse⟩ _ :=
    yields_iff.2 ⟨rfl, rfl, rfl⟩
  exact ⟨_, _, hgroup, hother, ((reorder hctx hperm).2 [] [] _ _ hgroup hother).1,
    by decide +kernel, by decide +kernel⟩

end GraphCriteria
