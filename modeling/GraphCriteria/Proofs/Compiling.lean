import GraphCriteria.Proofs.Drafts
import GraphCriteria.Proofs.Tree

/-!
# What compiling a group does

Compiling a group ends in one of five ways.  Whichever it is, the tree that is left is the tree
that was given, up to the states of its groups, and a property that each single step keeps is
kept at every depth.

Main results:

- Theorem `Group.compiles`: the five ways in which compiling a group ends.
- Theorem `Group.bare_compile`: compiling changes nothing but the states of groups.
- Theorem `Group.everywhere_compile`: what a single step keeps, compiling keeps at every depth.
- Theorem `Group.compile_steady`: in a functional context, the outcome does not depend on what
  happened before.
-/

namespace GraphCriteria

/-! ## Ways to end -/

/-- The walk over the entries of a group, with the subject of the context. -/
def Group.walk (group : Group) (ctx : Context) (subject : String) (trace : Trace) :
    Outcome (List Entry) Draft :=
  Entry.compileAll ctx group.keys subject group.entries 0 {}
    (trace ++ [.compiling group.conjunction group.entries.length ctx.entityType])

/-- The group that the end of a walk leaves when it does not become compiled. -/
def Group.withEntries (group : Group) (entries : List Entry) : Group :=
  { group with entries := entries }

/-- The group that a finished walk leaves. -/
def Group.withPlan (group : Group) (entries : List Entry) (plan : Plan) : Group :=
  { group with entries := entries, state := .compiled plan }

/-- The ways in which compiling a group ends. -/
inductive Group.Compiles (ctx : Context) (group : Group) (trace : Trace) :
    Outcome Group Unit → Prop where
  /-- The group has been compiled before. -/
  | skipped (hstate : group.state ≠ .building) :
      Compiles ctx group trace ⟨.ok (), group, trace ++ [.skipped]⟩
  /-- The subject is no variable. -/
  | unnamed {e : ConditionError} {later : Trace} (hstate : group.state = .building)
      (hsubject : Variable.ofName ctx.options.subjectVariable = .error e) :
      Compiles ctx group trace ⟨.error e, group, later⟩
  /-- An entry is not accepted. -/
  | stopped {subject : String} {e : ConditionError} (hstate : group.state = .building)
      (hsubject : Variable.ofName ctx.options.subjectVariable = .ok subject)
      (hwalk : (group.walk ctx subject trace).result = .error e) :
      Compiles ctx group trace ⟨.error e, group.withEntries (group.walk ctx subject trace).left,
        (group.walk ctx subject trace).trace⟩
  /-- The bundle is no variable. -/
  | unbound {subject : String} {draft : Draft} {e : ConditionError}
      (hstate : group.state = .building)
      (hsubject : Variable.ofName ctx.options.subjectVariable = .ok subject)
      (hwalk : (group.walk ctx subject trace).result = .ok draft)
      (hbundle : group.defaultBundle ctx subject = .error e) :
      Compiles ctx group trace ⟨.error e, group.withEntries (group.walk ctx subject trace).left,
        (group.walk ctx subject trace).trace⟩
  | finished {subject : String} {draft : Draft} {triple? : Option Triple}
      (hstate : group.state = .building)
      (hsubject : Variable.ofName ctx.options.subjectVariable = .ok subject)
      (hwalk : (group.walk ctx subject trace).result = .ok draft)
      (hbundle : group.defaultBundle ctx subject = .ok triple?) :
      Compiles ctx group trace
        ⟨.ok (), group.withPlan (group.walk ctx subject trace).left (draft.finish triple?),
          (group.walk ctx subject trace).trace⟩

/-- Compiling a group ends in one of these ways. -/
theorem Group.compiles (ctx : Context) (group : Group) (trace : Trace) :
    group.Compiles ctx trace (group.compile ctx trace) := by
  obtain ⟨conjunction, keys, entries, lacksBundle, state⟩ := group
  cases state with
  | building =>
      rw [Group.compile]
      split
      · rename_i e hsubject
        exact .unnamed rfl hsubject
      · rename_i subject hsubject
        dsimp only
        split
        · rename_i e hwalk
          exact .stopped rfl hsubject hwalk
        · rename_i draft hwalk
          split
          · rename_i e hbundle
            exact .unbound rfl hsubject hwalk hbundle
          · rename_i triple? hbundle
            exact .finished rfl hsubject hwalk hbundle
  | compiled plan => exact .skipped (by simp)
  | rendered plan text => exact .skipped (by simp)

/-- Compiling a group succeeds when the walk over its entries does and the subject and the bundle
are variables. -/
theorem Group.compile_ok {group : Group} {ctx : Context} {trace : Trace}
    (hstate : group.state = .building) (h : (group.compile ctx trace).result = .ok ()) :
    ∃ subject draft triple?, Variable.ofName ctx.options.subjectVariable = .ok subject ∧
      (group.walk ctx subject trace).result = .ok draft ∧
      group.defaultBundle ctx subject = .ok triple? ∧
      (group.compile ctx trace).left =
        group.withPlan (group.walk ctx subject trace).left (draft.finish triple?) := by
  have hways := group.compiles ctx trace
  generalize group.compile ctx trace = outcome at h hways ⊢
  cases hways with
  | skipped hcompiled => exact absurd hstate hcompiled
  | unnamed | stopped | unbound => cases h
  | finished _ hsubject hwalk hbundle => exact ⟨_, _, _, hsubject, hwalk, hbundle, rfl⟩

/-- Conversely, compiling succeeds then. -/
theorem Group.compile_eq_of_walk {group : Group} {ctx : Context} {trace : Trace}
    {subject : String} {draft : Draft} {triple? : Option Triple}
    (hstate : group.state = .building)
    (hsubject : Variable.ofName ctx.options.subjectVariable = .ok subject)
    (hwalk : (group.walk ctx subject trace).result = .ok draft)
    (hbundle : group.defaultBundle ctx subject = .ok triple?) :
    group.compile ctx trace =
      ⟨.ok (), group.withPlan (group.walk ctx subject trace).left (draft.finish triple?),
        (group.walk ctx subject trace).trace⟩ := by
  obtain ⟨conjunction, keys, entries, lacksBundle, state⟩ := group
  obtain rfl : state = .building := hstate
  unfold walk at hwalk
  rw [compile, hsubject]
  dsimp only at hwalk ⊢
  rw [hwalk]
  dsimp only
  rw [hbundle]
  rfl

/-- The result of compiling is that of the subject, of the walk over the entries and of the
bundle, in this order. -/
theorem Group.result_compile {group : Group} (hstate : group.state = .building) (ctx : Context)
    (trace : Trace) :
    (group.compile ctx trace).result = (do
      let subject ← Variable.ofName ctx.options.subjectVariable
      let _ ← (group.walk ctx subject trace).result
      let _ ← group.defaultBundle ctx subject
      pure ()) := by
  have hways := group.compiles ctx trace
  generalize group.compile ctx trace = outcome at hways ⊢
  cases hways with
  | skipped hcompiled => exact absurd hstate hcompiled
  | unnamed _ hsubject => rw [hsubject]; rfl
  | stopped _ hsubject hwalk => simp [hsubject, hwalk, bind, Except.bind]
  | unbound _ hsubject hwalk hbundle => simp [hsubject, hwalk, hbundle, bind, Except.bind]
  | finished _ hsubject hwalk hbundle =>
      simp [hsubject, hwalk, hbundle, bind, Except.bind, pure, Except.pure]

/-- A group that has been compiled is left as it is. -/
theorem Group.compile_of_compiled {group : Group} (h : group.state ≠ .building) (ctx : Context)
    (trace : Trace) : group.compile ctx trace = ⟨.ok (), group, trace ++ [.skipped]⟩ := by
  obtain ⟨conjunction, keys, entries, lacksBundle, state⟩ := group
  rw [Group.compile]
  exact h

/-- A group for which compiling succeeds is no longer being built. -/
theorem Group.state_compile {group : Group} {ctx : Context} {trace : Trace}
    (h : (group.compile ctx trace).result = .ok ()) :
    (group.compile ctx trace).left.state ≠ .building := by
  have hways := group.compiles ctx trace
  generalize group.compile ctx trace = outcome at h hways ⊢
  cases hways with
  | skipped hstate => exact hstate
  | unnamed | stopped | unbound => cases h
  | finished => simp [withPlan]

/-- A group for which compiling fails is still being built. -/
theorem Group.state_compile_of_error {group : Group} {ctx : Context} {trace : Trace}
    {e : ConditionError} (h : (group.compile ctx trace).result = .error e) :
    (group.compile ctx trace).left.state = .building := by
  have hways := group.compiles ctx trace
  generalize group.compile ctx trace = outcome at h hways ⊢
  cases hways with
  | skipped | finished => cases h
  | unnamed hstate | stopped hstate | unbound hstate => exact hstate

/-! ## What stays -/

private theorem bare_compile_and_compileAll (ctx : Context) :
    (∀ (group : Group) trace, (group.compile ctx trace).left.bare = group.bare) ∧
      ∀ entries keys subject index draft trace,
        Entry.bareAll (Entry.compileAll ctx keys subject entries index draft trace).left =
          Entry.bareAll entries := by
  refine Group.treeInduction ?_ ?_ ?_ ?_
  · intro conjunction keys entries lacksBundle state ih trace
    have hways := Group.compiles ctx ⟨conjunction, keys, entries, lacksBundle, state⟩ trace
    generalize Group.compile ctx _ trace = outcome at hways ⊢
    cases hways with
    | skipped | unnamed => rfl
    | stopped | unbound | finished =>
        simp only [Group.withEntries, Group.withPlan, Group.walk, Group.bare, ih]
  · intro keys subject index draft trace
    rw [Entry.compileAll]
  · intro leaf rest ih keys subject index draft trace
    rw [Entry.compileAll]
    split
    · rfl
    · simp only [Entry.bareAll, ih]
  · intro inner rest hinner ih keys subject index draft trace
    rw [Entry.compileAll]
    dsimp only
    split
    · simp only [Entry.bareAll, hinner]
    · simp only [Entry.bareAll, hinner, ih]

/-- Compiling changes nothing but the states of groups. -/
theorem Group.bare_compile (ctx : Context) (group : Group) (trace : Trace) :
    (group.compile ctx trace).left.bare = group.bare :=
  (bare_compile_and_compileAll ctx).1 group trace

theorem Group.conjunction_compile (ctx : Context) (group : Group) (trace : Trace) :
    (group.compile ctx trace).left.conjunction = group.conjunction := by
  simpa using congrArg Group.conjunction (bare_compile ctx group trace)

theorem Group.keys_compile (ctx : Context) (group : Group) (trace : Trace) :
    (group.compile ctx trace).left.keys = group.keys := by
  simpa using congrArg Group.keys (bare_compile ctx group trace)

theorem Entry.bareAll_compileAll (ctx : Context) (keys : EntityKeys) (subject : String)
    (entries : List Entry) (index : Nat) (draft : Draft) (trace : Trace) :
    bareAll (compileAll ctx keys subject entries index draft trace).left = bareAll entries :=
  (bare_compile_and_compileAll ctx).2 entries keys subject index draft trace

/-- The walk over the entries of a group leaves its own leaves. -/
theorem Group.leaves_walk (group : Group) (ctx : Context) (subject : String) (trace : Trace) :
    Entry.leaves (group.walk ctx subject trace).left = group.ownLeaves :=
  Entry.leaves_eq_of_bareAll_eq (Entry.bareAll_compileAll ..)

/-! ## What each step keeps -/

/-- A property that is kept when a single group stops or finishes, whatever its nested groups
have become, is kept at every depth of a tree. -/
theorem Group.everywhere_compile {Q : Group → Prop} {ctx : Context}
    (stop : ∀ (group : Group) (subject : String) (trace : Trace), Q group →
      group.state = .building → Q (group.withEntries (group.walk ctx subject trace).left))
    (finish : ∀ (group : Group) (subject : String) (trace : Trace) (draft : Draft)
      (triple? : Option Triple), Q group → group.state = .building →
      Variable.ofName ctx.options.subjectVariable = .ok subject →
      (group.walk ctx subject trace).result = .ok draft →
      group.defaultBundle ctx subject = .ok triple? →
      (∀ inner, .nested inner ∈ (group.walk ctx subject trace).left → Q inner) →
      Q (group.withPlan (group.walk ctx subject trace).left (draft.finish triple?)))
    {group : Group} (h : group.Everywhere Q) (trace : Trace) :
    (group.compile ctx trace).left.Everywhere Q := by
  refine (Group.treeInduction
    (P := fun group => group.Everywhere Q → ∀ trace, (group.compile ctx trace).left.Everywhere Q)
    (R := fun entries => (∀ inner, .nested inner ∈ entries → inner.Everywhere Q) →
      ∀ keys subject index draft trace inner,
        .nested inner ∈ (Entry.compileAll ctx keys subject entries index draft trace).left →
        inner.Everywhere Q) ?_ ?_ ?_ ?_).1 group h trace
  · intro conjunction keys entries lacksBundle state ih h trace
    have hentries := ih (everywhere_iff.1 h).2
    have hways := Group.compiles ctx ⟨conjunction, keys, entries, lacksBundle, state⟩ trace
    generalize Group.compile ctx _ trace = outcome at hways ⊢
    cases hways with
    | skipped | unnamed => exact h
    | stopped hstate | unbound hstate =>
        exact everywhere_iff.2 ⟨stop _ _ _ h.self hstate, fun inner => hentries _ _ _ _ _ inner⟩
    | finished hstate hsubject hwalk hbundle =>
        refine everywhere_iff.2 ⟨?_, fun inner => hentries _ _ _ _ _ inner⟩
        exact finish _ _ _ _ _ h.self hstate hsubject hwalk hbundle
          fun inner hinner => (hentries _ _ _ _ _ inner hinner).self
  · intro _ keys subject index draft trace inner hinner
    rw [Entry.compileAll] at hinner
    simp at hinner
  · intro leaf rest ih h keys subject index draft trace inner hinner
    have hrest := ih fun inner hinner => h inner (by simp [hinner])
    rw [Entry.compileAll] at hinner
    split at hinner
    · exact h inner hinner
    · exact hrest _ _ _ _ _ inner (by simpa using hinner)
  · intro head rest hhead ih h keys subject index draft trace inner hinner
    have hcompiled := hhead (h head (by simp)) trace
    have hrest := ih fun inner hinner => h inner (by simp [hinner])
    rw [Entry.compileAll] at hinner
    dsimp only at hinner
    split at hinner
    · rcases List.mem_cons.1 hinner with heq | hmem
      · cases heq
        exact hcompiled
      · exact h inner (by simp [hmem])
    · rcases List.mem_cons.1 hinner with heq | hmem
      · cases heq
        exact hcompiled
      · exact hrest _ _ _ _ _ inner hmem

/-! ## Walks that succeed -/

namespace Entry

variable {ctx : Context} {keys : EntityKeys} {subject : String} {rest : List Entry}
  {index : Nat} {draft final : Draft} {trace : Trace}

/-- A walk that succeeds has compiled its first leaf and goes on from there. -/
theorem compileAll_leaf_ok {own : Leaf}
    (h : (compileAll ctx keys subject (.leaf own :: rest) index draft trace).result =
      .ok final) :
    ∃ next mid, own.compile ctx keys subject draft trace = (.ok next, mid) ∧
      (compileAll ctx keys subject rest (index + 1) next mid).result = .ok final ∧
      (compileAll ctx keys subject (.leaf own :: rest) index draft trace).left =
        .leaf own :: (compileAll ctx keys subject rest (index + 1) next mid).left := by
  rw [compileAll] at h ⊢
  cases hown : own.compile ctx keys subject draft trace with
  | mk result mid =>
      rw [hown] at h
      cases result with
      | error e => cases h
      | ok next => exact ⟨next, mid, rfl, h, rfl⟩

/-- A walk that succeeds has compiled its first nested group and goes on from there. -/
theorem compileAll_nested_ok {inner : Group}
    (h : (compileAll ctx keys subject (.nested inner :: rest) index draft trace).result =
      .ok final) :
    (inner.compile ctx trace).result = .ok () ∧ ∃ mid,
      (compileAll ctx keys subject rest (index + 1) (draft.addNested index) mid).result =
        .ok final ∧
      (compileAll ctx keys subject (.nested inner :: rest) index draft trace).left =
        .nested (inner.compile ctx trace).left ::
          (compileAll ctx keys subject rest (index + 1) (draft.addNested index) mid).left := by
  rw [compileAll] at h ⊢
  dsimp only at h ⊢
  cases hinner : (inner.compile ctx trace).result with
  | error e =>
      rw [hinner] at h
      cases h
  | ok _ =>
      rw [hinner] at h
      exact ⟨rfl, (inner.compile ctx trace).trace, h, rfl⟩

/-- A walk that succeeds has compiled every nested group in its place. -/
theorem compileAll_nested_at {entries : List Entry}
    (h : (compileAll ctx keys subject entries index draft trace).result = .ok final)
    {place : Nat} {inner : Group} (hplace : entries[place]? = some (.nested inner)) :
    ∃ mid, (inner.compile ctx mid).result = .ok () ∧
      (compileAll ctx keys subject entries index draft trace).left[place]? =
        some (.nested (inner.compile ctx mid).left) := by
  induction entries generalizing index draft trace place with
  | nil => cases hplace
  | cons entry rest ih =>
      cases entry with
      | leaf own =>
          obtain ⟨next, mid, _, hrest, hleft⟩ := compileAll_leaf_ok h
          rw [hleft]
          cases place with
          | zero => cases hplace
          | succ place => exact ih hrest hplace
      | nested head =>
          obtain ⟨hhead, mid, hrest, hleft⟩ := compileAll_nested_ok h
          rw [hleft]
          cases place with
          | zero =>
              cases hplace
              exact ⟨trace, hhead, rfl⟩
          | succ place => exact ih hrest hplace

/-- Whether it succeeds or fails, a walk leaves a nested group as it is or has compiled it. -/
theorem left_compileAll_at (ctx : Context) (keys : EntityKeys) (subject : String)
    {entries : List Entry} (index : Nat) (draft : Draft) (trace : Trace) {place : Nat}
    {inner : Group} (hplace : entries[place]? = some (.nested inner)) :
    (compileAll ctx keys subject entries index draft trace).left[place]? =
        some (.nested inner) ∨
      ∃ mid, (compileAll ctx keys subject entries index draft trace).left[place]? =
        some (.nested (inner.compile ctx mid).left) := by
  induction entries generalizing index draft trace place with
  | nil => cases hplace
  | cons entry rest ih =>
      cases entry with
      | leaf own =>
          rw [compileAll]
          split
          · exact .inl hplace
          · cases place with
            | zero => cases hplace
            | succ place => exact ih _ _ _ hplace
      | nested head =>
          rw [compileAll]
          dsimp only
          split
          · cases place with
            | zero =>
                cases hplace
                exact .inr ⟨trace, rfl⟩
            | succ place => exact .inl hplace
          · cases place with
            | zero =>
                cases hplace
                exact .inr ⟨trace, rfl⟩
            | succ place => exact ih _ _ _ hplace

/-- Every nested group is compiled when a walk over the entries of a group succeeds. -/
theorem state_compileAll {entries : List Entry}
    (h : (compileAll ctx keys subject entries index draft trace).result = .ok final) :
    ∀ inner, .nested inner ∈ (compileAll ctx keys subject entries index draft trace).left →
      inner.state ≠ .building := by
  induction entries generalizing index draft trace with
  | nil =>
      intro inner hinner
      rw [compileAll] at hinner
      simp at hinner
  | cons entry rest ih =>
      intro inner hinner
      cases entry with
      | leaf own =>
          obtain ⟨next, mid, _, hrest, hleft⟩ := compileAll_leaf_ok h
          rw [hleft] at hinner
          exact ih hrest inner (by simpa using hinner)
      | nested head =>
          obtain ⟨hhead, mid, hrest, hleft⟩ := compileAll_nested_ok h
          rw [hleft] at hinner
          rcases List.mem_cons.1 hinner with heq | hmem
          · cases heq
            exact Group.state_compile hhead
          · exact ih hrest inner hmem

end Entry

/-- The walk over the entries of a group compiles each nested group in its place. -/
theorem Group.walk_nested_at {group inner : Group} {ctx : Context} {subject : String}
    {trace : Trace} {draft : Draft} (h : (group.walk ctx subject trace).result = .ok draft)
    {place : Nat} (hplace : group.entries[place]? = some (.nested inner)) :
    ∃ mid, (inner.compile ctx mid).result = .ok () ∧
      (group.walk ctx subject trace).left[place]? =
        some (.nested (inner.compile ctx mid).left) :=
  Entry.compileAll_nested_at h hplace

/-- Compiling a tree that is being built succeeds only if it does so for every group in it. -/
theorem Group.compile_ok_of_within {group inner : Group} (hinner : inner.Within group)
    (hbuilding : group.AllBuilding) {ctx : Context} {trace : Trace}
    (h : (group.compile ctx trace).result = .ok ()) :
    ∃ mid, (inner.compile ctx mid).result = .ok () := by
  induction hinner generalizing trace with
  | self => exact ⟨trace, h⟩
  | nested mem _ ih =>
      obtain ⟨subject, draft, triple?, _, hwalk, _⟩ :=
        compile_ok (phase_eq_building_iff.1 hbuilding.self) h
      obtain ⟨place, hplace⟩ := List.mem_iff_getElem?.1 mem
      obtain ⟨mid, hmid, _⟩ := walk_nested_at hwalk hplace
      exact ih (hbuilding.nested mem) hmid

/-! ## Functional contexts -/

/-- Two outcomes that differ at most in what has happened. -/
def Outcome.Agrees {σ α : Type} (a b : Outcome σ α) : Prop :=
  a.result = b.result ∧ a.left = b.left

/-- In a functional context, the outcome does not depend on what happened before. -/
theorem Group.compile_steady {ctx : Context} (hctx : ctx.Functional) (group : Group)
    (s t : Trace) : (group.compile ctx s).Agrees (group.compile ctx t) := by
  refine (Group.treeInduction
    (P := fun group => ∀ s t, (group.compile ctx s).Agrees (group.compile ctx t))
    (R := fun entries => ∀ keys subject index draft s t,
      (Entry.compileAll ctx keys subject entries index draft s).Agrees
        (Entry.compileAll ctx keys subject entries index draft t)) ?_ ?_ ?_ ?_).1 group s t
  · intro conjunction keys entries lacksBundle state ih s t
    cases state with
    | building =>
        rw [Group.compile, Group.compile]
        cases Variable.ofName ctx.options.subjectVariable with
        | error e => exact ⟨rfl, rfl⟩
        | ok subject =>
            obtain ⟨hresult, hleft⟩ := ih keys subject 0 {}
              (s ++ [.compiling conjunction entries.length ctx.entityType])
              (t ++ [.compiling conjunction entries.length ctx.entityType])
            dsimp only
            rw [hresult, hleft]
            split
            · exact ⟨rfl, rfl⟩
            · split <;> exact ⟨rfl, rfl⟩
    | compiled plan => exact ⟨rfl, rfl⟩
    | rendered plan text => exact ⟨rfl, rfl⟩
  · intro keys subject index draft s t
    rw [Entry.compileAll, Entry.compileAll]
    exact ⟨rfl, rfl⟩
  · intro leaf rest ih keys subject index draft s t
    rw [Entry.compileAll, Entry.compileAll]
    rcases (Leaf.compile_steady hctx leaf keys subject draft).cases s t with
      ⟨e, s', t', hs, ht⟩ | ⟨next, s', t', hs, ht⟩
    · rw [hs, ht]
      exact ⟨rfl, rfl⟩
    · rw [hs, ht]
      obtain ⟨hresult, hleft⟩ := ih keys subject (index + 1) next s' t'
      exact ⟨hresult, congrArg (Entry.leaf leaf :: ·) hleft⟩
  · intro inner rest hinner ih keys subject index draft s t
    obtain ⟨hres, hlft⟩ := hinner s t
    rw [Entry.compileAll, Entry.compileAll]
    dsimp only
    rw [hres, hlft]
    split
    · exact ⟨rfl, rfl⟩
    · obtain ⟨hresult, hleft⟩ := ih keys subject (index + 1) (draft.addNested index)
        (inner.compile ctx s).trace (inner.compile ctx t).trace
      exact ⟨hresult, congrArg (Entry.nested (inner.compile ctx t).left :: ·) hleft⟩

end GraphCriteria
