import GraphCriteria.Proofs.Reading

/-!
# What the resolver is asked

Compiling asks the resolver for the fields of the own leaves of a group, each field once and the
keys never, and for those of a nested group when it comes to that group.  A group that has been
compiled asks for nothing.  A compile that fails has asked the first of these questions.

Main results:

- Theorem `Leaf.calls_compile`: a leaf asks for its field if no leaf has done so before.
- Theorem `Group.asks_compile_and_compileAll`: a walk over the entries of a group asks in their
  order.
- Theorem `Group.asked_perm`: what a tree asks is what its groups ask on their own.
- Theorem `Group.resolverCalls_compile`: the questions of a compile, whether it succeeds or not.
-/

namespace GraphCriteria

/-! ## Questions -/

/-- What is asked for a leaf that follows other leaves of its group: its field, unless that is a
key or the field of one of them. -/
def Leaf.asked (leaf : Leaf) (ctx : Context) (keys : EntityKeys) (before : List Leaf) :
    List (String × String) :=
  if (keys.kind leaf.field).isKey ∨ leaf.field ∈ before.map Leaf.field then []
  else [(ctx.entityType, leaf.field)]

mutual

/-- What is asked for a tree. -/
def Group.asked (ctx : Context) (group : Group) : List (String × String) :=
  match group with
  | ⟨_, keys, entries, _, .building⟩ => Entry.asked ctx keys [] entries
  | ⟨_, _, _, _, _⟩ => []

/-- What is asked for the entries that follow some leaves of their group. -/
def Entry.asked (ctx : Context) (keys : EntityKeys) (before : List Leaf)
    (entries : List Entry) : List (String × String) :=
  match entries with
  | [] => []
  | .leaf leaf :: rest => leaf.asked ctx keys before ++ Entry.asked ctx keys (before ++ [leaf]) rest
  | .nested group :: rest => group.asked ctx ++ Entry.asked ctx keys before rest

end

mutual

/-- The groups of a tree that compiling comes to while they are being built. -/
def Group.pending (group : Group) : List Group :=
  match group with
  | ⟨conjunction, keys, entries, lacksBundle, .building⟩ =>
    ⟨conjunction, keys, entries, lacksBundle, .building⟩ :: Entry.pending entries
  | ⟨_, _, _, _, _⟩ => []

/-- The groups among some entries that compiling comes to while they are being built. -/
def Entry.pending (entries : List Entry) : List Group :=
  match entries with
  | [] => []
  | .leaf _ :: rest => Entry.pending rest
  | .nested group :: rest => group.pending ++ Entry.pending rest

end

/-- What is asked for a group itself, without its nested groups. -/
def Group.ownAsked (ctx : Context) (group : Group) : List (String × String) :=
  Entry.asked ctx group.keys [] (group.ownLeaves.map .leaf)

namespace Group

/-- A group that is being built asks what its entries ask. -/
theorem asked_of_building {group : Group} (h : group.state = .building) (ctx : Context) :
    group.asked ctx = Entry.asked ctx group.keys [] group.entries := by
  obtain ⟨conjunction, keys, entries, lacksBundle, state⟩ := group
  obtain rfl : state = .building := h
  rw [asked]

/-- A group that has been compiled asks nothing more. -/
theorem asked_of_compiled {group : Group} (h : group.state ≠ .building) (ctx : Context) :
    group.asked ctx = [] := by
  obtain ⟨conjunction, keys, entries, lacksBundle, state⟩ := group
  rw [asked]
  exact h

/-- A group that is being built is yet to be compiled, and so are those pending inside it. -/
theorem pending_of_building {group : Group} (h : group.state = .building) :
    group.pending = group :: Entry.pending group.entries := by
  obtain ⟨conjunction, keys, entries, lacksBundle, state⟩ := group
  obtain rfl : state = .building := h
  rw [pending]

/-- In a group that has been compiled none is. -/
theorem pending_of_compiled {group : Group} (h : group.state ≠ .building) :
    group.pending = [] := by
  obtain ⟨conjunction, keys, entries, lacksBundle, state⟩ := group
  rw [pending]
  exact h

end Group

/-! ## Each group on its own -/

/-- Own leaves ask for their distinct fields, apart from the keys. -/
theorem Entry.asked_leaves (ctx : Context) (keys : EntityKeys) (before leaves : List Leaf) :
    ((before.map Leaf.field).eraseDups.filter (fun field => !(keys.kind field).isKey)).map
        (ctx.entityType, ·) ++ asked ctx keys before (leaves.map .leaf) =
      (((before ++ leaves).map Leaf.field).eraseDups.filter
        (fun field => !(keys.kind field).isKey)).map (ctx.entityType, ·) := by
  induction leaves generalizing before with
  | nil =>
      rw [List.map_nil, asked, List.append_nil, List.append_nil]
  | cons leaf leaves ih =>
      have hsplit : before ++ leaf :: leaves = before ++ [leaf] ++ leaves := by simp
      have hstep := eraseDups_concat (before.map Leaf.field) leaf.field
      rw [List.map_cons, asked, hsplit, ← ih (before ++ [leaf]), ← List.append_assoc]
      congr 1
      rw [List.map_append, List.map_singleton, hstep, Leaf.asked]
      by_cases hmem : leaf.field ∈ before.map Leaf.field
      · rw [if_pos hmem, if_pos (Or.inr hmem), List.append_nil]
      · by_cases hkey : (keys.kind leaf.field).isKey = true
        · rw [if_neg hmem, if_pos (Or.inl hkey)]
          simp [hkey]
        · have hask : ¬ ((keys.kind leaf.field).isKey = true ∨
              leaf.field ∈ before.map Leaf.field) := by
            simp [hkey, hmem]
          rw [if_neg hmem, if_neg hask]
          simp [hkey]

namespace Group

/-- A group asks once for each of its fields that is no key, in the order of the first leaves. -/
theorem ownAsked_eq (ctx : Context) (group : Group) :
    group.ownAsked ctx = ((group.ownLeaves.map Leaf.field).eraseDups.filter
      (fun field => !(group.keys.kind field).isKey)).map (ctx.entityType, ·) :=
  Entry.asked_leaves ctx group.keys [] group.ownLeaves

/-- On its own, a group asks for each field once. -/
theorem nodup_ownAsked (ctx : Context) (group : Group) : (group.ownAsked ctx).Nodup := by
  have hfields := (nodup_eraseDups (group.ownLeaves.map Leaf.field)).filter
    fun field => !(group.keys.kind field).isKey
  rw [ownAsked_eq]
  apply List.Pairwise.map _ _ hfields
  intro a b hne heq
  exact hne (Prod.mk.inj heq).2

/-- On its own, a group asks for the fields of its leaves that are no keys. -/
theorem mem_ownAsked_iff {ctx : Context} {group : Group} {entityType field : String} :
    (entityType, field) ∈ group.ownAsked ctx ↔ entityType = ctx.entityType ∧
      (group.keys.kind field).isKey = false ∧ ∃ leaf ∈ group.ownLeaves, leaf.field = field := by
  rw [ownAsked_eq]
  simp only [List.mem_map, List.mem_filter, List.mem_eraseDups, Prod.mk.injEq,
    Bool.not_eq_eq_eq_not, Bool.not_true]
  constructor
  · rintro ⟨other, ⟨hleaf, hkey⟩, rfl, rfl⟩
    exact ⟨rfl, hkey, hleaf⟩
  · rintro ⟨rfl, hkey, hleaf⟩
    exact ⟨field, ⟨hleaf, hkey⟩, rfl, rfl⟩

/-- What a tree asks is what its groups ask on their own, in some order. -/
theorem asked_perm (ctx : Context) (group : Group) :
    (group.asked ctx).Perm (group.pending.flatMap (ownAsked ctx)) := by
  refine (treeInduction
    (P := fun group => (group.asked ctx).Perm (group.pending.flatMap (ownAsked ctx)))
    (R := fun entries => ∀ keys before, (Entry.asked ctx keys before entries).Perm
      (Entry.asked ctx keys before ((Entry.leaves entries).map .leaf) ++
        (Entry.pending entries).flatMap (ownAsked ctx))) ?_ ?_ ?_ ?_).1 group
  · intro conjunction keys entries lacksBundle state ih
    by_cases hstate : state = .building
    · rw [asked_of_building hstate, pending_of_building hstate, List.flatMap_cons]
      exact ih keys []
    · rw [asked_of_compiled hstate, pending_of_compiled hstate]
      exact .nil
  · intro keys before
    exact .nil
  · intro leaf rest ih keys before
    rw [Entry.asked, Entry.leaves_cons_leaf, List.map_cons, Entry.asked, List.append_assoc]
    exact (ih keys (before ++ [leaf])).append_left _
  · intro inner rest hinner ih keys before
    rw [Entry.asked, Entry.leaves_cons_nested, Entry.pending, List.flatMap_append]
    have hrest := hinner.append (ih keys before)
    exact hrest.trans (List.perm_append_comm_assoc _ _ _)

end Group

/-! ## Single steps -/

/-- A step that asks the resolver nothing. -/
def Pass.Silent {α : Type} (pass : Pass α) : Prop :=
  ∀ trace, (pass trace).2.resolverCalls = trace.resolverCalls

/-- Silence is kept by steps in a row, and no known outcome breaks it. -/
theorem Pass.closed_silent : Pass.Closed Pass.Silent where
  ofExcept _ _ := rfl
  bind := by
    intro α β first next hfirst hnext trace
    cases hstep : first trace with
    | mk result mid =>
        have hmid : mid.resolverCalls = trace.resolverCalls := by
          rw [← hfirst trace, hstep]
        cases result with
        | error e => rw [bind_apply_error hstep, hmid]
        | ok a => rw [bind_apply_ok hstep, hnext a mid, hmid]

/-- The escaper is no resolver. -/
theorem Context.silent_escape (ctx : Context) (field value : String)
    (language : Option String) : (ctx.escape field value language).Silent := by
  intro trace
  simp [escape, Trace.resolverCalls]

/-- A silent step that follows another adds nothing to what that one has asked. -/
theorem Pass.resolverCalls_bind {α β : Type} {first : Pass α} {next : α → Pass β}
    (hnext : ∀ a, (next a).Silent) (trace : Trace) :
    ((first >>= next) trace).2.resolverCalls = (first trace).2.resolverCalls := by
  cases hstep : first trace with
  | mk result mid =>
      cases result with
      | error e => rw [bind_apply_error hstep]
      | ok a => rw [bind_apply_ok hstep, hnext a mid]

/-- Finding the mapping of a field asks for it, unless it is a key. -/
theorem Context.resolverCalls_findMapping (ctx : Context) (kind : FieldKind) (field : String)
    (trace : Trace) :
    (ctx.findMapping kind field trace).2.resolverCalls =
      trace.resolverCalls ++ if kind.isKey then [] else [(ctx.entityType, field)] := by
  have hask : (ctx.resolve field trace).2.resolverCalls =
      trace.resolverCalls ++ [(ctx.entityType, field)] := by
    simp [resolve, Trace.resolverCalls]
  cases kind with
  | id | bundle => simp [findMapping, FieldKind.isKey]
  | label | other =>
      rw [findMapping, Pass.resolverCalls_bind, hask]
      · simp [FieldKind.isKey]
      · intro found
        split
        · exact Pass.closed_silent.fail _
        · exact Pass.closed_silent.pure _
        · exact Pass.closed_silent.bind (Pass.closed_silent.ofExcept _) fun name =>
            Pass.closed_silent.pure _

theorem Pass.silent_report_mapped (field : String) (mapping : FieldMapping) :
    (Pass.report (.mapped field mapping)).Silent := by
  intro trace
  simp [Trace.resolverCalls]

/-- Fetching the mapping of a field asks for it, unless it is a key or known. -/
theorem Draft.resolverCalls_fetch (draft : Draft) (ctx : Context) (kind : FieldKind)
    (field : String) (trace : Trace) :
    (draft.fetch ctx kind field trace).2.resolverCalls = trace.resolverCalls ++
      if kind.isKey ∨ field ∈ draft.mappings.fields then [] else [(ctx.entityType, field)] := by
  refine (Pass.resolverCalls_bind (fun found => Pass.closed_silent.pure _) trace).trans ?_
  rw [Memo.fetch]
  cases hknown : draft.mappings.get? field with
  | some known =>
      have hmem : field ∈ draft.mappings.fields := by
        by_cases hmem : field ∈ draft.mappings.fields
        · exact hmem
        · rw [Memo.get?_eq_none_iff.2 hmem] at hknown
          cases hknown
      simp [hmem]
  | none =>
      have hmem : field ∉ draft.mappings.fields := Memo.get?_eq_none_iff.1 hknown
      have hrest : ∀ mapping, (do
          Pass.report (.mapped field mapping)
          pure (⟨mapping, true, draft.mappings.push field mapping⟩ : Fetched)).Silent :=
        fun mapping => Pass.closed_silent.bind (Pass.silent_report_mapped field mapping)
          fun _ => Pass.closed_silent.pure _
      rw [Pass.resolverCalls_bind hrest, ctx.resolverCalls_findMapping]
      simp [hmem]

/-- A leaf asks for its field, unless that is a key or known, and whatever comes of it. -/
theorem Leaf.calls_compile (leaf : Leaf) {draft : Draft} {before : List Leaf}
    (hdraft : draft.mappings.fields = (before.map Leaf.field).eraseDups) (ctx : Context)
    (keys : EntityKeys) (subject : String) (trace : Trace) :
    (leaf.compile ctx keys subject draft trace).2.resolverCalls =
      trace.resolverCalls ++ leaf.asked ctx keys before := by
  have hrest : ∀ mapping (next : Draft), (do
      let clause ← leaf.clause ctx subject (keys.kind leaf.field) mapping
      pure (next.add (keys.kind leaf.field) leaf.operator clause)).Silent := by
    intro mapping next
    refine Pass.closed_silent.bind ?_ fun clause => Pass.closed_silent.pure _
    exact Pass.closed_silent.clause (fun value => ctx.silent_escape leaf.field value leaf.language)
      subject (keys.kind leaf.field) mapping
  have hfetch := draft.resolverCalls_fetch ctx (keys.kind leaf.field) leaf.field trace
  rw [hdraft] at hfetch
  simp only [List.mem_eraseDups] at hfetch
  refine (Pass.resolverCalls_bind ?_ trace).trans ?_
  · rintro ⟨mapping, next⟩
    exact hrest mapping next
  · rw [hfetch]
    rfl

/-- A leaf that is compiled adds its field to those that are known. -/
theorem Leaf.fields_compile {leaf : Leaf} {ctx : Context} {keys : EntityKeys} {subject : String}
    {draft next : Draft} {before : List Leaf} {trace later : Trace}
    (hdraft : draft.mappings.fields = (before.map Leaf.field).eraseDups)
    (hleaf : leaf.compile ctx keys subject draft trace = (.ok next, later)) :
    next.mappings.fields = ((before ++ [leaf]).map Leaf.field).eraseDups := by
  obtain ⟨mapping, clause, _, _, rfl⟩ := Leaf.compile_ok hleaf
  rw [Draft.add_mappings, List.map_append]
  exact Draft.fields_note hdraft

/-! ## Walks -/

/-- Of the questions that are due after some trace, the first have been asked, and all of them
after a success. -/
def Outcome.Asks {σ α : Type} (outcome : Outcome σ α) (trace : Trace)
    (due : List (String × String)) : Prop :=
  ∃ made, outcome.trace.resolverCalls = trace.resolverCalls ++ made ∧ made <+: due ∧
    ∀ value, outcome.result = .ok value → made = due

namespace Outcome.Asks

variable {σ τ α β : Type} {outcome : Outcome σ α} {trace mid : Trace}
  {due more : List (String × String)}

/-- An outcome that comes of another without further questions has asked the same. -/
theorem of_trace_eq {later : Outcome τ β} (h : outcome.Asks trace due)
    (htrace : later.trace = outcome.trace)
    (hok : ∀ value, later.result = .ok value → ∃ first, outcome.result = .ok first) :
    later.Asks trace due := by
  obtain ⟨made, hmade, hprefix, hall⟩ := h
  refine ⟨made, ?_, hprefix, ?_⟩
  · rw [htrace, hmade]
  · intro value hvalue
    obtain ⟨first, hfirst⟩ := hok value hvalue
    exact hall first hfirst

/-- A failure may leave questions unasked. -/
theorem of_error {e : ConditionError} (h : outcome.Asks trace due)
    {left : τ} :
    (⟨.error e, left, outcome.trace⟩ : Outcome τ β).Asks trace (due ++ more) := by
  obtain ⟨made, hmade, hprefix, _⟩ := h
  refine ⟨made, hmade, hprefix.trans (List.prefix_append due more), ?_⟩
  intro value hvalue
  cases hvalue

/-- The questions of a step that goes on from another follow those of that one. -/
theorem after {later : Outcome τ β} (h : later.Asks mid more)
    (hmid : mid.resolverCalls = trace.resolverCalls ++ due) : later.Asks trace (due ++ more) := by
  obtain ⟨made, hmade, hprefix, hall⟩ := h
  refine ⟨due ++ made, ?_, ?_, ?_⟩
  · rw [hmade, hmid, List.append_assoc]
  · exact (List.prefix_append_right_inj due).2 hprefix
  · intro value hvalue
    rw [hall value hvalue]

end Outcome.Asks

/-- Compiling a tree or a list of entries asks the questions that are due, in order. -/
theorem Group.asks_compile_and_compileAll (ctx : Context) :
    (∀ (group : Group) trace, (group.compile ctx trace).Asks trace (group.asked ctx)) ∧
      ∀ entries keys subject index draft trace before,
        draft.mappings.fields = (before.map Leaf.field).eraseDups →
          (Entry.compileAll ctx keys subject entries index draft trace).Asks trace
            (Entry.asked ctx keys before entries) := by
  refine treeInduction ?_ ?_ ?_ ?_
  · intro conjunction keys entries lacksBundle state ih trace
    by_cases hstate : state = .building
    · subst hstate
      have hreport : Trace.resolverCalls
          (trace ++ [.compiling conjunction entries.length ctx.entityType]) =
            trace.resolverCalls ++ [] := by
        simp [Trace.resolverCalls]
      rw [compile, asked]
      cases Variable.ofName ctx.options.subjectVariable with
      | error e =>
          refine ⟨[], hreport, List.nil_prefix, ?_⟩
          intro value hvalue
          cases hvalue
      | ok subject =>
          have hwalk : (Entry.compileAll ctx keys subject entries 0 {}
              (trace ++ [.compiling conjunction entries.length ctx.entityType])).Asks trace
                (Entry.asked ctx keys [] entries) :=
            (ih keys subject 0 {} _ [] rfl).after hreport
          dsimp only
          split
          · refine hwalk.of_trace_eq rfl ?_
            intro value hvalue
            cases hvalue
          · rename_i draft hdraft
            split
            · refine hwalk.of_trace_eq rfl ?_
              intro value hvalue
              cases hvalue
            · exact hwalk.of_trace_eq rfl fun _ _ => ⟨draft, hdraft⟩
    · rw [compile_of_compiled hstate, asked_of_compiled hstate]
      refine ⟨[], ?_, List.nil_prefix, fun _ _ => rfl⟩
      simp [Trace.resolverCalls]
  · intro keys subject index draft trace before _
    rw [Entry.compileAll, Entry.asked]
    exact ⟨[], by simp, List.nil_prefix, fun _ _ => rfl⟩
  · intro leaf rest ih keys subject index draft trace before hdraft
    have hcalls := leaf.calls_compile hdraft ctx keys subject trace
    rw [Entry.compileAll, Entry.asked]
    cases hleaf : leaf.compile ctx keys subject draft trace with
    | mk result mid =>
        rw [hleaf] at hcalls
        cases result with
        | error e =>
            refine ⟨leaf.asked ctx keys before, hcalls, List.prefix_append _ _, ?_⟩
            intro value hvalue
            cases hvalue
        | ok next =>
            have hrest := ih keys subject (index + 1) next mid (before ++ [leaf])
              (Leaf.fields_compile hdraft hleaf)
            exact hrest.after hcalls
  · intro inner rest hinner ih keys subject index draft trace before hdraft
    have hfirst := hinner trace
    rw [Entry.compileAll, Entry.asked]
    dsimp only
    split
    · exact hfirst.of_error
    · rename_i hresult
      have hrest := ih keys subject (index + 1) (draft.addNested index)
        (inner.compile ctx trace).trace before hdraft
      obtain ⟨made, hmade, _, hall⟩ := hfirst
      rw [hall () hresult] at hmade
      exact hrest.after hmade

/-! ## Trees -/

/-- A compile asks the resolver in the order of the entries, and has asked the first of these
questions when it fails.  They are what the groups that are being built ask on their own, and no
such group asks for a field twice or for a key.  A second compile asks nothing. -/
theorem Group.resolverCalls_compile (group : Group) (ctx : Context) (trace : Trace) :
    (∃ made, (group.compile ctx trace).trace.resolverCalls = trace.resolverCalls ++ made ∧
      made <+: group.asked ctx ∧
        ((group.compile ctx trace).result = .ok () → made = group.asked ctx)) ∧
    (group.asked ctx).Perm (group.pending.flatMap (ownAsked ctx)) ∧
    (∀ inner : Group, (inner.ownAsked ctx).Nodup ∧
      ∀ call ∈ inner.ownAsked ctx, (inner.keys.kind call.2).isKey = false) ∧
    ((group.compile ctx trace).result = .ok () → ∀ again later,
      ((group.compile ctx trace).left.compile again later).trace.resolverCalls =
        later.resolverCalls) := by
  refine ⟨?_, asked_perm ctx group, ?_, ?_⟩
  · obtain ⟨made, hmade, hprefix, hall⟩ := (asks_compile_and_compileAll ctx).1 group trace
    exact ⟨made, hmade, hprefix, hall ()⟩
  · intro inner
    refine ⟨nodup_ownAsked ctx inner, fun call hcall => ?_⟩
    exact (mem_ownAsked_iff.1 hcall).2.1
  · intro hok again later
    rw [compile_of_compiled (state_compile hok)]
    simp [Trace.resolverCalls]

/-- The sample group asks for the title of its own leaf, and then for the tag of the union. -/
example : (Sample.page.compile Sample.context []).trace.resolverCalls =
    [("node", "title"), ("node", "tag")] := by
  decide +kernel

end GraphCriteria
