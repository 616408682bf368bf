import GraphCriteria.Group.Compile

/-!
# What passes give

A pass that succeeds has succeeded at each of its steps, and a host that always answers the
same question alike makes the outcome of every step independent of what happened before.

Main results:

- Theorem `Pass.bind_eq_ok`: a sequence of steps succeeds exactly when each of them does.
- Theorem `Pass.Closed.clause`: what holds of every call to the escaper and passes to sequences
  of steps holds of the clause of a leaf.
- Theorem `Pass.Closed.fetch`: what holds of calls to the resolver and reports, and passes to
  sequences of steps, holds of fetching a mapping.
- Theorem `Leaf.compile_steady`: in a functional context the compiled form of a leaf depends
  on the leaf and the draft only.
-/

namespace GraphCriteria

/-! ## Successful steps -/

/-- If checks in a row succeed, then so does each of them. -/
theorem exists_ok_of_bind {ε α β : Type} {first : Except ε α} {next : α → Except ε β} {b : β}
    (h : (first >>= next) = .ok b) : ∃ a, first = .ok a ∧ next a = .ok b := by
  cases first with
  | ok a => exact ⟨a, rfl, h⟩
  | error e => cases h

/-- A check has succeeded when it has a value. -/
theorem eq_ok_of_toOption {ε α : Type} {outcome : Except ε α} {a : α}
    (h : outcome.toOption = some a) : outcome = .ok a := by
  cases outcome with
  | ok found => rw [Option.some.inj h]
  | error e => cases h

namespace Pass

variable {α β : Type}

/-- A sequence of steps succeeds exactly when each of them does. -/
theorem bind_eq_ok {first : Pass α} {next : α → Pass β} {trace later : Trace} {b : β} :
    (first >>= next) trace = (.ok b, later) ↔
      ∃ a mid, first trace = (.ok a, mid) ∧ next a mid = (.ok b, later) := by
  constructor
  · intro h
    cases hfirst : first trace with
    | mk result mid =>
        cases result with
        | ok a => exact ⟨a, mid, rfl, by rwa [bind_apply_ok hfirst] at h⟩
        | error e =>
            rw [bind_apply_error hfirst] at h
            cases h
  · rintro ⟨a, mid, hfirst, hnext⟩
    rw [bind_apply_ok hfirst, hnext]

/-- After a known outcome, the rest goes on from what happened before. -/
theorem ofExcept_bind_eq_ok {outcome : Except ConditionError α} {next : α → Pass β}
    {trace later : Trace} {b : β} :
    (ofExcept outcome >>= next) trace = (.ok b, later) ↔
      ∃ a, outcome = .ok a ∧ next a trace = (.ok b, later) := by
  rw [bind_eq_ok]
  constructor
  · rintro ⟨a, mid, hfirst, hnext⟩
    obtain ⟨rfl, rfl⟩ := Prod.mk.inj hfirst
    exact ⟨a, rfl, hnext⟩
  · rintro ⟨a, rfl, hnext⟩
    exact ⟨a, trace, rfl, hnext⟩

/-- The same for the outcome alone. -/
theorem fst_bind_eq_ok {first : Pass α} {next : α → Pass β} {trace : Trace} {b : β} :
    ((first >>= next) trace).1 = .ok b ↔
      ∃ a mid, first trace = (.ok a, mid) ∧ (next a mid).1 = .ok b := by
  constructor
  · intro h
    obtain ⟨a, mid, hfirst, hnext⟩ := bind_eq_ok.1 (Prod.ext h rfl)
    exact ⟨a, mid, hfirst, congrArg Prod.fst hnext⟩
  · rintro ⟨a, mid, hfirst, hnext⟩
    rw [bind_apply_ok hfirst, hnext]

/-- A sequence fails when its first step does, or else when the rest does. -/
theorem fst_bind_eq_error {first : Pass α} {next : α → Pass β} {trace : Trace}
    {e : ConditionError} :
    ((first >>= next) trace).1 = .error e ↔
      (first trace).1 = .error e ∨
        ∃ a mid, first trace = (.ok a, mid) ∧ (next a mid).1 = .error e := by
  cases hfirst : first trace with
  | mk result mid =>
      cases result with
      | ok a =>
          rw [bind_apply_ok hfirst]
          constructor
          · exact fun h => .inr ⟨a, mid, rfl, h⟩
          · rintro (h | ⟨_, _, heq, h⟩)
            · cases h
            · cases heq
              exact h
      | error e' =>
          rw [bind_apply_error hfirst]
          simp

/-! ## Steps that do not depend on the past -/

/-- A step whose outcome does not depend on what happened before. -/
def Steady (pass : Pass α) : Prop :=
  ∀ s t, (pass s).1 = (pass t).1

/-- Whatever happened before, such a step fails with one error or succeeds with one value. -/
theorem Steady.cases {pass : Pass α} (h : pass.Steady) (s t : Trace) :
    (∃ e s' t', pass s = (.error e, s') ∧ pass t = (.error e, t')) ∨
      ∃ a s' t', pass s = (.ok a, s') ∧ pass t = (.ok a, t') := by
  have hsame := h s t
  cases hs : pass s with
  | mk result s' =>
      cases ht : pass t with
      | mk result' t' =>
          rw [hs, ht] at hsame
          obtain rfl : result = result' := hsame
          cases result with
          | error e => exact .inl ⟨e, s', t', rfl, rfl⟩
          | ok a => exact .inr ⟨a, s', t', rfl, rfl⟩

theorem steady_pure (a : α) : (pure a : Pass α).Steady :=
  fun _ _ => rfl

theorem steady_ofExcept (outcome : Except ConditionError α) : (ofExcept outcome).Steady :=
  fun _ _ => rfl

theorem steady_report (event : Event) : (report event).Steady :=
  fun _ _ => rfl

/-- Steps that do not depend on the past make up a sequence that does not either. -/
theorem Steady.bind {first : Pass α} {next : α → Pass β} (hfirst : first.Steady)
    (hnext : ∀ a, (next a).Steady) : (first >>= next).Steady := by
  intro s t
  rcases hfirst.cases s t with ⟨e, s', t', hs, ht⟩ | ⟨a, s', t', hs, ht⟩
  · rw [bind_apply_error hs, bind_apply_error ht]
  · rw [bind_apply_ok hs, bind_apply_ok ht]
    exact hnext a s' t'

end Pass

/-! ## Properties that sequences inherit -/

/-- A property of steps that every known outcome has and every sequence inherits. -/
structure Pass.Closed (P : ∀ {α : Type}, Pass α → Prop) : Prop where
  ofExcept : ∀ {α : Type} (outcome : Except ConditionError α), P (Pass.ofExcept outcome)
  bind : ∀ {α β : Type} {first : Pass α} {next : α → Pass β},
    P first → (∀ a, P (next a)) → P (first >>= next)

/-- Not to depend on the past is inherited by sequences, and no known outcome depends on it. -/
theorem Pass.closed_steady : Pass.Closed Pass.Steady where
  ofExcept outcome := steady_ofExcept outcome
  bind hfirst hnext := hfirst.bind hnext

namespace Pass.Closed

variable {P : ∀ {α : Type}, Pass α → Prop} {ctx : Context} {leaf : Leaf}

theorem pure (closed : Closed P) {α : Type} (a : α) : P (Pure.pure a : Pass α) :=
  closed.ofExcept (.ok a)

/-- A failure is a known outcome. -/
theorem fail (closed : Closed P) {α : Type} (e : ConditionError) : P (Pass.fail e : Pass α) :=
  closed.ofExcept (.error e)

/-- Escaping several values is a sequence of calls to the escaper. -/
theorem escapeAll (closed : Closed P)
    (hescape : ∀ value, P (ctx.escape leaf.field value leaf.language)) (values : List String) :
    P (ctx.escapeAll leaf.field leaf.language values) := by
  induction values with
  | nil => exact closed.pure _
  | cons value values ih =>
      refine closed.bind (hescape value) fun text => ?_
      exact closed.bind ih fun texts => closed.pure _

/-- The members of a value are escaped, and nothing else is done for them. -/
theorem members (closed : Closed P)
    (hescape : ∀ value, P (ctx.escape leaf.field value leaf.language)) :
    P (leaf.members ctx) := by
  unfold Leaf.members
  split
  · exact closed.escapeAll hescape _
  · exact closed.fail _

/-- An operand is given as it is, or its members are escaped, or there is a failure. -/
theorem operand (closed : Closed P)
    (hescape : ∀ value, P (ctx.escape leaf.field value leaf.language)) (kind : FieldKind) :
    P (leaf.operand kind ctx) := by
  unfold Leaf.operand
  split
  · exact closed.pure _
  · split
    · exact closed.fail _
    · split
      · exact closed.bind (closed.members hescape) fun texts => closed.pure _
      · exact closed.pure _
  · exact closed.fail _

/-- The clause of a leaf whose field has a known mapping is made by the escaper alone. -/
theorem clause (closed : Closed P)
    (hescape : ∀ value, P (ctx.escape leaf.field value leaf.language)) (subject : String)
    (kind : FieldKind) (mapping : FieldMapping) : P (leaf.clause ctx subject kind mapping) := by
  have hbind : P (Pass.ofExcept (leaf.bind subject mapping)) := closed.ofExcept _
  have hscalar : P (Pass.ofExcept leaf.scalar) := closed.ofExcept _
  unfold Leaf.clause
  split
  · split
    · exact closed.fail _
    · exact closed.bind hscalar fun text => closed.bind (hescape text) fun _ => closed.pure _
  · exact closed.bind hbind fun _ => closed.bind (closed.members hescape) fun _ => closed.pure _
  · exact closed.bind hbind fun _ => closed.pure _
  · exact closed.bind hbind fun _ => closed.pure _
  · exact closed.bind hbind fun _ => closed.bind hscalar fun _ => closed.pure _
  · exact closed.bind hbind fun _ => closed.bind hscalar fun _ => closed.pure _
  all_goals
    exact closed.bind hbind fun _ => closed.bind (closed.operand hescape kind) fun _ =>
      closed.pure _

/-- Finding the mapping of a field asks the resolver alone. -/
theorem findMapping {field : String} (closed : Closed P) (hresolve : P (ctx.resolve field))
    (kind : FieldKind) : P (ctx.findMapping kind field) := by
  cases kind with
  | id => exact closed.pure _
  | bundle => exact closed.pure _
  | label | other =>
      refine closed.bind hresolve fun found => ?_
      split
      · exact closed.fail _
      · exact closed.pure _
      · exact closed.bind (closed.ofExcept _) fun name => closed.pure _

/-- Fetching the mapping of a field finds it and reports it, unless it is known. -/
theorem fetch {field : String} (closed : Closed P) (hresolve : P (ctx.resolve field))
    (hreport : ∀ mapping, P (Pass.report (.mapped field mapping))) (draft : Draft)
    (kind : FieldKind) : P (draft.fetch ctx kind field) := by
  refine closed.bind ?_ fun found => closed.pure _
  unfold Memo.fetch
  split
  · exact closed.pure _
  · refine closed.bind (closed.findMapping hresolve kind) fun mapping => ?_
    exact closed.bind (hreport mapping) fun _ => closed.pure _

end Pass.Closed

/-! ## Functional contexts -/

namespace Context.Functional

variable {ctx : Context}

/-- A functional host resolves a field whatever has happened before. -/
theorem resolve (h : ctx.Functional) (field : String) : (ctx.resolve field).Steady :=
  fun s t => h.resolver_eq s t ctx.entityType field

/-- It escapes a value whatever has happened before. -/
theorem escape (h : ctx.Functional) (field value : String) (language : Option String) :
    (ctx.escape field value language).Steady :=
  fun s t => h.escaper_eq s t field value language

/-- So fetching a mapping does not depend on the past. -/
theorem fetch (h : ctx.Functional) (draft : Draft) (kind : FieldKind) (field : String) :
    (draft.fetch ctx kind field).Steady :=
  Pass.closed_steady.fetch (h.resolve field) (fun _ => Pass.steady_report _) draft kind

/-- Neither does the clause of a leaf whose mapping is known. -/
theorem clause (h : ctx.Functional) (leaf : Leaf) (subject : String) (kind : FieldKind)
    (mapping : FieldMapping) : (leaf.clause ctx subject kind mapping).Steady :=
  Pass.closed_steady.clause (fun value => h.escape leaf.field value leaf.language) subject kind
    mapping

end Context.Functional

/-- A host that looks fields up in a table and leaves values as they are is functional. -/
theorem Context.functional_of_table (entityType : String) (table : MappingTable)
    (options : CompileOptions) :
    Context.Functional ⟨entityType, table.resolver, rawEscaper, options⟩ :=
  ⟨fun _ _ _ _ => rfl, fun _ _ _ _ _ => rfl⟩

/-- In a functional context the compiled form of a leaf depends on the leaf and the draft
only. -/
theorem Leaf.compile_steady {ctx : Context} (h : ctx.Functional) (leaf : Leaf)
    (keys : EntityKeys) (subject : String) (draft : Draft) :
    (leaf.compile ctx keys subject draft).Steady := by
  refine (h.fetch draft _ leaf.field).bind fun found => ?_
  exact (h.clause leaf subject _ _).bind fun clause => Pass.steady_pure _

end GraphCriteria
