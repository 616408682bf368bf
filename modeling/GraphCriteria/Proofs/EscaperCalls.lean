import GraphCriteria.Proofs.Leaves
import GraphCriteria.Proofs.Plans

/-!
# What the escaper is asked

Compiling has the host write the values of equations and of sets of members, one call for each
value, in the order in which they are listed.  The answers are taken over unchanged.  Other values
never reach the host: patterns are quoted, and the operands of comparisons on fields that are no
keys stand as they are given.

Main results:

- Theorem `Leaf.escapes_clause`: the calls of a leaf, whether it is compiled or fails.
- Theorem `Leaf.answers_clause`: the clause of a leaf takes over the answers.
- Theorem `Group.escapes_compile_and_compileAll`: a walk over the entries of a group makes the
  calls of its leaves in their order.
- Theorem `Group.answered_compile_and_compileAll`: what a compiled tree has taken over are the
  answers to these calls.
- Theorem `Leaf.compile_key_set`: on a key, a set of members is written in one way, whether it is
  required or excluded.
- Theorem `Group.escaperCalls_compile`: the calls of a compile and what becomes of the answers.
-/

namespace GraphCriteria

/-! ## Calls and texts -/

namespace Leaf

variable (leaf : Leaf) (keys : EntityKeys)

/-- The values of a leaf that the host writes: that of an equation and the members of a set, where
a set that is excluded is written by the host on keys only. -/
def hostedValues : List String :=
  match leaf.operator, leaf.value with
  | .equal, some (.single text) => [text]
  | .isIn, some value => value.toList
  | .notIn, some (.list texts) => if (keys.kind leaf.field).isKey then texts else []
  | _, _ => []

/-- The calls to the escaper that are due for a leaf. -/
def escaped : List (String × String × Option String) :=
  (leaf.hostedValues keys).map fun value => (leaf.field, value, leaf.language)

/-- The texts in the clause of a leaf that stand for values written by the host: the object of a
triple, the members of a set, or on a key the list of a comparison. -/
def inlined (clause : Clause) : List String :=
  match clause with
  | .triple t => [t.object]
  | .values _ clause => clause.members
  | .filter _ _ _ (.list texts _) => if (keys.kind leaf.field).isKey then texts else []
  | _ => []

end Leaf

mutual

/-- The calls that are due for a tree, leaf by leaf. -/
def Group.escaped (group : Group) : List (List (String × String × Option String)) :=
  match group with
  | ⟨_, keys, entries, _, .building⟩ => Entry.escaped keys entries
  | ⟨_, _, _, _, _⟩ => []

/-- The calls that are due for the entries of a group, leaf by leaf. -/
def Entry.escaped (keys : EntityKeys) (entries : List Entry) :
    List (List (String × String × Option String)) :=
  match entries with
  | [] => []
  | .leaf leaf :: rest => leaf.escaped keys :: Entry.escaped keys rest
  | .nested group :: rest => group.escaped ++ Entry.escaped keys rest

end

mutual

/-- The texts that a compiled tree has taken over from the host, leaf by leaf. -/
def Group.inlined (group : Group) : List (List String) :=
  match group with
  | ⟨_, keys, entries, _, .compiled plan⟩ => Entry.inlined keys entries plan.values plan.conditions
  | ⟨_, keys, entries, _, .rendered plan _⟩ =>
    Entry.inlined keys entries plan.values plan.conditions
  | ⟨_, _, _, _, .building⟩ => []

/-- The texts that entries have taken over, leaf by leaf.  The clause of a leaf is the next one
among the key sets or among the other conditions, where a nested group has a clause as well. -/
def Entry.inlined (keys : EntityKeys) (entries : List Entry) (values conditions : List Clause) :
    List (List String) :=
  match entries with
  | [] => []
  | .leaf leaf :: rest =>
    if leaf.isKeySet keys then
      (values.head?.map (leaf.inlined keys)).getD [] ::
        Entry.inlined keys rest values.tail conditions
    else
      (conditions.head?.map (leaf.inlined keys)).getD [] ::
        Entry.inlined keys rest values conditions.tail
  | .nested group :: rest => group.inlined ++ Entry.inlined keys rest values conditions.tail

end

/-! ## Answers -/

namespace Context

variable (ctx : Context)

/-- What the host answers to an event, if that is a call to the escaper. -/
def answer (before : Trace) : Event → List (Except ConditionError String)
  | .escaperCall field value language => [ctx.escaper before field value language]
  | _ => []

/-- What the host answers to the calls to the escaper in a stretch of a trace. -/
def answersAfter (before : Trace) : Trace → List (Except ConditionError String)
  | [] => []
  | event :: later => ctx.answer before event ++ answersAfter (before ++ [event]) later

/-- What the host answers to the calls to the escaper in a trace. -/
def answers (trace : Trace) : List (Except ConditionError String) :=
  ctx.answersAfter [] trace

/-- The answers to a trace in two parts are those to each part, after what came before it. -/
theorem answersAfter_append (before s t : Trace) :
    ctx.answersAfter before (s ++ t) =
      ctx.answersAfter before s ++ ctx.answersAfter (before ++ s) t := by
  induction s generalizing before with
  | nil => simp [answersAfter]
  | cons event s ih => simp [answersAfter, ih]

/-- One more event adds the answer to it, if it is a call. -/
theorem answers_append (trace : Trace) (event : Event) :
    ctx.answers (trace ++ [event]) = ctx.answers trace ++ ctx.answer trace event := by
  simp [answers, answersAfter_append, answersAfter]

/-- There is one answer for each call. -/
theorem length_answers (trace : Trace) :
    (ctx.answers trace).length = trace.escaperCalls.length := by
  have hafter : ∀ before, (ctx.answersAfter before trace).length = trace.escaperCalls.length := by
    induction trace with
    | nil => exact fun _ => rfl
    | cons event trace ih =>
        intro before
        have hevent : (ctx.answer before event).length = (Trace.escaperCalls [event]).length := by
          cases event <;> rfl
        rw [answersAfter, List.length_append, ih, hevent, ← List.length_append,
          ← Trace.escaperCalls_append]
        rfl
  exact hafter []

end Context

/-- Between two points the host has answered, leaf by leaf, with these texts: one for each of the
calls that were due. -/
structure Context.Answered (ctx : Context) (s t : Trace) (texts : List (List String))
    (due : List (List (String × String × Option String))) : Prop where
  answers : ctx.answers t = ctx.answers s ++ texts.flatten.map .ok
  lengths : texts.map List.length = due.map List.length

namespace Context.Answered

variable {ctx : Context} {s t u : Trace} {texts more : List (List String)}
  {due later : List (List (String × String × Option String))}

theorem nil (h : ctx.answers t = ctx.answers s) : ctx.Answered s t [] [] where
  answers := by simp [h]
  lengths := rfl

/-- Steps in a row inline their answers one after another. -/
theorem append (h : ctx.Answered s t texts due) (hlater : ctx.Answered t u more later) :
    ctx.Answered s u (texts ++ more) (due ++ later) where
  answers := by
    rw [hlater.answers, h.answers, List.flatten_append, List.map_append, List.append_assoc]
  lengths := by
    rw [List.map_append, List.map_append, h.lengths, hlater.lengths]

end Context.Answered

/-! ## Steps that do not ask -/

/-- A step that makes no call to the escaper. -/
def Pass.Quiet (ctx : Context) {α : Type} (pass : Pass α) : Prop :=
  ∀ trace, (pass trace).2.escaperCalls = trace.escaperCalls ∧
    ctx.answers (pass trace).2 = ctx.answers trace

namespace Context

variable (ctx : Context)

/-- A sequence of steps that ask the escaper nothing asks it nothing. -/
theorem closed_quiet : Pass.Closed (Pass.Quiet ctx) where
  ofExcept _ _ := ⟨rfl, rfl⟩
  bind := by
    intro α β first next hfirst hnext trace
    have hmid := hfirst trace
    cases hstep : first trace with
    | mk result mid =>
        rw [hstep] at hmid
        cases result with
        | error e =>
            rw [Pass.bind_apply_error hstep]
            exact hmid
        | ok a =>
            rw [Pass.bind_apply_ok hstep]
            exact ⟨(hnext a mid).1.trans hmid.1, (hnext a mid).2.trans hmid.2⟩

/-- A step that notes an event is quiet, unless this is a call to the escaper. -/
theorem quiet_of_event {α : Type} {pass : Pass α} {event : Event}
    (hpass : ∀ trace, (pass trace).2 = trace ++ [event])
    (hevent : ∀ before, ctx.answer before event = []) (hcall : Trace.escaperCalls [event] = []) :
    pass.Quiet ctx := by
  intro trace
  rw [hpass, answers_append, hevent, Trace.escaperCalls_append, hcall]
  exact ⟨List.append_nil _, List.append_nil _⟩

/-- Fetching a mapping asks the resolver, not the escaper. -/
theorem quiet_fetch (draft : Draft) (kind : FieldKind) (field : String) :
    (draft.fetch ctx kind field).Quiet ctx :=
  ctx.closed_quiet.fetch (ctx.quiet_of_event (fun _ => rfl) (fun _ => rfl) rfl)
    (fun _ => ctx.quiet_of_event (fun _ => rfl) (fun _ => rfl) rfl) draft kind

end Context

/-! ## Calls that are due -/

/-- Of the calls that are due between two points, the first have been made, and all of them where
the second point is reached by a success. -/
def Trace.Escapes (s t : Trace) (due : List (String × String × Option String)) (success : Prop) :
    Prop :=
  ∃ made, t.escaperCalls = s.escaperCalls ++ made ∧ made <+: due ∧ (success → made = due)

namespace Trace.Escapes

variable {s t u : Trace} {due more : List (String × String × Option String)} {success other : Prop}

theorem of_eq (h : t.escaperCalls = s.escaperCalls) : s.Escapes t [] success :=
  ⟨[], by simp [h], List.nil_prefix, fun _ => rfl⟩

/-- A failure may leave calls that are due. -/
theorem stop (h : s.Escapes t due success) (hother : ¬ other) : s.Escapes t (due ++ more) other := by
  obtain ⟨made, hmade, hprefix, _⟩ := h
  exact ⟨made, hmade, hprefix.trans (List.prefix_append due more), fun h => absurd h hother⟩

/-- The calls of a step that follows a success follow those that led to it. -/
theorem go (h : s.Escapes t due success) (hsuccess : success) (hrest : t.Escapes u more other) :
    s.Escapes u (due ++ more) other := by
  obtain ⟨first, hfirst, _, hall⟩ := h
  obtain ⟨made, hmade, hprefix, hlater⟩ := hrest
  obtain rfl := hall hsuccess
  refine ⟨first ++ made, ?_, (List.prefix_append_right_inj first).2 hprefix, ?_⟩
  · rw [hmade, hfirst, List.append_assoc]
  · intro h
    rw [hlater h]

theorem mono (h : s.Escapes t due success) (himp : other → success) : s.Escapes t due other := by
  obtain ⟨made, hmade, hprefix, hall⟩ := h
  exact ⟨made, hmade, hprefix, fun h => hall (himp h)⟩

end Trace.Escapes

/-- A step that makes the calls that are due. -/
def Pass.Escapes {α : Type} (pass : Pass α) (due : List (String × String × Option String)) :
    Prop :=
  ∀ trace, Trace.Escapes trace (pass trace).2 due (∃ a, (pass trace).1 = .ok a)

namespace Pass

variable {α β : Type} {due more : List (String × String × Option String)}

/-- What asks nothing has made all calls that are due: none. -/
theorem Quiet.escapes {ctx : Context} {pass : Pass α} (h : pass.Quiet ctx) : pass.Escapes [] :=
  fun trace => .of_eq (h trace).1

/-- A step that fails at once may leave any call that is due. -/
theorem escapes_fail (e : ConditionError) (due : List (String × String × Option String)) :
    (fail e : Pass α).Escapes due := by
  intro trace
  refine ⟨[], by simp, List.nil_prefix, ?_⟩
  rintro ⟨a, ha⟩
  cases ha

/-- The calls of steps in a row are due in their order. -/
theorem Escapes.bind {first : Pass α} {next : α → Pass β} (hfirst : first.Escapes due)
    (hnext : ∀ a, (next a).Escapes more) : (first >>= next).Escapes (due ++ more) := by
  intro trace
  have hmid := hfirst trace
  cases hstep : first trace with
  | mk result mid =>
      rw [hstep] at hmid
      cases result with
      | error e =>
          rw [bind_apply_error hstep]
          refine hmid.stop ?_
          rintro ⟨b, hb⟩
          cases hb
      | ok a =>
          rw [bind_apply_ok hstep]
          exact hmid.go ⟨a, rfl⟩ (hnext a mid)

/-- A step whose outcome is known beforehand makes no call. -/
theorem Escapes.ofExcept_bind (outcome : Except ConditionError α) {next : α → Pass β}
    (hnext : ∀ a, outcome = .ok a → (next a).Escapes due) :
    (ofExcept outcome >>= next).Escapes due := by
  cases outcome with
  | error e => exact escapes_fail e due
  | ok a => exact hnext a rfl

/-- A step that goes on without a call makes the same calls. -/
theorem Escapes.bind_pure {first : Pass α} (hfirst : first.Escapes due) (f : α → β) :
    (first >>= fun a => pure (f a)).Escapes due := by
  have h : (first >>= fun a => pure (f a)).Escapes (due ++ []) :=
    hfirst.bind fun a _ => .of_eq rfl
  rwa [List.append_nil] at h

end Pass

/-! ## Leaves -/

namespace Context

/-- Escaping a value is one call. -/
theorem escapes_escape (ctx : Context) (field value : String) (language : Option String) :
    (ctx.escape field value language).Escapes [(field, value, language)] := by
  intro trace
  refine ⟨_, ?_, List.prefix_rfl, fun _ => rfl⟩
  simp [escape, Trace.escaperCalls]

/-- Escaping several values is one call for each of them, in order. -/
theorem escapes_escapeAll (ctx : Context) (field : String) (language : Option String)
    (values : List String) : (ctx.escapeAll field language values).Escapes
      (values.map fun value => (field, value, language)) := by
  induction values with
  | nil => exact fun trace => .of_eq rfl
  | cons value values ih =>
      exact (ctx.escapes_escape field value language).bind fun text =>
        Pass.Escapes.bind_pure ih fun texts => text :: texts

/-- The answer to the call is the text that is given. -/
theorem answers_escape {ctx : Context} {field value text : String} {language : Option String}
    {trace later : Trace} (h : ctx.escape field value language trace = (.ok text, later)) :
    ctx.answers later = ctx.answers trace ++ [.ok text] := by
  obtain ⟨htext, rfl⟩ := Prod.mk.inj h
  rw [answers_append, answer, htext]

/-- So it is for several values. -/
theorem answers_escapeAll {ctx : Context} {field : String} {language : Option String}
    {values texts : List String} {trace later : Trace}
    (h : ctx.escapeAll field language values trace = (.ok texts, later)) :
    ctx.answers later = ctx.answers trace ++ texts.map .ok := by
  induction values generalizing trace texts with
  | nil =>
      cases h
      simp
  | cons value values ih =>
      obtain ⟨first, mid, hfirst, h⟩ := Pass.bind_eq_ok.1 h
      obtain ⟨rest, mid', hrest, h⟩ := Pass.bind_eq_ok.1 h
      cases h
      rw [ih hrest, answers_escape hfirst, List.append_assoc]
      rfl

end Context

namespace Leaf

variable {leaf : Leaf} {ctx : Context} {keys : EntityKeys} {subject : String}
  {mapping : FieldMapping}

/-- The calls of a leaf, whatever comes of it. -/
theorem escapes_clause (leaf : Leaf) (ctx : Context) (keys : EntityKeys) (subject : String)
    (mapping : FieldMapping) :
    (leaf.clause ctx subject (keys.kind leaf.field) mapping).Escapes (leaf.escaped keys) := by
  unfold Leaf.clause escaped hostedValues
  cases hoperator : leaf.operator with
  | equal =>
      dsimp only
      split
      · exact Pass.escapes_fail _ _
      · refine Pass.Escapes.ofExcept_bind _ fun text htext => ?_
        have hvalue : leaf.value = some (.single text) := by
          unfold scalar at htext
          split at htext <;> cases htext
          assumption
        rw [hvalue]
        exact (ctx.escapes_escape leaf.field text leaf.language).bind_pure _
  | isIn =>
      refine Pass.Escapes.ofExcept_bind _ fun bound _ => Pass.Escapes.bind_pure ?_ _
      unfold Leaf.members
      cases leaf.value with
      | none => exact Pass.escapes_fail _ _
      | some value => exact ctx.escapes_escapeAll leaf.field leaf.language value.toList
  | notIn =>
      refine Pass.Escapes.ofExcept_bind _ fun bound _ => Pass.Escapes.bind_pure ?_ _
      unfold Leaf.operand
      rcases hvalue : leaf.value with _ | ⟨text⟩ | ⟨texts⟩
      · exact Pass.escapes_fail _ _
      · exact fun trace => .of_eq rfl
      · rw [hoperator]
        dsimp only [Operator.rule]
        by_cases hkey : (keys.kind leaf.field).isKey = true
        · rw [if_pos hkey, if_pos hkey, Leaf.members, hvalue]
          exact (ctx.escapes_escapeAll leaf.field leaf.language texts).bind_pure _
        · rw [if_neg hkey, if_neg hkey]
          exact fun trace => .of_eq rfl
  | present | absent =>
      exact Pass.Escapes.ofExcept_bind _ fun bound _ trace => .of_eq rfl
  | like | notLike =>
      refine Pass.Escapes.ofExcept_bind _ fun bound _ => ?_
      exact Pass.Escapes.ofExcept_bind _ fun text _ trace => .of_eq rfl
  | notEqual | less | greater | lessOrEqual | greaterOrEqual =>
      -- These take no list, and a single text stands as it is given.
      refine Pass.Escapes.ofExcept_bind _ fun bound _ => Pass.Escapes.bind_pure ?_ _
      unfold Leaf.operand
      rcases leaf.value with _ | ⟨text⟩ | ⟨texts⟩
      · exact Pass.escapes_fail _ _
      · exact fun trace => .of_eq rfl
      · rw [hoperator]
        exact Pass.escapes_fail _ _

/-- The members of a value are the answers to the calls for them. -/
theorem answers_members {texts : List String} {trace later : Trace}
    (h : leaf.members ctx trace = (.ok texts, later)) :
    ctx.answers later = ctx.answers trace ++ texts.map .ok := by
  rw [members] at h
  cases hvalue : leaf.value with
  | none =>
      rw [hvalue] at h
      cases h
  | some value =>
      rw [hvalue] at h
      exact Context.answers_escapeAll h

/-- On a key the list of a comparison takes over the answers, and elsewhere there are none. -/
theorem answers_operand {operand : Operand} {trace later : Trace}
    (h : leaf.operand (keys.kind leaf.field) ctx trace = (.ok operand, later))
    (binding : Option Triple) (operator : Operator) (target : String) :
    ctx.answers later = ctx.answers trace ++
      (leaf.inlined keys (.filter binding operator target operand)).map .ok := by
  unfold Leaf.operand at h
  rcases hvalue : leaf.value with _ | ⟨text⟩ | ⟨texts⟩
  · rw [hvalue] at h
    cases h
  · rw [hvalue] at h
    cases h
    simp [inlined]
  · rw [hvalue] at h
    cases hseparator : leaf.operator.rule.separator with
    | none =>
        simp only [hseparator] at h
        cases h
    | some separator =>
        simp only [hseparator] at h
        by_cases hkey : (keys.kind leaf.field).isKey = true
        · rw [if_pos hkey] at h
          obtain ⟨answers, mid, hanswers, h⟩ := Pass.bind_eq_ok.1 h
          cases h
          rw [inlined, if_pos hkey]
          exact answers_members hanswers
        · rw [if_neg hkey] at h
          cases h
          rw [inlined, if_neg hkey]
          simp

/-- The clause of a leaf takes over the answers. -/
theorem answers_clause {clause : Clause} {trace later : Trace}
    (h : leaf.clause ctx subject (keys.kind leaf.field) mapping trace = (.ok clause, later)) :
    ctx.answers later = ctx.answers trace ++ (leaf.inlined keys clause).map .ok := by
  unfold Leaf.clause at h
  cases hoperator : leaf.operator with
  | equal =>
      simp only [hoperator] at h
      cases hpredicate : mapping.predicate? with
      | none =>
          rw [hpredicate] at h
          cases h
      | some predicate =>
          rw [hpredicate] at h
          obtain ⟨text, _, h⟩ := Pass.ofExcept_bind_eq_ok.1 h
          obtain ⟨object, mid, hobject, h⟩ := Pass.bind_eq_ok.1 h
          cases h
          exact Context.answers_escape hobject
  | isIn =>
      simp only [hoperator] at h
      obtain ⟨⟨target, binding⟩, _, h⟩ := Pass.ofExcept_bind_eq_ok.1 h
      obtain ⟨texts, mid, htexts, h⟩ := Pass.bind_eq_ok.1 h
      cases h
      exact answers_members htexts
  | present | absent =>
      simp only [hoperator] at h
      obtain ⟨⟨target, binding⟩, _, h⟩ := Pass.ofExcept_bind_eq_ok.1 h
      cases h
      simp [inlined]
  | like | notLike =>
      simp only [hoperator] at h
      obtain ⟨⟨target, binding⟩, _, h⟩ := Pass.ofExcept_bind_eq_ok.1 h
      obtain ⟨text, _, h⟩ := Pass.ofExcept_bind_eq_ok.1 h
      cases h
      simp [inlined]
  | notIn | notEqual | less | greater | lessOrEqual | greaterOrEqual =>
      simp only [hoperator] at h
      obtain ⟨⟨target, binding⟩, _, h⟩ := Pass.ofExcept_bind_eq_ok.1 h
      obtain ⟨operand, mid, hoperand, h⟩ := Pass.bind_eq_ok.1 h
      cases h
      exact answers_operand hoperand binding _ target

/-- A leaf makes its calls, whatever comes of it. -/
theorem escapes_compile (leaf : Leaf) (ctx : Context) (keys : EntityKeys) (subject : String)
    (draft : Draft) : (leaf.compile ctx keys subject draft).Escapes (leaf.escaped keys) := by
  have hfetch := (ctx.quiet_fetch draft (keys.kind leaf.field) leaf.field).escapes
  refine hfetch.bind fun found => ?_
  exact (leaf.escapes_clause ctx keys subject found.1).bind_pure _

/-- A leaf that is compiled adds a clause that takes over the answers to its calls. -/
theorem answered_compile {draft next : Draft} {trace later : Trace}
    (h : leaf.compile ctx keys subject draft trace = (.ok next, later)) :
    ∃ (noted : Draft) (clause : Clause), noted.values = draft.values ∧
      noted.conditions = draft.conditions ∧
      next = noted.add (keys.kind leaf.field) leaf.operator clause ∧
      ctx.Answered trace later [leaf.inlined keys clause] [leaf.escaped keys] := by
  have hcalls := leaf.escapes_compile ctx keys subject draft trace
  obtain ⟨⟨mapping, noted⟩, mid, hfetch, hrest⟩ := Pass.bind_eq_ok.1 h
  obtain ⟨clause, mid', hclause, hlast⟩ := Pass.bind_eq_ok.1 hrest
  have hquiet := ctx.quiet_fetch draft (keys.kind leaf.field) leaf.field trace
  obtain ⟨_, hnoted⟩ := Draft.fetch_ok hfetch
  have hanswers := answers_clause hclause
  rw [hfetch] at hquiet
  cases hlast
  rw [hquiet.2] at hanswers
  have hlength : (leaf.inlined keys clause).length = (leaf.escaped keys).length := by
    -- There are as many answers as calls, before and after.
    obtain ⟨made, hmade, _, hall⟩ := hcalls
    rw [h] at hmade hall
    have hlater := ctx.length_answers later
    rw [hanswers, hmade, hall ⟨_, rfl⟩, List.length_append, List.length_append,
      ctx.length_answers, List.length_map] at hlater
    exact Nat.add_left_cancel hlater
  refine ⟨noted, clause, ?_, ?_, rfl, ⟨by simpa using hanswers, by simpa using hlength⟩⟩
  · rw [hnoted, Draft.note_values]
  · rw [hnoted, Draft.note_conditions]

/-- Compile a set of members up to its texts: what the draft has noted, the variable that the set
is about and its binding, and the texts of the members. -/
def keySet (leaf : Leaf) (ctx : Context) (keys : EntityKeys) (subject : String) (draft : Draft) :
    Pass (Draft × String × Option Triple × List String) := do
  let (mapping, noted) ← draft.fetch ctx (keys.kind leaf.field) leaf.field
  let (target, binding) ← Pass.ofExcept (leaf.bind subject mapping)
  let texts ← leaf.members ctx
  pure (noted, target, binding, texts)

/-- On a key, members are written in one way, whether they are required or excluded: with the same
texts or the same error, and after the same calls. -/
theorem compile_key_set (hkey : (keys.kind leaf.field).isKey = true)
    {texts : List String} (hvalue : leaf.value = some (.list texts)) (ctx : Context)
    (subject : String) (draft : Draft) :
    ({ leaf with operator := .isIn } : Leaf).compile ctx keys subject draft =
        (fun (noted, target, binding, members) =>
          noted.add (keys.kind leaf.field) .isIn (.values binding ⟨target, members⟩)) <$>
            leaf.keySet ctx keys subject draft ∧
      ({ leaf with operator := .notIn } : Leaf).compile ctx keys subject draft =
        (fun (noted, target, binding, members) =>
          noted.add (keys.kind leaf.field) .notIn
            (.filter binding .notIn target (.list members ", "))) <$>
              leaf.keySet ctx keys subject draft := by
  obtain ⟨field, value, operator, language⟩ := leaf
  obtain rfl : value = some (.list texts) := hvalue
  dsimp only at hkey ⊢
  constructor
  · simp only [Leaf.compile, keySet, clause, Leaf.members, map_eq_pure_bind, bind_assoc, pure_bind]
    rfl
  · simp only [Leaf.compile, keySet, clause, operand, Leaf.members, Operator.rule, hkey,
      map_eq_pure_bind, bind_assoc, pure_bind, if_true]
    rfl

end Leaf

/-! ## Trees -/

namespace Group

theorem escaped_of_building {group : Group} (h : group.state = .building) :
    group.escaped = Entry.escaped group.keys group.entries := by
  obtain ⟨conjunction, keys, entries, lacksBundle, state⟩ := group
  obtain rfl : state = .building := h
  rw [escaped]

theorem escaped_of_compiled {group : Group} (h : group.state ≠ .building) :
    group.escaped = [] := by
  obtain ⟨conjunction, keys, entries, lacksBundle, state⟩ := group
  rw [escaped]
  exact h

theorem inlined_withPlan (group : Group) (entries : List Entry) (plan : Plan) :
    (group.withPlan entries plan).inlined =
      Entry.inlined group.keys entries plan.values plan.conditions := by
  rw [withPlan, inlined]

/-- Compiling a tree or a list of entries makes the calls that are due, in order. -/
theorem escapes_compile_and_compileAll (ctx : Context) :
    (∀ (group : Group) trace, Trace.Escapes trace (group.compile ctx trace).trace
      group.escaped.flatten ((group.compile ctx trace).result = .ok ())) ∧
      ∀ entries keys subject index draft trace,
        Trace.Escapes trace (Entry.compileAll ctx keys subject entries index draft trace).trace
          (Entry.escaped keys entries).flatten
          (∃ final, (Entry.compileAll ctx keys subject entries index draft trace).result =
            .ok final) := by
  refine treeInduction ?_ ?_ ?_ ?_
  · intro conjunction keys entries lacksBundle state ih trace
    by_cases hstate : state = .building
    · subst hstate
      have hreport : Trace.Escapes trace
          (trace ++ [.compiling conjunction entries.length ctx.entityType]) [] True :=
        .of_eq (by simp [Trace.escaperCalls])
      rw [compile, escaped]
      cases Variable.ofName ctx.options.subjectVariable with
      | error e => exact hreport.stop (by simp)
      | ok subject =>
          have hwalk := hreport.go trivial (ih keys subject 0 {} _)
          rw [List.nil_append] at hwalk
          dsimp only
          split
          · exact hwalk.mono (by simp)
          · rename_i draft hdraft
            split
            · exact hwalk.mono (by simp)
            · exact hwalk.mono fun _ => ⟨draft, hdraft⟩
    · rw [compile_of_compiled hstate, escaped_of_compiled hstate]
      exact .of_eq (by simp [Trace.escaperCalls])
  · intro keys subject index draft trace
    rw [Entry.compileAll, Entry.escaped]
    exact .of_eq rfl
  · intro leaf rest ih keys subject index draft trace
    have hleaf := leaf.escapes_compile ctx keys subject draft trace
    rw [Entry.compileAll, Entry.escaped, List.flatten_cons]
    cases hstep : leaf.compile ctx keys subject draft trace with
    | mk result mid =>
        rw [hstep] at hleaf
        cases result with
        | error e => exact hleaf.stop (by simp)
        | ok next => exact hleaf.go ⟨next, rfl⟩ (ih keys subject (index + 1) next mid)
  · intro inner rest hinner ih keys subject index draft trace
    rw [Entry.compileAll, Entry.escaped, List.flatten_append]
    dsimp only
    split
    · exact (hinner trace).stop (by simp)
    · rename_i hresult
      exact (hinner trace).go hresult (ih keys subject (index + 1) (draft.addNested index) _)

end Group

/-- A walk over entries adds clauses to a draft that take over the answers to the calls of the
entries. -/
def Entry.TakesOver (ctx : Context) (keys : EntityKeys) (entries left : List Entry)
    (draft final : Draft) (s t : Trace) : Prop :=
  ∃ values conditions, final.values = draft.values ++ values ∧
    final.conditions = draft.conditions ++ conditions ∧ ∀ others,
      ctx.Answered s t (Entry.inlined keys left (values ++ others) conditions)
        (Entry.escaped keys entries)

namespace Entry.TakesOver

variable {ctx : Context} {keys : EntityKeys} {rest left : List Entry} {draft final : Draft}
  {s t u : Trace}

theorem nil (ctx : Context) (keys : EntityKeys) (draft : Draft) (trace : Trace) :
    TakesOver ctx keys [] [] draft draft trace trace := by
  refine ⟨[], [], by simp, by simp, fun others => ?_⟩
  rw [Entry.inlined, Entry.escaped]
  exact .nil rfl

/-- The clause of a leaf is the first of those that a walk adds to the list in which it stands. -/
theorem leaf {leaf : Leaf} {subject : String} {next : Draft}
    (hleaf : leaf.compile ctx keys subject draft s = (.ok next, t))
    (h : TakesOver ctx keys rest left next final t u) :
    TakesOver ctx keys (.leaf leaf :: rest) (.leaf leaf :: left) draft final s u := by
  obtain ⟨noted, clause, hnoted, hnoted', rfl, hanswered⟩ := Leaf.answered_compile hleaf
  obtain ⟨values, conditions, hvalues, hconditions, hrest⟩ := h
  rw [Draft.values_add, hnoted] at hvalues
  rw [Draft.conditions_add, hnoted'] at hconditions
  cases hset : leaf.isKeySet keys with
  | true =>
      rw [hset] at hvalues hconditions
      refine ⟨clause :: values, conditions, by simp [hvalues], hconditions, fun others => ?_⟩
      rw [Entry.inlined, if_pos hset, Entry.escaped]
      exact hanswered.append (hrest others)
  | false =>
      rw [hset] at hvalues hconditions
      refine ⟨values, clause :: conditions, hvalues, by simp [hconditions], fun others => ?_⟩
      rw [Entry.inlined, if_neg (by simp [hset]), Entry.escaped]
      exact hanswered.append (hrest others)

/-- A nested group takes over what its own clauses do. -/
theorem nested {inner compiled : Group} {index : Nat}
    (hinner : ctx.Answered s t compiled.inlined inner.escaped)
    (h : TakesOver ctx keys rest left (draft.addNested index) final t u) :
    TakesOver ctx keys (.nested inner :: rest) (.nested compiled :: left) draft final s u := by
  obtain ⟨values, conditions, hvalues, hconditions, hrest⟩ := h
  refine ⟨values, .nested index :: conditions, hvalues, ?_, fun others => ?_⟩
  · rw [hconditions, Draft.addNested, List.append_assoc]
    rfl
  · rw [Entry.inlined, Entry.escaped]
    exact hinner.append (hrest others)

end Entry.TakesOver

namespace Group

/-- What a tree that has been built takes over when it is compiled are the answers to its calls. -/
theorem answered_compile_and_compileAll (ctx : Context) :
    (∀ group : Group, group.AllBuilding → ∀ trace, (group.compile ctx trace).result = .ok () →
      ctx.Answered trace (group.compile ctx trace).trace (group.compile ctx trace).left.inlined
        group.escaped) ∧
      ∀ entries, (∀ inner, .nested inner ∈ entries → inner.AllBuilding) →
        ∀ keys subject index draft final trace,
          (Entry.compileAll ctx keys subject entries index draft trace).result = .ok final →
          Entry.TakesOver ctx keys entries
            (Entry.compileAll ctx keys subject entries index draft trace).left draft final trace
            (Entry.compileAll ctx keys subject entries index draft trace).trace := by
  refine treeInduction ?_ ?_ ?_ ?_
  · intro conjunction keys entries lacksBundle state ih hbuilding trace hok
    have hstate : state = .building := phase_eq_building_iff.1 hbuilding.self
    obtain ⟨subject, draft, triple?, hsubject, hwalk, hbundle, _⟩ := compile_ok hstate hok
    obtain ⟨values, conditions, hvalues, hconditions, hanswered⟩ :=
      ih (everywhere_iff.1 hbuilding).2 _ _ _ _ _ _ hwalk
    have hreport : ctx.answers (trace ++ [.compiling conjunction entries.length ctx.entityType]) =
        ctx.answers trace := by
      rw [Context.answers_append]
      exact List.append_nil _
    have hall := (Context.Answered.nil hreport).append (hanswered draft.candidates)
    rw [compile_eq_of_walk hstate hsubject hwalk hbundle, escaped_of_building hstate,
      inlined_withPlan]
    dsimp only [Draft.finish]
    rw [hvalues, hconditions]
    exact hall
  · intro _ keys subject index draft final trace h
    rw [Entry.compileAll] at h ⊢
    cases h
    exact .nil ctx keys draft trace
  · intro leaf rest ih hbuilding keys subject index draft final trace h
    rw [Entry.compileAll] at h ⊢
    cases hstep : leaf.compile ctx keys subject draft trace with
    | mk result mid =>
        rw [hstep] at h
        cases result with
        | error e => cases h
        | ok next =>
            exact .leaf hstep
              (ih (fun inner hinner => hbuilding inner (by simp [hinner])) _ _ _ _ _ _ h)
  · intro inner rest hinner ih hbuilding keys subject index draft final trace h
    rw [Entry.compileAll] at h ⊢
    dsimp only at h ⊢
    cases hresult : (inner.compile ctx trace).result with
    | error e =>
        rw [hresult] at h
        cases h
    | ok _ =>
        rw [hresult] at h
        exact .nested (hinner (hbuilding inner (by simp)) trace hresult)
          (ih (fun inner hinner => hbuilding inner (by simp [hinner])) _ _ _ _ _ _ h)

/-- Where compiling succeeds, every equation has a single text. -/
theorem single_of_equal {group : Group} {ctx : Context} {trace : Trace}
    (hstate : group.state = .building) (h : (group.compile ctx trace).result = .ok ())
    {leaf : Leaf} (hleaf : leaf ∈ group.ownLeaves) (hoperator : leaf.operator = .equal) :
    ∃ text, leaf.value = some (.single text) := by
  obtain ⟨subject, draft, triple?, hsubject, hwalk, hbundle, _⟩ := compile_ok hstate h
  obtain ⟨clause, _, mapping, _, hbecomes⟩ := (made_walk hwalk).clause leaf hleaf
  cases hbecomes with
  | triple _ _ hscalar =>
      unfold Leaf.scalar at hscalar
      split at hscalar
      · exact ⟨_, ‹_›⟩
      · cases hscalar
      · cases hscalar
  | values hother | existence hother | pattern hother | filter hother =>
      rw [hoperator] at hother
      simp [Operator.isComparison] at hother

end Group

/-- A compile calls the escaper for the values of equations and for the members of sets, leaf by
leaf, and has made the first of these calls when it fails.  The answers are taken over unchanged,
one for each call.  On keys there are sets only, without a language, and a set is written in one
way, whether it is required or excluded. -/
theorem Group.escaperCalls_compile {group : Group} (hreach : group.Reachable)
    (hbuilding : group.AllBuilding) (ctx : Context) (trace : Trace) :
    (∃ made, (group.compile ctx trace).trace.escaperCalls = trace.escaperCalls ++ made ∧
      made <+: group.escaped.flatten ∧
        ((group.compile ctx trace).result = .ok () → made = group.escaped.flatten)) ∧
    ((group.compile ctx trace).result = .ok () →
      ctx.answers (group.compile ctx trace).trace =
          ctx.answers trace ++ (group.compile ctx trace).left.inlined.flatten.map .ok ∧
        (group.compile ctx trace).left.inlined.map List.length =
          group.escaped.map List.length ∧
        ∀ inner : Group, inner.Within group → ∀ leaf ∈ inner.ownLeaves,
          leaf.operator = .equal → ∃ text, leaf.value = some (.single text)) ∧
    ∀ inner : Group, inner.Within group → ∀ leaf ∈ inner.ownLeaves,
      (inner.keys.kind leaf.field).isKey = true →
        leaf.language = none ∧ (∃ texts, leaf.value = some (.list texts)) ∧
          (leaf.operator = .isIn ∨ leaf.operator = .notIn) ∧
          ∀ subject draft,
            ({ leaf with operator := .isIn } : Leaf).compile ctx inner.keys subject draft =
                (fun (noted, target, binding, members) =>
                  noted.add (inner.keys.kind leaf.field) .isIn
                    (.values binding ⟨target, members⟩)) <$>
                  leaf.keySet ctx inner.keys subject draft ∧
              ({ leaf with operator := .notIn } : Leaf).compile ctx inner.keys subject draft =
                (fun (noted, target, binding, members) =>
                  noted.add (inner.keys.kind leaf.field) .notIn
                    (.filter binding .notIn target (.list members ", "))) <$>
                  leaf.keySet ctx inner.keys subject draft := by
  refine ⟨(escapes_compile_and_compileAll ctx).1 group trace, ?_, ?_⟩
  · intro hok
    have hanswered := (answered_compile_and_compileAll ctx).1 group hbuilding trace hok
    refine ⟨hanswered.answers, hanswered.lengths, ?_⟩
    intro inner hinner leaf hleaf hoperator
    obtain ⟨mid, hmid⟩ := compile_ok_of_within hinner hbuilding hok
    exact single_of_equal (phase_eq_building_iff.1 (hbuilding inner hinner)) hmid hleaf hoperator
  · intro inner hinner leaf hleaf hkey
    obtain ⟨steps, hsteps⟩ := hreach
    have hstored := (wellStored_invariant (Workspace.Uses steps)).everywhere hsteps inner hinner
    obtain ⟨⟨texts, hvalue⟩, hlanguage, hoperator⟩ :=
      (hstored.stored leaf hleaf).of_isKey hkey
    exact ⟨hlanguage, ⟨texts, hvalue⟩, hoperator, Leaf.compile_key_set hkey hvalue ctx⟩

/-- Compiling the sample group writes its title and then the two ids of the union. -/
theorem Group.escaperCalls_page :
    Sample.page.Reachable ∧ Sample.page.AllBuilding ∧
      ∃ made, (Sample.page.compile Sample.context []).trace.escaperCalls = [] ++ made ∧
        made = [("title", "'home'", none), ("nid", "1", none), ("nid", "2", none)] := by
  have hreach : Sample.page.Reachable := ⟨Sample.building, "page", rfl⟩
  have hbuilding : Sample.page.AllBuilding := bare_eq_self_iff.1 rfl
  obtain ⟨⟨made, hmade, _, hall⟩, _, _⟩ :=
    escaperCalls_compile hreach hbuilding Sample.context []
  refine ⟨hreach, hbuilding, made, hmade, ?_⟩
  rw [hall rfl]
  decide +kernel

end GraphCriteria
