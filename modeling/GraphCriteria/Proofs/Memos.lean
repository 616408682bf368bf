import GraphCriteria.Group.Compile

/-!
# What a memo remembers

A memo is asked for the mappings of fields, with a step that finds each if need be.  The first step
for a field that succeeds settles the mapping: it is given out from then on, and no later step for
the field is run.  A step that fails leaves nothing behind.

Main definitions:

- Definition `Memo.inquire`: one call to a memo.
- Definition `Memo.run`: calls one after another, with what each of them came upon.
- Definition `firstSuccess`: the mapping that the first successful step for a field found.

Main results:

- Theorem `Turn.runs_iff`: a call runs its step if the field has no mapping yet.
- Theorem `Turn.outcome_cases`: what a call can do.
- Theorem `Run.Remembers.next`: what a memo remembers is right after one more call.
- Theorem `Memo.remembers_run`: it is right after any calls.
- Theorem `Memo.first_success`: what every call gives, and what the memo holds in the end.
-/

namespace GraphCriteria

/-! ## Calls -/

/-- A call to a memo: a field, and the step that finds its mapping if need be. -/
structure Inquiry where
  field : String
  find : Pass FieldMapping

/-- The mapping that a call gives, whether it was found just now, and the memo that is left.  A call
that fails leaves the memo as it was. -/
def Memo.inquire (memo : Memo) (inquiry : Inquiry) (trace : Trace) :
    Outcome Memo (FieldMapping × Bool) :=
  match memo.fetch inquiry.field inquiry.find trace with
  | (.ok found, later) => ⟨.ok (found.mapping, found.isNew), found.memo, later⟩
  | (.error e, later) => ⟨.error e, memo, later⟩

/-- A call with the memo that it is made to, and what has happened before. -/
structure Turn where
  inquiry : Inquiry
  memo : Memo
  trace : Trace

namespace Turn

/-- What the step of a call gives at the time of the call. -/
def own (turn : Turn) : Except ConditionError FieldMapping :=
  (turn.inquiry.find turn.trace).1

/-- The outcome of a call. -/
def outcome (turn : Turn) : Outcome Memo (FieldMapping × Bool) :=
  turn.memo.inquire turn.inquiry turn.trace

/-- Whether a call gives a mapping that was found just now. -/
def isNew (turn : Turn) : Bool :=
  turn.outcome.result.toOption.any Prod.snd

/-- Whether a call runs its step: with another step, the outcome could have been another. -/
def Runs (turn : Turn) : Prop :=
  ∃ find, turn.memo.inquire ⟨turn.inquiry.field, find⟩ turn.trace ≠ turn.outcome

end Turn

/-- The mapping that the first successful step for a field found. -/
def firstSuccess (field : String) (turns : List Turn) : Option FieldMapping :=
  turns.findSome? fun turn => if turn.inquiry.field = field then turn.own.toOption else none

/-- Some calls, the memo that is left, and what has happened by then. -/
structure Run where
  turns : List Turn := []
  memo : Memo := {}
  trace : Trace

/-- One more call. -/
def Run.next (run : Run) (inquiry : Inquiry) : Run :=
  let outcome := run.memo.inquire inquiry run.trace
  ⟨run.turns ++ [⟨inquiry, run.memo, run.trace⟩], outcome.left, outcome.trace⟩

/-- Calls to a new memo, one after another. -/
def Memo.run (inquiries : List Inquiry) (start : Trace) : Run :=
  inquiries.foldl Run.next { trace := start }

/-! ## One call -/

namespace Memo

variable {memo : Memo} {field : String} {find : Pass FieldMapping} {trace later : Trace}
  {mapping : FieldMapping}

/-- A mapping that is known is given without running the step. -/
theorem inquire_of_get? (h : memo.get? field = some mapping) (find : Pass FieldMapping)
    (trace : Trace) : memo.inquire ⟨field, find⟩ trace = ⟨.ok (mapping, false), memo, trace⟩ := by
  rw [inquire, fetch_of_get? h]
  rfl

/-- A mapping that is found is reported and remembered. -/
theorem inquire_of_found (h : memo.get? field = none) (hfind : find trace = (.ok mapping, later)) :
    memo.inquire ⟨field, find⟩ trace =
      ⟨.ok (mapping, true), memo.push field mapping, later ++ [.mapped field mapping]⟩ := by
  rw [inquire, fetch, h]
  dsimp only
  rw [Pass.bind_apply_ok hfind]
  rfl

/-- A step that fails changes nothing but the trace. -/
theorem inquire_of_failed {e : ConditionError} (h : memo.get? field = none)
    (hfind : find trace = (.error e, later)) :
    memo.inquire ⟨field, find⟩ trace = ⟨.error e, memo, later⟩ := by
  rw [inquire, fetch, h]
  dsimp only
  rw [Pass.bind_apply_error hfind]

end Memo

namespace Turn

variable {turn : Turn}

/-- A call runs its step if the field has no mapping yet. -/
theorem runs_iff : turn.Runs ↔ turn.memo.get? turn.inquiry.field = none := by
  constructor
  · rintro ⟨find, hne⟩
    cases hknown : turn.memo.get? turn.inquiry.field with
    | none => rfl
    | some mapping =>
        rw [outcome, Memo.inquire_of_get? hknown, Memo.inquire_of_get? hknown] at hne
        exact absurd rfl hne
  · intro hnew
    have hfound := Memo.inquire_of_found hnew (Pass.pure_apply .subject turn.trace)
    have hfailed := Memo.inquire_of_failed hnew (Pass.fail_apply .notCompiled turn.trace)
    -- A step that succeeds and one that fails cannot both give the outcome of the call.
    by_cases hsame : turn.memo.inquire ⟨turn.inquiry.field, pure .subject⟩ turn.trace = turn.outcome
    · refine ⟨Pass.fail .notCompiled, fun heq => ?_⟩
      rw [← hsame, hfound, hfailed] at heq
      cases congrArg Outcome.result heq
    · exact ⟨_, hsame⟩

/-- A call gives a mapping that is known, or one that its step has found, or it fails. -/
theorem outcome_cases (turn : Turn) :
    (∃ mapping, turn.memo.get? turn.inquiry.field = some mapping ∧
      turn.outcome = ⟨.ok (mapping, false), turn.memo, turn.trace⟩) ∨
    (∃ mapping later, turn.memo.get? turn.inquiry.field = none ∧ turn.own = .ok mapping ∧
      turn.outcome = ⟨.ok (mapping, true), turn.memo.push turn.inquiry.field mapping, later⟩) ∨
    ∃ e later, turn.memo.get? turn.inquiry.field = none ∧ turn.own = .error e ∧
      turn.outcome = ⟨.error e, turn.memo, later⟩ := by
  cases hknown : turn.memo.get? turn.inquiry.field with
  | some mapping => exact .inl ⟨mapping, rfl, Memo.inquire_of_get? hknown _ _⟩
  | none =>
      cases hfind : turn.inquiry.find turn.trace with
      | mk result later =>
          have hown : turn.own = result := congrArg Prod.fst hfind
          cases result with
          | ok mapping =>
              exact .inr (.inl ⟨mapping, _, rfl, hown, Memo.inquire_of_found hknown hfind⟩)
          | error e => exact .inr (.inr ⟨e, _, rfl, hown, Memo.inquire_of_failed hknown hfind⟩)

/-- A call gives a new mapping if the field had none and its step succeeds. -/
theorem isNew_iff : turn.isNew = true ↔
    turn.memo.get? turn.inquiry.field = none ∧ ∃ mapping, turn.own = .ok mapping := by
  rw [isNew]
  rcases turn.outcome_cases with ⟨_, hknown, houtcome⟩ | ⟨_, _, hnew, hown, houtcome⟩ |
    ⟨_, _, hnew, hown, houtcome⟩
  · simp [houtcome, hknown, Except.toOption]
  · simp [houtcome, hnew, hown, Except.toOption]
  · simp [houtcome, hown, Except.toOption]

/-- After a call, the memo has what it had, and else what the step found. -/
theorem get?_left (field : String) :
    turn.outcome.left.get? field = (turn.memo.get? field).or
      (if turn.inquiry.field = field then turn.own.toOption else none) := by
  rcases turn.outcome_cases with ⟨_, hknown, houtcome⟩ | ⟨_, _, hnew, hown, houtcome⟩ |
    ⟨_, _, _, hown, houtcome⟩
  · rw [houtcome]
    by_cases hfield : turn.inquiry.field = field
    · rw [← hfield, hknown, Option.some_or]
    · rw [if_neg hfield, Option.or_none]
  · rw [houtcome, Memo.get?_push hnew, hown]
    by_cases hfield : turn.inquiry.field = field
    · rw [if_pos hfield.symm, if_pos hfield, ← hfield, hnew]
      rfl
    · rw [if_neg (Ne.symm hfield), if_neg hfield, Option.or_none]
  · rw [houtcome, hown]
    cases turn.memo.get? field <;> simp [Except.toOption]

/-- A call adds its field to the memo if it gives a new mapping. -/
theorem fields_left : turn.outcome.left.fields =
    turn.memo.fields ++ if turn.isNew then [turn.inquiry.field] else [] := by
  rw [isNew]
  rcases turn.outcome_cases with ⟨_, _, houtcome⟩ | ⟨_, _, _, _, houtcome⟩ | ⟨_, _, _, _, houtcome⟩
  · simp [houtcome, Except.toOption]
  · simp [houtcome, Except.toOption, Memo.fields, Memo.push]
  · simp [houtcome, Except.toOption]

end Turn

/-! ## Calls one after another -/

theorem firstSuccess_concat (field : String) (turns : List Turn) (turn : Turn) :
    firstSuccess field (turns ++ [turn]) = (firstSuccess field turns).or
      (if turn.inquiry.field = field then turn.own.toOption else none) := by
  rw [firstSuccess, List.findSome?_append, List.findSome?_singleton]
  rfl

namespace Run

/-- What the memo remembers after some calls is right: it is what was found first, its fields are
those of the calls that gave a new mapping, and each call has come upon such a memo. -/
structure Remembers (run : Run) : Prop where
  found : ∀ field, run.memo.get? field = firstSuccess field run.turns
  fields : run.memo.fields = (run.turns.filter Turn.isNew).map (·.inquiry.field)
  distinct : run.memo.fields.Nodup
  met : ∀ earlier turn later, run.turns = earlier ++ turn :: later →
    ∀ field, turn.memo.get? field = firstSuccess field earlier

/-- Before the first call, nothing is remembered. -/
theorem remembers_start (start : Trace) : Remembers { trace := start } where
  found _ := rfl
  fields := rfl
  distinct := .nil
  met earlier turn later h := by simp at h

variable {run : Run}

/-- What is remembered is right after one more call. -/
theorem Remembers.next (h : run.Remembers) (inquiry : Inquiry) : (run.next inquiry).Remembers := by
  have hturns : (run.next inquiry).turns = run.turns ++ [⟨inquiry, run.memo, run.trace⟩] := rfl
  have hmemo : (run.next inquiry).memo =
    (Turn.mk inquiry run.memo run.trace).outcome.left := rfl
  refine ⟨fun field => ?_, ?_, ?_, fun earlier turn later hsplit field => ?_⟩
  · rw [hmemo, Turn.get?_left, hturns, firstSuccess_concat, h.found]
  · rw [hmemo, Turn.fields_left, hturns, List.filter_append, List.map_append, ← h.fields]
    cases hnew : (Turn.mk inquiry run.memo run.trace).isNew <;> simp [hnew]
  · rw [hmemo, Turn.fields_left]
    cases hnew : (Turn.mk inquiry run.memo run.trace).isNew with
    | false => simpa using h.distinct
    | true =>
        have hfield := Memo.get?_eq_none_iff.1 (Turn.isNew_iff.1 hnew).1
        rw [if_pos rfl, List.nodup_append]
        refine ⟨h.distinct, by simp, fun a ha b hb => ?_⟩
        rw [List.mem_singleton.1 hb]
        rintro rfl
        exact hfield ha
  · rw [hturns] at hsplit
    rcases List.eq_nil_or_concat later with rfl | ⟨front, last, rfl⟩
    · obtain ⟨hearlier, hturn⟩ := List.append_inj' hsplit rfl
      obtain rfl := hearlier
      obtain ⟨rfl, -⟩ := List.cons.inj hturn
      exact h.found field
    · rw [List.concat_eq_append, ← List.cons_append, ← List.append_assoc] at hsplit
      exact h.met earlier turn front (List.append_inj' hsplit rfl).1 field

theorem Remembers.foldl (h : run.Remembers) (inquiries : List Inquiry) :
    (inquiries.foldl Run.next run).Remembers := by
  induction inquiries generalizing run with
  | nil => exact h
  | cons inquiry inquiries ih => exact ih (h.next inquiry)

/-- The calls are made in order. -/
theorem inquiries_foldl (run : Run) (inquiries : List Inquiry) :
    (inquiries.foldl Run.next run).turns.map Turn.inquiry =
      run.turns.map Turn.inquiry ++ inquiries := by
  induction inquiries generalizing run with
  | nil => simp
  | cons inquiry inquiries ih =>
      rw [List.foldl_cons, ih, next, List.map_append, List.append_assoc]
      rfl

end Run

namespace Memo

/-- After any calls to a new memo, what it remembers is right. -/
theorem remembers_run (inquiries : List Inquiry) (start : Trace) :
    (run inquiries start).Remembers :=
  (Run.remembers_start start).foldl inquiries

/-- In the end a memo holds, for each field, what its first successful step found, and lists every
such field once.  A call runs its step if no earlier step for its field has succeeded.  Then it gives
what the step found, says that it is new, and the memo remembers it; or it fails as the step did and
leaves the memo as it was.  Every other call gives the mapping that is remembered. -/
theorem first_success (inquiries : List Inquiry) (start : Trace) :
    let run := Memo.run inquiries start
    run.turns.map Turn.inquiry = inquiries ∧
    (∀ field, run.memo.get? field = firstSuccess field run.turns) ∧
    (run.memo.fields.Nodup ∧
      (∀ field mapping, (field, mapping) ∈ run.memo.entries ↔
        firstSuccess field run.turns = some mapping) ∧
      ∀ found : List String, found.Nodup →
        (∀ field, field ∈ found ↔ (firstSuccess field run.turns).isSome = true) →
          run.memo.size = found.length) ∧
    (run.turns.filter Turn.isNew).map (·.inquiry.field) = run.memo.fields ∧
    ∀ earlier turn later, run.turns = earlier ++ turn :: later →
      (turn.Runs ↔ firstSuccess turn.inquiry.field earlier = none) ∧
      (turn.isNew = true ↔ firstSuccess turn.inquiry.field earlier = none ∧
        ∃ mapping, turn.own = .ok mapping) ∧
      (∀ mapping, firstSuccess turn.inquiry.field earlier = some mapping →
        turn.outcome = ⟨.ok (mapping, false), turn.memo, turn.trace⟩) ∧
      (firstSuccess turn.inquiry.field earlier = none →
        (∀ mapping trace, turn.inquiry.find turn.trace = (.ok mapping, trace) →
          turn.outcome = ⟨.ok (mapping, true), turn.memo.push turn.inquiry.field mapping,
            trace ++ [.mapped turn.inquiry.field mapping]⟩) ∧
        ∀ e trace, turn.inquiry.find turn.trace = (.error e, trace) →
          turn.outcome = ⟨.error e, turn.memo, trace⟩) := by
  intro run
  have h : run.Remembers := remembers_run inquiries start
  refine ⟨Run.inquiries_foldl _ inquiries, h.found, ⟨h.distinct, fun field mapping => ?_,
    fun found hnodup hfound => ?_⟩, h.fields.symm, fun earlier turn later hsplit => ?_⟩
  · rw [mem_entries_iff h.distinct, h.found]
  · have hsame : ∀ field, field ∈ run.memo.fields ↔ field ∈ found := by
      intro field
      rw [hfound, ← h.found, Option.isSome_iff_ne_none, Ne, get?_eq_none_iff, Classical.not_not]
    have hperm := (List.perm_ext_iff_of_nodup h.distinct hnodup).2 hsame
    rw [size, ← hperm.length_eq, fields, List.length_map]
  · rw [← h.met earlier turn later hsplit]
    exact ⟨Turn.runs_iff, Turn.isNew_iff, fun mapping hknown => inquire_of_get? hknown _ _,
      fun hnew => ⟨fun mapping trace => inquire_of_found hnew,
        fun e trace => inquire_of_failed hnew⟩⟩

end Memo

/-- Three calls for one field: the first step fails, and the others find different mappings. -/
def Sample.retried : List Inquiry :=
  [⟨"tag", Pass.fail (.unknownFieldMapping "node" "tag")⟩, ⟨"tag", pure (.predicate "<tag>")⟩,
    ⟨"tag", pure (.predicate "<topic>")⟩]

/-- The first call fails, the second gives a new mapping, and the third gives it again. -/
theorem Memo.first_success_retried :
    (Memo.run Sample.retried []).memo.size = 1 ∧
      ∃ refused found again : Turn, (Memo.run Sample.retried []).turns = [refused, found, again] ∧
        refused.outcome = ⟨.error (.unknownFieldMapping "node" "tag"), {}, []⟩ ∧
        found.outcome = ⟨.ok (.predicate "<tag>", true), ⟨[("tag", .predicate "<tag>")]⟩,
          [.mapped "tag" (.predicate "<tag>")]⟩ ∧
        again.outcome.result = .ok (.predicate "<tag>", false) := by
  have hfields : ∀ field, field ∈ ["tag"] ↔
      (firstSuccess field (Memo.run Sample.retried []).turns).isSome = true := by
    intro field
    by_cases hfield : "tag" = field
    · subst hfield
      decide +kernel
    · simp [firstSuccess, Memo.run, Run.next, Sample.retried, hfield, Ne.symm hfield]
  obtain ⟨-, -, ⟨-, -, hsize⟩, -, hturn⟩ := Memo.first_success Sample.retried []
  refine ⟨hsize ["tag"] (by decide) hfields, _, _, _, rfl, ?_, ?_, ?_⟩
  · exact ((hturn [] _ _ rfl).2.2.2 rfl).2 _ _ rfl
  · exact ((hturn [_] _ _ rfl).2.2.2 rfl).1 _ _ rfl
  · exact congrArg Outcome.result ((hturn [_, _] _ [] rfl).2.2.1 _ rfl)

end GraphCriteria
