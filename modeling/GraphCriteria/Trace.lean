import GraphCriteria.Diagnostic

/-!
# Traces of a pass

A pass over a group calls its host to resolve fields and to escape values, and reports
its progress.  A trace lists both, in the order in which they happen.  A pass stops at
its first error and keeps the trace up to there.
-/

namespace GraphCriteria

/-! ## Events -/

/-- Something that happens while a group is built, compiled or rendered. -/
inductive Event where
  | resolverCall (entityType field : String)
  | escaperCall (field value : String) (language : Option String)
  | built (conjunction : Conjunction) (entries : Nat)
  | compiling (conjunction : Conjunction) (entries : Nat) (entityType : String)
  | skipped
  | mapped (field : String) (mapping : FieldMapping)
  | rendered (conjunction : Conjunction) (text : String)
deriving DecidableEq, Repr

/-- What has happened so far, in order. -/
abbrev Trace := List Event

namespace Trace

/-- The calls made to the resolver. -/
def resolverCalls (trace : Trace) : List (String × String) :=
  trace.filterMap fun
    | .resolverCall entityType field => some (entityType, field)
    | _ => none

/-- The calls made to the escaper. -/
def escaperCalls (trace : Trace) : List (String × String × Option String) :=
  trace.filterMap fun
    | .escaperCall field value language => some (field, value, language)
    | _ => none

@[simp] theorem escaperCalls_append (s t : Trace) :
    escaperCalls (s ++ t) = escaperCalls s ++ escaperCalls t := by
  simp [escaperCalls]

end Trace

/-! ## Log lines -/

/-- How important a log line is, the most important first. -/
inductive Level where
  | error
  | warn
  | info
  | debug
  | trace
deriving DecidableEq, Repr, Inhabited

namespace Level

/-- The name of a level. -/
def name : Level → String
  | error => "ERROR"
  | warn => "WARN"
  | info => "INFO"
  | debug => "DEBUG"
  | trace => "TRACE"

/-- The place of a level among all, counted from the most important. -/
def rank : Level → Nat
  | error => 0
  | warn => 1
  | info => 2
  | debug => 3
  | trace => 4

end Level

/-- A line of the log. -/
structure LogLine where
  level : Level
  message : String
deriving DecidableEq, Repr

/-- The log line that reports an event.  Calls to the host are not reported. -/
def Event.logLine? : Event → Option LogLine
  | resolverCall .. | escaperCall .. => none
  | built conjunction entries =>
    some ⟨.debug, "Built " ++ conjunction.symbol ++ " group with " ++ toString entries ++
      " entries from request"⟩
  | compiling conjunction entries entityType =>
    some ⟨.debug, "Compiling " ++ conjunction.symbol ++ " condition group with " ++
      toString entries ++ " entries for entity type '" ++ entityType ++ "'"⟩
  | skipped => some ⟨.debug, "Condition group already compiled, skipping"⟩
  | mapped field mapping =>
    some ⟨.trace, "Mapped field '" ++ field ++ "' to " ++ mapping.diagnostic⟩
  | rendered conjunction text =>
    some ⟨.debug, "Rendered " ++ conjunction.symbol ++ " condition group: " ++ text⟩

/-- The log of a trace. -/
def Trace.log (trace : Trace) : List LogLine :=
  trace.filterMap Event.logLine?

/-! ## Passes -/

/-- A step of a pass: from what has happened so far, an outcome and what has happened by
then. -/
def Pass (α : Type) : Type :=
  Trace → Except ConditionError α × Trace

namespace Pass

variable {α β : Type}

/-- The step that does nothing. -/
protected def pure (a : α) : Pass α :=
  fun trace => (.ok a, trace)

/-- One step after another, unless the first fails. -/
protected def bind (first : Pass α) (next : α → Pass β) : Pass β :=
  fun trace =>
    match first trace with
    | (.ok a, trace) => next a trace
    | (.error e, trace) => (.error e, trace)

instance : Monad Pass where
  pure := Pass.pure
  bind := Pass.bind

/-- The step that has a known outcome. -/
def ofExcept (outcome : Except ConditionError α) : Pass α :=
  fun trace => (outcome, trace)

/-- The step that fails. -/
def fail (e : ConditionError) : Pass α :=
  ofExcept (.error e)

/-- The step that reports an event. -/
def report (event : Event) : Pass Unit :=
  fun trace => (.ok (), trace ++ [event])

@[simp] theorem pure_apply (a : α) (trace : Trace) : (pure a : Pass α) trace = (.ok a, trace) :=
  rfl

/-- Two steps in a row: the second goes on from what the first leaves, unless the first fails. -/
theorem bind_apply (first : Pass α) (next : α → Pass β) (trace : Trace) :
    (first >>= next) trace =
      match first trace with
      | (.ok a, trace) => next a trace
      | (.error e, trace) => (.error e, trace) :=
  rfl

/-- After a success the second step decides. -/
theorem bind_apply_ok {first : Pass α} {next : α → Pass β} {trace later : Trace} {a : α}
    (h : first trace = (.ok a, later)) : (first >>= next) trace = next a later := by
  rw [bind_apply, h]

/-- After a failure there is no second step. -/
theorem bind_apply_error {first : Pass α} {next : α → Pass β} {trace later : Trace}
    {e : ConditionError} (h : first trace = (.error e, later)) :
    (first >>= next) trace = (.error e, later) := by
  rw [bind_apply, h]

@[simp] theorem fail_apply (e : ConditionError) (trace : Trace) :
    (fail e : Pass α) trace = (.error e, trace) :=
  rfl

@[simp] theorem report_apply (event : Event) (trace : Trace) :
    report event trace = (.ok (), trace ++ [event]) :=
  rfl

instance : LawfulMonad Pass := by
  refine LawfulMonad.mk' (m := Pass) ?_ ?_ ?_
  · intro α x
    funext trace
    change Pass.bind x _ trace = x trace
    unfold Pass.bind
    split <;> simp_all
    rfl
  · intro α β a f
    rfl
  · intro α β γ x f g
    funext trace
    change Pass.bind (Pass.bind x f) g trace = Pass.bind x (fun a => Pass.bind (f a) g) trace
    unfold Pass.bind
    split <;> split <;> simp_all

end Pass

end GraphCriteria
