import GraphCriteria.Error
import GraphCriteria.Mapping.Field
import GraphCriteria.Text.Quoted

/-!
# Diagnostic forms

A diagnostic form shows a value with the name of its kind and with every part by name,
texts quoted.
-/

namespace GraphCriteria

open Text

/-- The name of an operator in diagnostics. -/
def Operator.diagnostic : Operator → String
  | equal => "Equal"
  | notEqual => "NotEqual"
  | less => "Less"
  | greater => "Greater"
  | lessOrEqual => "LessOrEqual"
  | greaterOrEqual => "GreaterOrEqual"
  | isIn => "In"
  | notIn => "NotIn"
  | like => "Like"
  | notLike => "NotLike"
  | present => "Exists"
  | absent => "NotExists"

/-- Named parts between braces after the name of their kind. -/
def diagnosticRecord (kind : String) (parts : List (String × String)) : String :=
  kind ++ " \x7b " ++ ", ".intercalate (parts.map fun part => part.1 ++ ": " ++ part.2) ++ " \x7d"

/-- The diagnostic form of a mapping. -/
def FieldMapping.diagnostic : FieldMapping → String
  | subject => "Subject"
  | predicate text => "Predicate(" ++ quoted text ++ ")"
  | choice name candidates =>
    diagnosticRecord "PredicateVariable"
      [("variable", quoted name), ("candidates", quotedList candidates)]

/-- The diagnostic form of an error. -/
def ConditionError.diagnostic (e : ConditionError) : String :=
  match e with
  | missingRequiredValue field operator
  | unsupportedOperatorForKey field operator
  | unsupportedArrayValue field operator =>
    diagnosticRecord e.kind [("field", quoted field), ("operator", operator.diagnostic)]
  | unknownFieldMapping entityType field =>
    diagnosticRecord e.kind [("entity_type", quoted entityType), ("field", quoted field)]
  | notCompiled | alreadyCompiled => e.kind
  | invalidVariable name reason =>
    diagnosticRecord e.kind [("name", quoted name), ("reason", quoted reason)]
  | invalidValue field reason =>
    diagnosticRecord e.kind [("field", quoted field), ("reason", quoted reason)]
  | unknownOperator text => e.kind ++ "(" ++ quoted text ++ ")"
  | invalidRequest reason => e.kind ++ "(" ++ quoted reason ++ ")"

end GraphCriteria
