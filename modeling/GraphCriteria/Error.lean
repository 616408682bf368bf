import GraphCriteria.Operator.Basic

/-!
# Errors of building, compiling and rendering

Each error says what went wrong with which field; `ConditionError.message` holds the
wording of all of them.
-/

namespace GraphCriteria

/-- The ways in which building, compiling or rendering a group of conditions fails. -/
inductive ConditionError where
  | missingRequiredValue (field : String) (operator : Operator)
  | unsupportedOperatorForKey (field : String) (operator : Operator)
  | unknownFieldMapping (entityType field : String)
  | unsupportedArrayValue (field : String) (operator : Operator)
  | notCompiled
  | alreadyCompiled
  | invalidVariable (name reason : String)
  | invalidValue (field reason : String)
  | unknownOperator (text : String)
  | invalidRequest (reason : String)
deriving DecidableEq, Repr, Inhabited

namespace ConditionError

/-- The name of the kind of error. -/
def kind : ConditionError → String
  | missingRequiredValue .. => "MissingRequiredValue"
  | unsupportedOperatorForKey .. => "UnsupportedOperatorForKey"
  | unknownFieldMapping .. => "UnknownFieldMapping"
  | unsupportedArrayValue .. => "UnsupportedArrayValue"
  | notCompiled => "NotCompiled"
  | alreadyCompiled => "AlreadyCompiled"
  | invalidVariable .. => "InvalidVariable"
  | invalidValue .. => "InvalidValue"
  | unknownOperator .. => "UnknownOperator"
  | invalidRequest .. => "InvalidRequest"

/-- The wording of an error. -/
def message : ConditionError → String
  | missingRequiredValue field operator =>
    "A value is required for the '" ++ operator.symbol ++ "' condition on field '" ++ field ++ "'"
  | unsupportedOperatorForKey field operator =>
    "Only '=', '!=', 'IN', 'NOT IN' operators are allowed for the key field '" ++ field ++
      "', got '" ++ operator.symbol ++ "'"
  | unknownFieldMapping entityType field =>
    "No predicate mapping for field '" ++ field ++ "' of entity type '" ++ entityType ++ "'"
  | unsupportedArrayValue field operator =>
    "An array value is not supported for the '" ++ operator.symbol ++ "' operator on field '" ++
      field ++ "'"
  | notCompiled => "The condition group must be compiled before it is rendered"
  | alreadyCompiled => "The condition group is already compiled and no longer accepts conditions"
  | invalidVariable name reason =>
    "'" ++ name ++ "' is not a valid SPARQL variable name: " ++ reason
  | invalidValue field reason => "Invalid value for field '" ++ field ++ "': " ++ reason
  | unknownOperator text => "Unknown operator: " ++ text
  | invalidRequest reason => "Invalid compile request: " ++ reason

end ConditionError

end GraphCriteria
