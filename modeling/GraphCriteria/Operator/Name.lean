import GraphCriteria.Error
import GraphCriteria.Text.Blank

/-!
# Reading operator names

An operator may be named in any ASCII letter case and with any blank text around and
between its words; no blank may stand inside a word.
-/

namespace GraphCriteria.Operator

/-- The words of a text in upper case, separated by single spaces. -/
def normalName (text : String) : String :=
  String.ofList ((List.intercalate [' '] (Text.words text.toList)).map Char.toUpper)

/-- The operator that a text names, if any. -/
def named? (text : String) : Option Operator :=
  all.find? fun op => op.symbol == normalName text

/-- The operator that a text names; a text that names none is reported as it stands. -/
def ofName (text : String) : Except ConditionError Operator :=
  match named? text with
  | some op => .ok op
  | none => .error (.unknownOperator text)

/-- An operator found under a name is spelled as the name is once normalized. -/
theorem symbol_eq_of_named? {text : String} {op : Operator} (h : named? text = some op) :
    op.symbol = normalName text := by
  have := List.find?_some h
  simpa using this

end GraphCriteria.Operator
