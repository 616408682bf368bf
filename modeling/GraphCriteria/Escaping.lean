import GraphCriteria.Error
import GraphCriteria.Term.Iri
import GraphCriteria.Term.LanguageTag
import GraphCriteria.Term.Literal
import GraphCriteria.Term.Numeral
import GraphCriteria.Text.StringSet

/-!
# Writing values as terms

A value is written as one term.  Values of reference fields become IRIs.  Other values
become literals: with a language where one is given, else typed as an integer, a decimal
or a boolean when they read as one, else plain.
-/

namespace GraphCriteria

/-! ## Literals -/

/-- The namespace of the datatypes. -/
def datatypeNamespace : String := "http://www.w3.org/2001/XMLSchema#"

/-- The datatypes that values are given. -/
inductive Datatype where
  | integer
  | decimal
  | boolean
deriving DecidableEq, Repr

namespace Datatype

/-- The IRI of a datatype. -/
def iri : Datatype → String
  | integer => datatypeNamespace ++ "integer"
  | decimal => datatypeNamespace ++ "decimal"
  | boolean => datatypeNamespace ++ "boolean"

/-- The datatype that a value reads as: an integer before a decimal before a boolean. -/
def ofValue? (value : String) : Option Datatype :=
  if (Numeral.integer? value.toList).isSome then some integer
  else if (Numeral.decimal? value.toList).isSome then some decimal
  else if value = "true" ∨ value = "false" then some boolean
  else none

end Datatype

/-- How a value without a language is marked. -/
def markOf (value : String) : Literal.Mark :=
  match Datatype.ofValue? value with
  | some datatype => .datatype datatype.iri
  | none => .plain

/-! ## References -/

/-- A text without its leading opening and trailing closing angle brackets. -/
def stripBrackets (cs : List Char) : List Char :=
  ((cs.dropWhile (· == '<')).reverse.dropWhile (· == '>')).reverse

/-- The text of the reference that a value names, whether in angle brackets or not. -/
def referenceText (value : String) : Except Iri.Fault String :=
  let iri := stripBrackets value.toList
  match Iri.check iri with
  | .ok () => .ok ("<" ++ String.ofList iri ++ ">")
  | .error fault => .error fault

/-! ## Escapers -/

/-- The fields whose values are references. -/
structure TermEscaper where
  referenceFields : StringSet

namespace TermEscaper

/-- Whether the values of a field are references. -/
def isReference (escaper : TermEscaper) (field : String) : Bool :=
  escaper.referenceFields.contains field

/-- The term of a value of a field. -/
def escape (escaper : TermEscaper) (field value : String) (language : Option String) :
    Except ConditionError String :=
  if escaper.isReference field then
    match referenceText value with
    | .ok text => .ok text
    | .error fault => .error (.invalidValue field fault.message)
  else
    match language with
    | none => .ok (Literal.text value (markOf value))
    | some language =>
      match LanguageTag.ofText language with
      | .ok tag => .ok (Literal.text value (.language tag))
      | .error fault => .error (.invalidValue field fault.message)

end TermEscaper

end GraphCriteria
