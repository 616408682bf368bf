import GraphCriteria.Text.StringSet

/-!
# Mappings of fields

Within one pass a field stands for the entity itself, for one predicate, or for a
predicate variable that ranges over several candidates.
-/

namespace GraphCriteria

/-- What a field stands for in the triples of a group. -/
inductive FieldMapping where
  | subject
  | predicate (text : String)
  | choice (name : String) (candidates : List String)
deriving DecidableEq, Repr, Inhabited

namespace FieldMapping

/-- The text at the predicate place of the triples of a field; the id key has none. -/
def predicate? : FieldMapping → Option String
  | subject => none
  | predicate text => some text
  | choice name _ => some name

/-- The predicates that a field stands for. -/
def predicates : FieldMapping → List String
  | subject => []
  | predicate text => [text]
  | choice _ candidates => candidates

end FieldMapping

end GraphCriteria
