import GraphCriteria.Error
import GraphCriteria.Text.StringMap

/-!
# Tables of field mappings

A field of an entity type is stored under one or more predicates.  A table lists them
for each entity type and field; a field under which no predicate is listed is unknown.
-/

namespace GraphCriteria

/-- The candidate predicates of each field of each entity type. -/
structure MappingTable where
  entityTypes : StringMap (StringMap StringSet)

namespace MappingTable

/-- The table without entries. -/
def empty : MappingTable := ⟨∅⟩

instance : Inhabited MappingTable := ⟨empty⟩

/-- The predicates listed for a field, none where there is no entry. -/
def predicates (table : MappingTable) (entityType field : String) : StringSet :=
  ((table.entityTypes.get? entityType).bind (·.get? field)).getD ∅

/-- List further predicates for a field.  The entry exists afterwards even if no
predicate was given. -/
def insert (table : MappingTable) (entityType field : String) (predicates : List String) :
    MappingTable :=
  ⟨table.entityTypes.alter entityType fun fields? =>
    (fields?.getD ∅).alter field fun listed? => (listed?.getD ∅).insertMany predicates⟩

/-- The predicates of a field that has any. -/
def resolve (table : MappingTable) (entityType field : String) :
    Except ConditionError StringSet :=
  let listed := table.predicates entityType field
  if listed.isEmpty then .error (.unknownFieldMapping entityType field) else .ok listed

end MappingTable

end GraphCriteria
