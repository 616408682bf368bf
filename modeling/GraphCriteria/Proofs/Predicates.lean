import GraphCriteria.Proofs.Listings
import GraphCriteria.Proofs.Passes
import GraphCriteria.Request.Basic

/-!
# The predicates of a request

A request lists the predicates of fields in any order and possibly repeated.  Its conditions are
compiled with the distinct ones in increasing order, and a field without any is unknown.

Main results:

- Theorem `MappingTable.predicates_insert`: listing predicates for one field changes those of
  that field only.
- Theorem `CompileRequest.predicates_table`: the table of a request holds what it lists.
- Theorem `CompileRequest.functional_context`: the host of a request always answers alike.
-/

namespace GraphCriteria

/-! ## Tables -/

/-- Listing predicates for one field changes those of that field only. -/
theorem MappingTable.predicates_insert (table : MappingTable) (entityType field : String)
    (listed : List String) (otherType other : String) :
    (table.insert entityType field listed).predicates otherType other =
      if otherType = entityType ∧ other = field then
        (table.predicates entityType field).insertMany listed
      else table.predicates otherType other := by
  rw [predicates_eq, listed?_insert]
  by_cases h : otherType = entityType ∧ other = field
  · obtain ⟨rfl, rfl⟩ := h
    rw [if_pos ⟨rfl, rfl⟩, if_pos ⟨rfl, rfl⟩, Option.getD_some]
  · rw [if_neg h, if_neg fun heq => h ⟨heq.1.symm, heq.2.symm⟩, predicates_eq]

/-! ## Requests -/

namespace CompileRequest

variable (request : CompileRequest)

/-- The predicates that a request lists for a field, without repetitions and in increasing
order. -/
def predicatesOf (field : String) : List String :=
  (StringSet.ofList ((request.mappings.get? field).getD [])).toList

/-- The table of a request holds what it lists for each field. -/
theorem predicates_table (field : String) :
    (request.table.predicates request.entityType field).toList = request.predicatesOf field := by
  have hfold : ∀ (entries : List (String × List String)) (table : MappingTable),
      (entries.map Prod.fst).Pairwise (· < ·) →
        (entries.foldl (fun table entry => table.insert request.entityType entry.1 entry.2)
          table).predicates request.entityType field =
        (table.predicates request.entityType field).insertMany
          ((lookupEntry field entries).getD []) := by
    intro entries
    induction entries with
    | nil =>
        intro table _
        rfl
    | cons entry entries ih =>
        intro table hincreasing
        rw [List.map_cons, List.pairwise_cons] at hincreasing
        rw [List.foldl_cons, ih _ hincreasing.2, MappingTable.predicates_insert, lookupEntry]
        by_cases hfield : field = entry.1
        · -- The keys are distinct, so what follows says nothing of this field.
          have hnone : lookupEntry field entries = none := by
            apply lookupEntry_eq_none
            rw [hfield]
            exact hincreasing.1
          rw [hnone, if_pos ⟨rfl, hfield⟩, if_pos hfield, hfield]
          rfl
        · rw [if_neg (by simp [hfield]), if_neg hfield]
  rw [table, hfold _ _ request.mappings.increasing]
  rfl

/-- The host of a request finds the predicates that it lists. -/
theorem resolver_context (trace : Trace) (field : String) :
    request.context.resolver trace request.entityType field =
      if request.predicatesOf field = [] then
        .error (.unknownFieldMapping request.entityType field)
      else .ok (request.table.predicates request.entityType field) := by
  have hlist := request.predicates_table field
  have hresolve : request.context.resolver trace request.entityType field =
      request.table.resolve request.entityType field := rfl
  rw [hresolve, MappingTable.resolve, StringSet.isEmpty, hlist]
  cases request.predicatesOf field <;> rfl

/-- The host of a request always answers alike. -/
theorem functional_context : request.context.Functional where
  resolver_eq _ _ _ _ := rfl
  escaper_eq s t field value language := by
    cases hescaping : request.escaping <;> simp [context, hescaping, ValueEscaping.escaper,
      rawEscaper, TermEscaper.escaper]

end CompileRequest

end GraphCriteria
