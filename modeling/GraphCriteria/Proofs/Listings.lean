import GraphCriteria.Mapping.Table

/-!
# What a table lists

A table is filled call by call, and each call lists predicates for one field.  What a table holds in
the end is the union of what was listed, field by field: neither the order of the calls nor the way
in which predicates are shared out among them makes a difference.

Main definitions:

- Definition `MappingTable.insertAll`: a table after some calls.
- Definition `Listing.Regrouped`: calls in another order, split, merged and repeated.
- Definition `Listing.SameListings`: calls that list the same for every field.

Main results:

- Theorem `MappingTable.listed?_insert`: a call changes the entry of its own field only.
- Theorem `MappingTable.listed?_insertAll`: an entry grows by the calls for it.
- Theorem `MappingTable.insertAll_eq_iff`: calls have the same effect on every table if they list the
  same.
- Theorem `MappingTable.union_of_listings`: tables hold the union of what was listed.
-/

namespace GraphCriteria

/-! ## Entries -/

namespace MappingTable

/-- The entry of a field, which may have no predicates. -/
def listed? (table : MappingTable) (entityType field : String) : Option StringSet :=
  (table.entityTypes.get? entityType).bind (·.get? field)

/-- A field that is not listed has no predicates. -/
theorem predicates_eq (table : MappingTable) (entityType field : String) :
    table.predicates entityType field = (table.listed? entityType field).getD ∅ :=
  rfl

/-- A call changes the entry of its own field only. -/
theorem listed?_insert (table : MappingTable) (entityType field : String) (listed : List String)
    (otherType other : String) :
    (table.insert entityType field listed).listed? otherType other =
      if entityType = otherType ∧ field = other then
        some ((table.predicates otherType other).insertMany listed)
      else table.listed? otherType other := by
  rw [listed?, insert, StringMap.get?_alter]
  by_cases htype : otherType = entityType
  · subst htype
    rw [if_pos rfl, Option.bind_some, StringMap.get?_alter]
    by_cases hfield : other = field
    · subst hfield
      rw [if_pos rfl, if_pos ⟨rfl, rfl⟩, predicates]
      cases table.entityTypes.get? otherType <;> rfl
    · rw [if_neg hfield, if_neg fun h => hfield h.2.symm, listed?]
      cases table.entityTypes.get? otherType <;> rfl
  · rw [if_neg htype, if_neg fun h => htype h.1.symm, listed?]

/-- A call leaves an entity type with fields, and all others as they are. -/
theorem isSome_get?_insert (table : MappingTable) (entityType field : String)
    (listed : List String) (otherType : String) :
    ((table.insert entityType field listed).entityTypes.get? otherType).isSome =
      (entityType == otherType || (table.entityTypes.get? otherType).isSome) := by
  rw [insert, StringMap.get?_alter]
  by_cases htype : otherType = entityType
  · simp [htype]
  · rw [if_neg htype, beq_false_of_ne (Ne.symm htype), Bool.false_or]

/-- A table is determined by its entries, and by the entity types without any. -/
theorem ext_entries {table other : MappingTable}
    (htypes : ∀ entityType, (table.entityTypes.get? entityType).isSome =
      (other.entityTypes.get? entityType).isSome)
    (hentries : ∀ entityType field,
      table.listed? entityType field = other.listed? entityType field) : table = other := by
  obtain ⟨types⟩ := table
  obtain ⟨others⟩ := other
  congr
  refine StringMap.ext fun entityType => ?_
  have htype := htypes entityType
  have hentry := hentries entityType
  simp only [listed?] at htype hentry
  cases hfields : types.get? entityType with
  | none =>
      rw [hfields] at htype
      exact (Option.isNone_iff_eq_none.1 (by simpa using htype.symm)).symm
  | some fields =>
      rw [hfields] at htype hentry
      obtain ⟨fields', hfields'⟩ := Option.isSome_iff_exists.1 htype.symm
      rw [hfields'] at hentry ⊢
      exact congrArg some (StringMap.ext hentry)

end MappingTable

/-! ## Calls -/

/-- A call that lists predicates for a field of an entity type. -/
structure Listing where
  entityType : String
  field : String
  predicates : List String
deriving DecidableEq, Repr

namespace Listing

/-- Whether a call is for a field of an entity type. -/
def concerns (entityType field : String) (call : Listing) : Bool :=
  call.entityType = entityType && call.field = field

/-- An entry after a call for it. -/
def extend (listed? : Option StringSet) (call : Listing) : Option StringSet :=
  some ((listed?.getD ∅).insertMany call.predicates)

/-- Calls in another order, where the predicates of one call may be shared out among two for the same
field, those of two such calls may be listed by one, and a call may be made again. -/
inductive Regrouped : List Listing → List Listing → Prop where
  | perm {calls others : List Listing} (h : calls.Perm others) : Regrouped calls others
  | split (entityType field : String) (front back : List String) (rest : List Listing) :
      Regrouped (⟨entityType, field, front ++ back⟩ :: rest)
        (⟨entityType, field, front⟩ :: ⟨entityType, field, back⟩ :: rest)
  | again (call : Listing) (rest : List Listing) : Regrouped (call :: rest) (call :: call :: rest)
  | symm {calls others : List Listing} (h : Regrouped calls others) : Regrouped others calls
  | trans {calls between others : List Listing} (h : Regrouped calls between)
      (hrest : Regrouped between others) : Regrouped calls others

/-- Calls for the same fields that list the same predicates for each of them. -/
def SameListings (calls others : List Listing) : Prop :=
  ∀ entityType field,
    ((∃ call ∈ calls, call.concerns entityType field) ↔
      ∃ call ∈ others, call.concerns entityType field) ∧
    ∀ predicate, (∃ call ∈ calls, call.concerns entityType field ∧ predicate ∈ call.predicates) ↔
      ∃ call ∈ others, call.concerns entityType field ∧ predicate ∈ call.predicates

/-- It does not matter which of two sequences comes first. -/
theorem SameListings.symm {calls others : List Listing} (h : SameListings calls others) :
    SameListings others calls :=
  fun entityType field =>
    ⟨(h entityType field).1.symm, fun predicate => ((h entityType field).2 predicate).symm⟩

/-- Such calls are for the same entity types. -/
theorem SameListings.any_entityType {calls others : List Listing} (h : SameListings calls others)
    (entityType : String) :
    calls.any (fun call => call.entityType == entityType) =
      others.any fun call => call.entityType == entityType := by
  have hany : ∀ {calls others : List Listing}, SameListings calls others →
      calls.any (fun call => call.entityType == entityType) = true →
        others.any (fun call => call.entityType == entityType) = true := by
    intro calls others h hcalls
    obtain ⟨call, hmem, htype⟩ := List.any_eq_true.1 hcalls
    have hcall : call.concerns entityType call.field = true := by simpa [concerns] using htype
    obtain ⟨other, hother, hconcerns⟩ := (h entityType call.field).1.1 ⟨call, hmem, hcall⟩
    have htype' : other.entityType = entityType ∧ other.field = call.field := by
      simpa [concerns] using hconcerns
    exact List.any_eq_true.2 ⟨other, hother, beq_iff_eq.2 htype'.1⟩
  exact Bool.eq_iff_iff.2 ⟨hany h, hany h.symm⟩

/-- Regrouping does not change what is listed. -/
theorem Regrouped.sameListings {calls others : List Listing} (h : Regrouped calls others) :
    SameListings calls others := by
  induction h with
  | perm h =>
      intro entityType field
      simp only [h.mem_iff, implies_true, and_self]
  | split ofType ofField front back rest =>
      intro entityType field
      simp only [List.mem_cons, exists_eq_or_imp, List.mem_append, concerns]
      grind
  | again call rest =>
      intro entityType field
      simp only [List.mem_cons, exists_eq_or_imp]
      grind
  | symm _ ih => exact ih.symm
  | trans _ _ ih ihrest => exact fun entityType field =>
      ⟨(ih entityType field).1.trans (ihrest entityType field).1, fun predicate =>
        ((ih entityType field).2 predicate).trans ((ihrest entityType field).2 predicate)⟩

/-- A field is listed after some calls if it was before, or if there is a call at all. -/
theorem isSome_foldl_extend (calls : List Listing) (listed? : Option StringSet) :
    (calls.foldl extend listed?).isSome = true ↔ listed?.isSome = true ∨ calls ≠ [] := by
  induction calls generalizing listed? with
  | nil => simp
  | cons call calls ih =>
      rw [List.foldl_cons, ih]
      simp [extend]

/-- An entry grows by what the calls for it list. -/
theorem mem_foldl_extend {calls : List Listing} {listed? : Option StringSet} {predicate : String} :
    predicate ∈ (calls.foldl extend listed?).getD ∅ ↔
      predicate ∈ listed?.getD ∅ ∨ ∃ call ∈ calls, predicate ∈ call.predicates := by
  induction calls generalizing listed? with
  | nil => simp
  | cons call calls ih =>
      rw [List.foldl_cons, ih, extend, Option.getD_some, StringSet.mem_insertMany]
      simp [or_left_comm, or_assoc]

end Listing

/-! ## Tables after calls -/

namespace MappingTable

open Listing

/-- A table after some calls, one after another. -/
def insertAll (table : MappingTable) (calls : List Listing) : MappingTable :=
  calls.foldl (fun table call => table.insert call.entityType call.field call.predicates) table

/-- An entry grows by the calls for it, and by no others. -/
theorem listed?_insertAll (table : MappingTable) (calls : List Listing)
    (entityType field : String) :
    (table.insertAll calls).listed? entityType field =
      (calls.filter (concerns entityType field)).foldl extend (table.listed? entityType field) := by
  unfold insertAll
  induction calls generalizing table with
  | nil => rfl
  | cons call calls ih =>
      rw [List.foldl_cons, ih, listed?_insert]
      by_cases hcall : call.entityType = entityType ∧ call.field = field
      · rw [if_pos hcall, List.filter_cons_of_pos (by simp [concerns, hcall]), List.foldl_cons]
        rfl
      · have hother : ¬ concerns entityType field call = true := by simpa [concerns] using hcall
        rw [if_neg hcall, List.filter_cons_of_neg hother]

/-- So a table lists a field if it did before, or if a call has concerned it. -/
theorem isSome_listed?_insertAll {table : MappingTable} {calls : List Listing}
    {entityType field : String} :
    ((table.insertAll calls).listed? entityType field).isSome = true ↔
      (table.listed? entityType field).isSome = true ∨
        ∃ call ∈ calls, call.concerns entityType field := by
  rw [listed?_insertAll, isSome_foldl_extend, Ne, List.filter_eq_nil_iff]
  simp

/-- The predicates of a field are those from before and those that the calls for it list. -/
theorem mem_predicates_insertAll {table : MappingTable} {calls : List Listing}
    {entityType field predicate : String} :
    predicate ∈ (table.insertAll calls).predicates entityType field ↔
      predicate ∈ table.predicates entityType field ∨
        ∃ call ∈ calls, call.concerns entityType field ∧ predicate ∈ call.predicates := by
  rw [predicates_eq, listed?_insertAll, mem_foldl_extend, predicates_eq]
  simp [and_assoc]

/-- An entity type is known if it was before, or if a call has named it. -/
theorem isSome_get?_insertAll (table : MappingTable) (calls : List Listing)
    (entityType : String) :
    ((table.insertAll calls).entityTypes.get? entityType).isSome =
      (calls.any (fun call => call.entityType == entityType) ||
        (table.entityTypes.get? entityType).isSome) := by
  unfold insertAll
  induction calls generalizing table with
  | nil => rfl
  | cons call calls ih =>
      rw [List.foldl_cons, ih, isSome_get?_insert, List.any_cons, ← Bool.or_assoc,
        Bool.or_comm (calls.any _)]

/-- Entries with the same predicates are equal if both are there or neither is. -/
theorem listed?_eq_iff {table other : MappingTable} {entityType field : String} :
    table.listed? entityType field = other.listed? entityType field ↔
      ((table.listed? entityType field).isSome = true ↔
        (other.listed? entityType field).isSome = true) ∧
      ∀ predicate, predicate ∈ table.predicates entityType field ↔
        predicate ∈ other.predicates entityType field := by
  rw [predicates_eq, predicates_eq]
  cases table.listed? entityType field with
  | none => cases other.listed? entityType field <;> simp
  | some listed =>
      cases other.listed? entityType field with
      | none => simp
      | some others =>
          simp only [Option.some.injEq, Option.isSome_some, Option.getD_some, true_and]
          exact ⟨fun h predicate => by rw [h], StringSet.ext⟩

/-- Calls have the same effect on every table exactly if they list the same. -/
theorem insertAll_eq_iff {calls others : List Listing} :
    (∀ table : MappingTable, table.insertAll calls = table.insertAll others) ↔
      SameListings calls others := by
  constructor
  · intro h entityType field
    have hentry := congrArg (·.listed? entityType field) (h empty)
    have hboth := listed?_eq_iff.1 hentry
    simp only [isSome_listed?_insertAll, mem_predicates_insertAll] at hboth
    simpa [predicates_eq, StringSet.mem_def, listed?, empty] using hboth
  · intro h table
    refine ext_entries (fun entityType => ?_) fun entityType field => ?_
    · rw [isSome_get?_insertAll, isSome_get?_insertAll, h.any_entityType]
    · rw [listed?_eq_iff]
      simp only [isSome_listed?_insertAll, mem_predicates_insertAll, (h entityType field).1,
        (h entityType field).2, implies_true, and_self]

/-- What a table holds for a field in the end is the union of what it held before and of what was
listed for the field since, in increasing order; the field is unknown exactly if that is empty, but
it has an entry even then.  Calls in another order, split, merged or repeated give the same table,
and calls for other fields do not count. -/
theorem union_of_listings (table : MappingTable) (calls : List Listing) :
    (∀ others, Regrouped calls others → table.insertAll others = table.insertAll calls) ∧
    ∀ entityType field,
      (∃ union : StringSet, union.toList.Pairwise (· < ·) ∧
        (∀ predicate, predicate ∈ union ↔ predicate ∈ table.predicates entityType field ∨
          ∃ call ∈ calls, (call.entityType = entityType ∧ call.field = field) ∧
            predicate ∈ call.predicates) ∧
        (table.insertAll calls).resolve entityType field =
          if union.toList = [] then .error (.unknownFieldMapping entityType field)
          else .ok union) ∧
      (((table.insertAll calls).listed? entityType field).isSome = true ↔
        (table.listed? entityType field).isSome = true ∨
          ∃ call ∈ calls, call.entityType = entityType ∧ call.field = field) ∧
      (table.insertAll (calls.filter (concerns entityType field))).listed? entityType field =
        (table.insertAll calls).listed? entityType field ∧
      (table.insertAll (calls.filter (concerns entityType field))).resolve entityType field =
        (table.insertAll calls).resolve entityType field := by
  refine ⟨fun others h => ?_, fun entityType field => ?_⟩
  · exact insertAll_eq_iff.2 h.symm.sameListings table
  have hown : (table.insertAll (calls.filter (concerns entityType field))).listed? entityType field =
      (table.insertAll calls).listed? entityType field := by
    rw [listed?_insertAll, listed?_insertAll, List.filter_filter]
    simp only [Bool.and_self]
  refine ⟨⟨(table.insertAll calls).predicates entityType field, StringSet.increasing _,
    fun predicate => ?_, ?_⟩, ?_, hown, ?_⟩
  · rw [mem_predicates_insertAll]
    simp only [concerns, Bool.and_eq_true, decide_eq_true_eq]
  · simp only [resolve, StringSet.isEmpty, List.isEmpty_iff]
  · rw [isSome_listed?_insertAll]
    simp only [concerns, Bool.and_eq_true, decide_eq_true_eq]
  · rw [resolve, resolve, predicates_eq, predicates_eq, hown]

end MappingTable

/-- Two predicates for one field of nodes, and none for another. -/
def Sample.listings : List Listing :=
  [⟨"node", "tag", ["<topic>", "<keyword>"]⟩, ⟨"node", "body", []⟩]

/-- The same in another order, with the predicates shared out and one of them repeated. -/
def Sample.sharedListings : List Listing :=
  [⟨"node", "body", []⟩, ⟨"node", "tag", ["<keyword>"]⟩, ⟨"node", "tag", ["<topic>"]⟩,
    ⟨"node", "tag", ["<keyword>"]⟩]

/-- Both add to the predicates that a table holds, and leave an entry without any. -/
theorem MappingTable.union_of_sharedListings :
    Listing.Regrouped Sample.listings Sample.sharedListings ∧
      (∀ table : MappingTable,
        table.insertAll Sample.sharedListings = table.insertAll Sample.listings) ∧
      (let table := (empty.insert "node" "tag" ["<tag>"]).insertAll Sample.sharedListings
      ((table.resolve "node" "tag").toOption.map StringSet.toList =
          some ["<keyword>", "<tag>", "<topic>"] ∧
        table.resolve "node" "body" = .error (.unknownFieldMapping "node" "body") ∧
        (table.listed? "node" "body").isSome = true)) := by
  have hregrouped : Listing.Regrouped Sample.listings Sample.sharedListings :=
    (Listing.Regrouped.split "node" "tag" ["<topic>"] ["<keyword>"] _).trans
      ((Listing.Regrouped.perm (.swap ..)).trans
        ((Listing.Regrouped.again ..).trans (.perm (by decide))))
  refine ⟨hregrouped, fun table => (union_of_listings table _).1 _ hregrouped, by decide +kernel,
    ?_, by decide +kernel⟩
  rfl


end GraphCriteria
