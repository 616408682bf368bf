import GraphCriteria.Text.StringMap
import GraphCriteria.Trace

/-!
# Memos of field mappings

During one pass the mapping of a field is found once and then remembered, so that a
field never has two mappings within one group.  A memo lists the fields in the order in
which they were first mapped.
-/

namespace GraphCriteria

/-- The mappings found so far, in the order in which they were found. -/
structure Memo where
  entries : List (String × FieldMapping) := []
deriving DecidableEq, Repr, Inhabited

/-- The mapping of a field, whether it was found just now, and the memo afterwards. -/
structure Fetched where
  mapping : FieldMapping
  isNew : Bool
  memo : Memo
deriving DecidableEq, Repr

namespace Memo

/-- The memo without mappings. -/
def empty : Memo := {}

/-- The mapping of a field. -/
def get? (memo : Memo) (field : String) : Option FieldMapping :=
  lookupEntry field memo.entries

/-- The fields with a mapping. -/
def fields (memo : Memo) : List String :=
  memo.entries.map Prod.fst

/-- The number of fields with a mapping. -/
def size (memo : Memo) : Nat :=
  memo.entries.length

/-- Remember the mapping of a field. -/
def push (memo : Memo) (field : String) (mapping : FieldMapping) : Memo :=
  ⟨memo.entries ++ [(field, mapping)]⟩

/-- The mapping of a field, found by a step of the pass if it is not yet known. -/
def fetch (memo : Memo) (field : String) (find : Pass FieldMapping) : Pass Fetched :=
  match memo.get? field with
  | some mapping => pure ⟨mapping, false, memo⟩
  | none => do
    let mapping ← find
    Pass.report (.mapped field mapping)
    pure ⟨mapping, true, memo.push field mapping⟩

/-- The fields without a mapping are those that are not listed. -/
theorem get?_eq_none_iff {memo : Memo} {field : String} :
    memo.get? field = none ↔ field ∉ memo.fields := by
  obtain ⟨entries⟩ := memo
  simp only [get?, fields]
  induction entries with
  | nil => simp [lookupEntry]
  | cons entry entries ih =>
      rw [lookupEntry]
      by_cases h : field = entry.1
      · simp [h]
      · rw [if_neg h, ih]
        simp [h]

/-- A mapping that is given is listed. -/
theorem mem_entries_of_get? {memo : Memo} {field : String} {mapping : FieldMapping}
    (h : memo.get? field = some mapping) : (field, mapping) ∈ memo.entries := by
  obtain ⟨entries⟩ := memo
  unfold get? at h
  induction entries with
  | nil => cases h
  | cons entry entries ih =>
      rw [lookupEntry] at h
      split at h
      · rename_i hfield
        cases h
        rw [hfield]
        exact List.mem_cons_self
      · exact List.mem_cons_of_mem _ (ih h)

/-- In a memo without repetitions, the mappings that are listed are those that are given. -/
theorem mem_entries_iff {memo : Memo} (h : memo.fields.Nodup) {field : String}
    {mapping : FieldMapping} :
    (field, mapping) ∈ memo.entries ↔ memo.get? field = some mapping := by
  refine ⟨fun hmem => ?_, mem_entries_of_get?⟩
  obtain ⟨entries⟩ := memo
  simp only [get?, fields] at *
  induction entries with
  | nil => cases hmem
  | cons entry entries ih =>
      rw [List.map_cons, List.nodup_cons] at h
      rw [lookupEntry]
      rcases List.mem_cons.1 hmem with rfl | hmem
      · rw [if_pos rfl]
      · have hne : field ≠ entry.1 := by
          intro hfield
          rw [hfield] at hmem
          have hlisted := List.mem_map_of_mem (f := Prod.fst) hmem
          exact h.1 hlisted
        rw [if_neg hne, ih h.2 hmem]

/-- Remembering a new mapping changes the answer for its field only. -/
theorem get?_push {memo : Memo} {field : String} (h : memo.get? field = none)
    (mapping : FieldMapping) (other : String) :
    (memo.push field mapping).get? other =
      if other = field then some mapping else memo.get? other := by
  rcases memo with ⟨entries⟩
  simp only [get?, push] at h ⊢
  induction entries with
  | nil => simp [lookupEntry]
  | cons e es ih =>
    rw [lookupEntry] at h
    split at h
    · simp at h
    · rename_i hne
      rw [List.cons_append, lookupEntry, lookupEntry]
      by_cases ho : other = e.1
      · rw [if_pos ho, if_neg (by rw [ho]; exact fun he => hne he.symm), if_pos ho]
      · rw [if_neg ho, if_neg ho, ih h]

/-- A field that is known keeps its mapping. -/
theorem fetch_of_get? {memo : Memo} {field : String} {mapping : FieldMapping}
    (h : memo.get? field = some mapping) (find : Pass FieldMapping) :
    memo.fetch field find = pure ⟨mapping, false, memo⟩ := by
  rw [fetch, h]

end Memo

end GraphCriteria
