import GraphCriteria.Operator.Basic

/-!
# Conditions on the fields of an entity

A leaf condition compares one field of an entity with a value.  Two fields of every
entity type, and often a third, are keys: its id, its bundle and its label.
-/

namespace GraphCriteria

/-! ## Values -/

/-- What a field is compared with: one text or a list of them. -/
inductive Value where
  | single (text : String)
  | list (texts : List String)
deriving DecidableEq, Repr, Inhabited

namespace Value

/-- Whether a value is a list without members. -/
def isEmpty : Value → Bool
  | single _ => false
  | list texts => texts.isEmpty

/-- The texts of a value, a single text counting as a list of one. -/
def toList : Value → List String
  | single text => [text]
  | list texts => texts

@[simp] theorem toList_single (text : String) : (single text).toList = [text] := rfl

@[simp] theorem toList_list (texts : List String) : (list texts).toList = texts := rfl

/-- A value is empty exactly when it has no texts. -/
theorem isEmpty_iff {v : Value} : v.isEmpty = true ↔ v.toList = [] := by
  cases v <;> simp [isEmpty]

end Value

/-! ## Keys -/

/-- The part that a field plays for its entity type. -/
inductive FieldKind where
  | id
  | bundle
  | label
  | other
deriving DecidableEq, Repr

/-- Whether conditions of this kind are written as sets of members. -/
def FieldKind.isKey : FieldKind → Bool
  | id | bundle => true
  | label | other => false

/-- The key fields of an entity type. -/
structure EntityKeys where
  id : String
  bundle : String
  label : Option String := none
deriving DecidableEq, Repr, Inhabited

/-- The part that a field plays under these keys.  Where one name serves as several
keys, the id comes before the bundle and the bundle before the label. -/
def EntityKeys.kind (keys : EntityKeys) (field : String) : FieldKind :=
  if field = keys.id then .id
  else if field = keys.bundle then .bundle
  else if keys.label = some field then .label
  else .other

/-- The field that a name addresses: the name up to its first full stop. -/
def baseField (name : String) : String :=
  String.ofList (name.toList.takeWhile (· != '.'))

/-- No full stop is left in the field that a name addresses. -/
theorem dot_not_mem_baseField (name : String) : '.' ∉ (baseField name).toList := by
  intro h
  rw [baseField, String.toList_ofList] at h
  have hall := List.all_takeWhile (p := (· != '.')) (l := name.toList)
  rw [List.all_eq_true] at hall
  simpa using hall _ h

/-- A name without a full stop addresses itself. -/
theorem baseField_eq_self {name : String} (h : '.' ∉ name.toList) : baseField name = name := by
  have hall : ∀ c ∈ name.toList, (c != '.') = true := by
    intro c hc
    rw [bne_iff_ne]
    rintro rfl
    exact h hc
  have := @List.takeWhile_append_of_pos _ (· != '.') name.toList [] hall
  rw [baseField, ← List.append_nil name.toList, this, List.takeWhile_nil, List.append_nil,
    String.ofList_toList]

/-! ## Leaves -/

/-- A condition on one field. -/
structure Leaf where
  field : String
  value : Option Value
  operator : Operator
  language : Option String
deriving DecidableEq, Repr, Inhabited

end GraphCriteria
