import GraphCriteria.Clause
import GraphCriteria.Condition

/-!
# Groups of conditions

A group combines conditions and nested groups by one conjunction.  It is built step by
step, then compiled once, then rendered.  While it is built, conditions on the id and
bundle keys are rewritten as sets of members, and in a union every condition becomes a
branch of its own.
-/

namespace GraphCriteria

/-! ## Groups and their states -/

/-- How far a group has come: its plan once it is compiled, its text once it is rendered. -/
inductive GroupState where
  | building
  | compiled (plan : Plan)
  | rendered (plan : Plan) (text : String)
deriving DecidableEq, Repr, Inhabited

mutual

/-- An entry of a group. -/
inductive Entry where
  | leaf (leaf : Leaf)
  | nested (group : Group)

/-- Conditions and groups combined by one conjunction.  The mark `lacksBundle` says that
no condition of the group itself narrows it to some bundle. -/
structure Group where
  conjunction : Conjunction
  keys : EntityKeys
  entries : List Entry
  lacksBundle : Bool
  state : GroupState

end

/-- The states of a group without what they carry. -/
inductive Phase where
  | building
  | compiled
  | rendered
deriving DecidableEq, Repr, Inhabited

namespace GroupState

/-- The phase of a state. -/
def phase : GroupState → Phase
  | building => .building
  | compiled _ => .compiled
  | rendered .. => .rendered

/-- The plan of a group that has been compiled. -/
def plan? : GroupState → Option Plan
  | building => none
  | compiled plan | rendered plan _ => some plan

end GroupState

/-! ## Stored leaves -/

/-- The leaf stored for a condition on the id or bundle key: a set of members.  A language
does not apply to keys. -/
def keyLeaf (field : String) (value : Option Value) (operator : Operator) :
    Except ConditionError Leaf :=
  if !operator.isKeyOperator then .error (.unsupportedOperatorForKey field operator)
  else
    match value with
    | none => .error (.missingRequiredValue field operator)
    | some value =>
      if value.isEmpty then .error (.missingRequiredValue field operator)
      else
        match operator, value with
        | .equal, .single text => .ok ⟨field, some (.list [text]), .isIn, none⟩
        | .notEqual, .single text => .ok ⟨field, some (.list [text]), .notIn, none⟩
        | .equal, .list _ | .notEqual, .list _ => .error (.unsupportedArrayValue field operator)
        | operator, value => .ok ⟨field, some (.list value.toList), operator, none⟩

/-- The leaf stored for a condition on a field that is neither the id nor the bundle key.
Membership takes a list, and an operator without a value drops the one it is given. -/
def plainLeaf (field : String) (value : Option Value) (operator : Operator)
    (language : Option String) : Except ConditionError Leaf :=
  if !operator.usesValue then .ok ⟨field, none, operator, language⟩
  else
    match value with
    | none => .error (.missingRequiredValue field operator)
    | some value =>
      match operator with
      | .isIn | .notIn => .ok ⟨field, some (.list value.toList), operator, language⟩
      | _ => .ok ⟨field, some value, operator, language⟩

/-- The leaf stored for a condition on a field. -/
def EntityKeys.leaf (keys : EntityKeys) (field : String) (value : Option Value)
    (operator : Operator) (language : Option String) : Except ConditionError Leaf :=
  if (keys.kind field).isKey then keyLeaf field value operator
  else plainLeaf field value operator language

/-- Whether a condition on a field of this kind narrows a group to some bundle.  An id or
a label alone does not. -/
def FieldKind.narrows : FieldKind → Bool
  | id | label => false
  | bundle | other => true

namespace Group

/-! ## Views -/

/-- A group without entries. -/
def new (conjunction : Conjunction) (keys : EntityKeys) : Group :=
  { conjunction, keys, entries := [], lacksBundle := true, state := .building }

instance : Inhabited Group := ⟨new .and default⟩

/-- An empty group over the same keys. -/
def sibling (group : Group) (conjunction : Conjunction) : Group :=
  new conjunction group.keys

/-- The phase of a group. -/
def phase (group : Group) : Phase :=
  group.state.phase

/-- The number of entries. -/
def size (group : Group) : Nat :=
  group.entries.length

/-- Whether a group has no entries. -/
def isEmpty (group : Group) : Bool :=
  group.entries.isEmpty

/-- Whether the group is to be linked to its bundle by a triple of its own. -/
def needsDefaultBundle (group : Group) : Bool :=
  group.conjunction = .and && group.lacksBundle

/-- The plan of a compiled group. -/
def plan? (group : Group) : Option Plan :=
  group.state.plan?

/-- The mapping of a field, once the group is compiled. -/
def fieldMapping? (group : Group) (field : String) : Option FieldMapping :=
  group.plan?.bind (·.mappings.get? field)

/-! ## Building -/

/-- Only a group that is still being built takes further entries. -/
def ensureBuilding (group : Group) : Except ConditionError Unit :=
  match group.state with
  | .building => .ok ()
  | _ => .error .alreadyCompiled

/-- Append an entry. -/
def pushEntry (group : Group) (entry : Entry) : Group :=
  { group with entries := group.entries ++ [entry] }

/-- Append a leaf, and note whether it narrows the group to some bundle. -/
def pushLeaf (group : Group) (leaf : Leaf) : Group :=
  { group.pushEntry (.leaf leaf) with
    lacksBundle := group.lacksBundle && !(group.keys.kind leaf.field).narrows }

/-- Add a condition.  In a union it becomes a branch of its own. -/
def addCondition (group : Group) (name : String) (value : Option Value) (operator : Operator)
    (language : Option String) : Except ConditionError Group := do
  group.ensureBuilding
  let leaf ← group.keys.leaf (baseField name) value operator language
  match group.conjunction with
  | .and => pure (group.pushLeaf leaf)
  | .or => pure (group.pushEntry (.nested ((group.sibling .and).pushLeaf leaf)))

/-- Add a condition that a field equals a value. -/
def addEqual (group : Group) (name : String) (value : Value) : Except ConditionError Group :=
  group.addCondition name (some value) .equal none

/-- Add a condition that a field exists. -/
def addPresent (group : Group) (name : String) : Except ConditionError Group :=
  group.addCondition name none .present none

/-- Add a condition that a field does not exist. -/
def addAbsent (group : Group) (name : String) : Except ConditionError Group :=
  group.addCondition name none .absent none

/-- Add a nested group. -/
def addGroup (group nested : Group) : Except ConditionError Group := do
  group.ensureBuilding
  pure (group.pushEntry (.nested nested))

/-! ## What building adds -/

@[simp] theorem entries_pushEntry (group : Group) (entry : Entry) :
    (group.pushEntry entry).entries = group.entries ++ [entry] :=
  rfl

@[simp] theorem entries_pushLeaf (group : Group) (leaf : Leaf) :
    (group.pushLeaf leaf).entries = group.entries ++ [.leaf leaf] :=
  rfl

/-- A group takes entries as long as it has not been compiled. -/
theorem ensureBuilding_eq_ok_iff {group : Group} :
    group.ensureBuilding = .ok () ↔ group.state = .building := by
  unfold ensureBuilding
  split <;> simp_all

end Group

end GraphCriteria
