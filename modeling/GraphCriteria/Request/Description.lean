import GraphCriteria.Group.Basic
import GraphCriteria.Operator.Name

/-!
# Descriptions of groups

A description lists the conditions of a group as they are asked for: operators by name,
fields with their column suffix, values of any shape.  Building a group from it adds the
entries in order, and the first one that is not accepted decides the error.
-/

namespace GraphCriteria

mutual

/-- An entry as it is asked for.  A condition without an operator asks for equality. -/
inductive EntryDescription where
  | group (description : GroupDescription)
  | leaf (field : String) (value : Option Value) (operator : Option String)
    (language : Option String)

/-- A group as it is asked for. -/
structure GroupDescription where
  conjunction : Conjunction
  entries : List EntryDescription

end

instance : Inhabited GroupDescription := ⟨⟨.and, []⟩⟩

/-- The operator of a condition, named or left out. -/
def operatorOf (name : Option String) : Except ConditionError Operator :=
  match name with
  | none => .ok .equal
  | some name => Operator.ofName name

mutual

/-- Build a group from its description. -/
def GroupDescription.build (keys : EntityKeys) (description : GroupDescription) :
    Except ConditionError Group :=
  match description with
  | ⟨conjunction, entries⟩ => EntryDescription.addAll keys entries (Group.new conjunction keys)

/-- Add described entries to a group, in order. -/
def EntryDescription.addAll (keys : EntityKeys) (entries : List EntryDescription)
    (group : Group) : Except ConditionError Group :=
  match entries with
  | [] => .ok group
  | .group description :: rest => do
    let nested ← description.build keys
    let group ← group.addGroup nested
    EntryDescription.addAll keys rest group
  | .leaf field value operator language :: rest => do
    let operator ← operatorOf operator
    let group ← group.addCondition field value operator language
    EntryDescription.addAll keys rest group

end

end GraphCriteria
