import GraphCriteria.Group.Render
import GraphCriteria.Operator.Name

/-!
# Workspaces

A workspace holds groups under names.  Its steps make, copy, build, compile and render
them one at a time.  A step that fails leaves every group as the failing operation left
it, and the next step goes on from there.
-/

namespace GraphCriteria

/-- Groups by their names. -/
structure Workspace where
  groups : List (String × Group) := []

/-- A step on the groups of a workspace.  The first name is that of the group it is
about. -/
inductive WorkspaceStep where
  /-- Make an empty group. -/
  | make (name : String) (conjunction : Conjunction) (keys : EntityKeys)
  /-- Make an empty group over the keys of another. -/
  | makeSibling (name source : String) (conjunction : Conjunction)
  /-- Copy a group with all that is in it. -/
  | copy (name source : String)
  /-- Copy the group nested at a place of another. -/
  | copyNested (name source : String) (place : Nat)
  /-- Add a condition whose operator is given by name. -/
  | add (name field : String) (value : Option Value) (operator : String)
    (language : Option String)
  | addEqual (name field : String) (value : Value)
  | addPresent (name field : String)
  | addAbsent (name field : String)
  /-- Move a group into another; it is gone even if it is not accepted. -/
  | nest (name child : String)
  | compile (name : String) (context : Context)
  | render (name : String)

namespace Workspace

/-- The group of a name. -/
def get? (workspace : Workspace) (name : String) : Option Group :=
  lookupEntry name workspace.groups

/-- The workspace without a name. -/
def remove (workspace : Workspace) (name : String) : Workspace :=
  ⟨workspace.groups.filter (·.1 != name)⟩

/-- Put a group under a name. -/
def put (workspace : Workspace) (name : String) (group : Group) : Workspace :=
  ⟨(name, group) :: (workspace.remove name).groups⟩

/-- Put the outcome of building under a name, where building was accepted. -/
def settle (workspace : Workspace) (name : String) (built : Except ConditionError Group) :
    Outcome Workspace (Option String) :=
  match built with
  | .ok group => ⟨.ok none, workspace.put name group, []⟩
  | .error e => ⟨.error e, workspace, []⟩

/-- Take one step.  There is no outcome where a group that the step needs is missing. -/
def step (workspace : Workspace) : WorkspaceStep → Option (Outcome Workspace (Option String))
  | .make name conjunction keys =>
    some ⟨.ok none, workspace.put name (Group.new conjunction keys), []⟩
  | .makeSibling name source conjunction => do
    let group ← workspace.get? source
    pure ⟨.ok none, workspace.put name (group.sibling conjunction), []⟩
  | .copy name source => do
    let group ← workspace.get? source
    pure ⟨.ok none, workspace.put name group, []⟩
  | .copyNested name source place => do
    let group ← workspace.get? source
    let .nested inner ← group.entries[place]? | none
    pure ⟨.ok none, workspace.put name inner, []⟩
  | .add name field value operator language => do
    let group ← workspace.get? name
    pure (workspace.settle name do
      let operator ← Operator.ofName operator
      group.addCondition field value operator language)
  | .addEqual name field value => do
    let group ← workspace.get? name
    pure (workspace.settle name (group.addEqual field value))
  | .addPresent name field => do
    let group ← workspace.get? name
    pure (workspace.settle name (group.addPresent field))
  | .addAbsent name field => do
    let group ← workspace.get? name
    pure (workspace.settle name (group.addAbsent field))
  | .nest name child => do
    let nested ← workspace.get? child
    let workspace := workspace.remove child
    let group ← workspace.get? name
    pure (workspace.settle name (group.addGroup nested))
  | .compile name context => do
    let group ← workspace.get? name
    let outcome := group.compile context []
    pure ⟨outcome.result.map fun _ => none, workspace.put name outcome.left, outcome.trace⟩
  | .render name => do
    let group ← workspace.get? name
    let outcome := group.render []
    pure ⟨outcome.result.map some, workspace.put name outcome.left, outcome.trace⟩

/-- Take steps one after another.  A step that cannot be taken changes nothing. -/
def run (workspace : Workspace) : List WorkspaceStep → Workspace
  | [] => workspace
  | s :: steps =>
    match workspace.step s with
    | some outcome => run outcome.left steps
    | none => run workspace steps

end Workspace

end GraphCriteria
