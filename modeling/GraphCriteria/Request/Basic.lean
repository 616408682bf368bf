import GraphCriteria.Group.Render
import GraphCriteria.Request.Description

/-!
# Compile requests

A request carries all that is needed to produce one fragment without a host: the entity
type and its keys, a table of mappings, the way in which values are written, and the
description of the conditions.
-/

namespace GraphCriteria

/-- How the values that are written into a fragment are given. -/
inductive ValueEscaping where
  /-- Values are in query form already. -/
  | raw
  /-- Values are written as terms. -/
  | terms (referenceFields : List String)
deriving DecidableEq, Repr, Inhabited

/-- The escaper for values given in some way. -/
def ValueEscaping.escaper : ValueEscaping → Escaper
  | raw => rawEscaper
  | terms referenceFields => TermEscaper.escaper ⟨StringSet.ofList referenceFields⟩

/-- A request for one fragment. -/
structure CompileRequest where
  entityType : String
  keys : EntityKeys
  options : CompileOptions := {}
  mappings : StringMap (List String) := ∅
  escaping : ValueEscaping := .raw
  conditions : GroupDescription := default
deriving Inhabited

/-- The fragment of a request, and the predicates of every field that its conditions
mention.  The id key stands for no predicate. -/
structure CompileOutput where
  fragment : String
  entityType : String
  fieldMappings : StringMap (List String)

/-! ## Collecting mappings -/

/-- Add the mappings of a plan to those found before, which are kept. -/
def Plan.collect (plan : Plan) (found : StringMap (List String)) : StringMap (List String) :=
  plan.mappings.entries.foldl (fun found entry => found.insertNew entry.1 entry.2.predicates) found

mutual

/-- Add the mappings of a group and of all groups inside it. -/
def Group.collect (group : Group) (found : StringMap (List String)) : StringMap (List String) :=
  match group with
  | ⟨_, _, entries, _, state⟩ =>
    let found :=
      match state.plan? with
      | some plan => plan.collect found
      | none => found
    Entry.collectAll entries found

/-- Add the mappings of all groups among the entries of a group. -/
def Entry.collectAll (entries : List Entry) (found : StringMap (List String)) :
    StringMap (List String) :=
  match entries with
  | [] => found
  | .leaf _ :: rest => Entry.collectAll rest found
  | .nested group :: rest => Entry.collectAll rest (group.collect found)

end

/-! ## Compiling requests -/

namespace CompileRequest

/-- The mappings of a request as a table for its entity type. -/
def table (request : CompileRequest) : MappingTable :=
  request.mappings.entries.foldl
    (fun table entry => table.insert request.entityType entry.1 entry.2) MappingTable.empty

/-- The context in which the conditions of a request are compiled. -/
def context (request : CompileRequest) : Context where
  entityType := request.entityType
  resolver := request.table.resolver
  escaper := request.escaping.escaper
  options := request.options

/-- Build, compile and render the conditions of a request. -/
def compile (request : CompileRequest) : Pass CompileOutput :=
  fun trace =>
    match request.conditions.build request.keys with
    | .error e => (.error e, trace)
    | .ok group =>
      let compiled := group.compile request.context
        (trace ++ [.built group.conjunction group.size])
      match compiled.result with
      | .error e => (.error e, compiled.trace)
      | .ok () =>
        let rendered := compiled.left.render compiled.trace
        match rendered.result with
        | .error e => (.error e, rendered.trace)
        | .ok fragment =>
          (.ok ⟨fragment, request.entityType, rendered.left.collect ∅⟩, rendered.trace)

end CompileRequest

end GraphCriteria
