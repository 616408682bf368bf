import GraphCriteria.Json.Reader
import GraphCriteria.Request.Basic

/-!
# Requests as JSON texts

A request and each of its parts are read from JSON objects with members in any order, or
from arrays of their fields.  An entry is read as a tree first: it is a group if it gives
one, and a condition otherwise.
-/

namespace GraphCriteria

open Json (Reader Fault)

/-! ## Operators and conjunctions -/

/-- The operators by their symbols. -/
def Operator.variants : List (String × Operator) :=
  Operator.all.map fun op => (op.symbol, op)

/-- The conjunctions by their names. -/
def Conjunction.variants : List (String × Conjunction) :=
  [("AND", .and), ("and", .and), ("OR", .or), ("or", .or)]

/-- Read an operator. -/
def Operator.reader : Reader Operator :=
  Reader.variant Reader.depthLimit Operator.variants

/-- Read a conjunction. -/
def Conjunction.reader (depth : Nat) : Reader Conjunction :=
  Reader.variant depth Conjunction.variants

/-! ## Values -/

/-- The value that a tree stands for: a string or an array of strings. -/
def Value.ofJson? : Json → Option Value
  | .string text => some (.single text)
  | json => json.texts?.map .list

/-- Read a value. -/
def Value.reader : Reader Value := do
  match Value.ofJson? (← Reader.tree Reader.depthLimit) with
  | some value => pure value
  | none => throw (.noVariant "ConditionValue")

/-! ## Keys, options and mappings -/

/-- Read the keys of an entity type. -/
def EntityKeys.reader (depth : Nat) : Reader EntityKeys :=
  Reader.record depth "struct EntityKeys"
    [{ name := "id", isRequired := true,
       read := fun _ keys => do pure { keys with id := ← Reader.string } },
     { name := "bundle", isRequired := true,
       read := fun _ keys => do pure { keys with bundle := ← Reader.string } },
     { name := "label", isRequired := false,
       read := fun _ keys => do pure { keys with label := ← Reader.optional Reader.string } }]
    ⟨"", "", none⟩

/-- Read options. -/
def CompileOptions.reader (depth : Nat) : Reader CompileOptions :=
  Reader.record depth "struct CompileOptions"
    [{ name := "subject_variable", isRequired := false,
       read := fun _ options => do pure { options with subjectVariable := ← Reader.string } },
     { name := "type_predicate", isRequired := false,
       read := fun _ options => do pure { options with typePredicate := ← Reader.string } }]
    {}

/-- Read a list of strings. -/
def readStrings (depth : Nat) : Reader (List String) :=
  Reader.list depth fun _ => Reader.string

/-- Read a table of mappings. -/
def MappingTable.reader : Reader MappingTable := do
  let entityTypes ← Reader.map Reader.depthLimit fun depth =>
    Reader.map depth fun depth => do pure (StringSet.ofList (← readStrings depth))
  pure ⟨entityTypes⟩

/-! ## Escaping -/

/-- The strings of an array of strings, or what is wrong with it. -/
def Json.expectStrings : Json → Except Fault (List String)
  | .array items => items.mapM fun
    | .string text => .ok text
    | item => .error (.invalidType item.found "a string")
  | json => .error (.invalidType json.found "a sequence")

namespace ValueEscaping

/-- The modes by their names, and whether each has reference fields. -/
def modes : List (String × Bool) :=
  [("raw", false), ("terms", true)]

/-- The reference fields among the members that come with a mode. -/
def referenceFields : Option (List String) → List (String × Json) → Except Fault (List String)
  | found, [] => .ok (found.getD [])
  | found, (name, value) :: members =>
    if name = "reference_fields" then
      match found with
      | some _ => .error (.duplicateField name)
      | none => do referenceFields (some (← value.expectStrings)) members
    else referenceFields found members

/-- The escaping of a mode and the items after it. -/
def ofItems (hasFields : Bool) (items : List Json) : Except Fault ValueEscaping :=
  match hasFields, items with
  | false, [] => .ok .raw
  | false, items => .error (.invalidLength items.length "0 elements in sequence")
  | true, [] => .ok (.terms [])
  | true, fields :: rest => do
    let fields ← fields.expectStrings
    if rest.isEmpty then pure (.terms fields)
    else .error (.invalidLength (rest.length + 1) "1 element in sequence")

/-- The escaping of a mode and the members beside it. -/
def ofMembers (hasFields : Bool) (members : List (String × Json)) :
    Except Fault ValueEscaping :=
  if hasFields then (referenceFields none members).map .terms else .ok .raw

/-- Read an escaping: its mode, and what belongs to the mode. -/
def reader (depth : Nat) : Reader ValueEscaping := do
  match ← Reader.peek with
  | none => throw .endOfValue
  | some '[' =>
    Reader.nested depth fun depth => do
      if ← Reader.hasNextItem true then
        let hasFields ← Reader.variantName modes
        let items ← Reader.itemsWithin
          (fun acc => do pure ((← Reader.tree depth) :: acc)) (← get) false []
        Reader.endArray
        monadLift (ofItems hasFields items.reverse)
      else throw (.missingField "mode")
  | some '\x7b' =>
    Reader.nested depth fun depth => do
      let (mode?, read) ← Reader.members (fun (mode?, read) name => do
        if name = "mode" then
          match mode? with
          | some _ => throw (.duplicateField name)
          | none =>
            Reader.colon
            pure (some (← Reader.variantName modes), read)
        else
          Reader.colon
          pure (mode?, (name, ← Reader.tree depth) :: read))
        ((none : Option Bool), ([] : List (String × Json)))
      match mode? with
      | none => throw (.missingField "mode")
      | some hasFields =>
        Reader.advance
        monadLift (ofMembers hasFields read.reverse)
  | some _ => Reader.invalidType "internally tagged enum ValueEscaping"

end ValueEscaping

/-! ## Conditions as trees -/

/-- The value that an object gives to a name at most once, or `none` where it repeats the
name. -/
def Json.unique? (name : String) (members : List (String × Json)) : Option (Option Json) :=
  match Json.valuesOf name members with
  | [] => some none
  | [value] => some (some value)
  | _ => none

/-- The text of a string or of null. -/
def Json.optionalText? : Option Json → Option (Option String)
  | none | some .null => some none
  | some json => json.text?.map some

/-- The conjunction that a tree stands for. -/
def Conjunction.ofJson? : Json → Option Conjunction
  | .string name | .object [(name, .null)] => Conjunction.variants.lookup name
  | _ => none

/-- The condition that the members of an object stand for. -/
def EntryDescription.leafOf? (members : List (String × Json)) : Option EntryDescription := do
  let field ← (← Json.unique? "field" members).bind Json.text?
  let value ←
    match ← Json.unique? "value" members with
    | none | some .null => some none
    | some json => (Value.ofJson? json).map some
  let operator ← Json.optionalText? (← Json.unique? "operator" members)
  let language ← Json.optionalText? (← Json.unique? "language" members)
  pure (.leaf field value operator language)

mutual

/-- The group that a tree stands for. -/
def GroupDescription.ofJson? : Json → Option GroupDescription
  | .object members => do
    let conjunction ←
      match ← Json.unique? "conjunction" members with
      | none => some .and
      | some json => Conjunction.ofJson? json
    match GroupDescription.entriesOf members with
    | [] => some ⟨conjunction, []⟩
    | [entries] => do pure ⟨conjunction, ← entries⟩
    | _ => none
  | .array [] => some ⟨.and, []⟩
  | .array [json] => do pure ⟨← Conjunction.ofJson? json, []⟩
  | .array [json, .array items] => do
    pure ⟨← Conjunction.ofJson? json, ← EntryDescription.allOfJson? items⟩
  | _ => none

/-- What the members named as the entries of a group stand for. -/
def GroupDescription.entriesOf :
    List (String × Json) → List (Option (List EntryDescription))
  | [] => []
  | (name, .array items) :: members =>
    if name = "entries" then
      EntryDescription.allOfJson? items :: GroupDescription.entriesOf members
    else GroupDescription.entriesOf members
  | (name, _) :: members =>
    if name = "entries" then none :: GroupDescription.entriesOf members
    else GroupDescription.entriesOf members

/-- The entry that a tree stands for. -/
def EntryDescription.ofJson? : Json → Option EntryDescription
  | .object members =>
    match EntryDescription.groupsOf members with
    | [some description] => some (.group description)
    | _ => EntryDescription.leafOf? members
  | _ => none

/-- What the members named as a group stand for. -/
def EntryDescription.groupsOf : List (String × Json) → List (Option GroupDescription)
  | [] => []
  | (name, json) :: members =>
    if name = "group" then
      GroupDescription.ofJson? json :: EntryDescription.groupsOf members
    else EntryDescription.groupsOf members

/-- The entries that a list of trees stands for. -/
def EntryDescription.allOfJson? : List Json → Option (List EntryDescription)
  | [] => some []
  | json :: items => do
    let entry ← EntryDescription.ofJson? json
    let entries ← EntryDescription.allOfJson? items
    pure (entry :: entries)

end

/-! ## Conditions and requests as texts -/

/-- Read an entry of a group. -/
def EntryDescription.reader (depth : Nat) : Reader EntryDescription := do
  match EntryDescription.ofJson? (← Reader.tree depth) with
  | some entry => pure entry
  | none => throw (.noVariant "EntryRequest")

/-- Read the description of a group. -/
def GroupDescription.reader (depth : Nat) : Reader GroupDescription :=
  Reader.record depth "struct GroupRequest"
    [{ name := "conjunction", isRequired := false,
       read := fun depth group => do
        pure ⟨← Conjunction.reader depth, group.entries⟩ },
     { name := "entries", isRequired := false,
       read := fun depth group => do
        pure ⟨group.conjunction, ← Reader.list depth EntryDescription.reader⟩ }]
    default

/-- Read a request. -/
def CompileRequest.reader : Reader CompileRequest :=
  Reader.record Reader.depthLimit "struct CompileRequest"
    [{ name := "entity_type", isRequired := true,
       read := fun _ request => do pure { request with entityType := ← Reader.string } },
     { name := "keys", isRequired := true,
       read := fun depth request => do
        pure { request with keys := ← EntityKeys.reader depth } },
     { name := "options", isRequired := false,
       read := fun depth request => do
        pure { request with options := ← CompileOptions.reader depth } },
     { name := "mappings", isRequired := false,
       read := fun depth request => do
        pure { request with mappings := ← Reader.map depth readStrings } },
     { name := "escaping", isRequired := false,
       read := fun depth request => do
        pure { request with escaping := ← ValueEscaping.reader depth } },
     { name := "conditions", isRequired := false,
       read := fun depth request => do
        pure { request with conditions := ← GroupDescription.reader depth } }]
    { entityType := "", keys := ⟨"", "", none⟩ }

/-- The request that a text holds. -/
def CompileRequest.ofText (text : String) : Except ConditionError CompileRequest :=
  match Reader.run CompileRequest.reader text with
  | .ok request => .ok request
  | .error fault => .error (.invalidRequest fault.message)

/-- Compile the request that a text holds. -/
def compileText (text : String) : Pass CompileOutput := do
  let request ← Pass.ofExcept (CompileRequest.ofText text)
  request.compile

/-! ## Answers as JSON values -/

/-- A list of strings as a value. -/
def Json.ofStrings (texts : List String) : Json :=
  .array (texts.map .string)

/-- The output of a request as a value. -/
def CompileOutput.json (output : CompileOutput) : Json :=
  .object
    [("fragment", .string output.fragment),
     ("entity_type", .string output.entityType),
     ("field_mappings", .object (output.fieldMappings.entries.map fun entry =>
       (entry.1, .ofStrings entry.2)))]

/-- A failure as a value. -/
def failureJson (message : String) : Json :=
  .object [("error", .string message)]

end GraphCriteria
