import GraphCriteria.Json.Lexeme
import GraphCriteria.Json.Value
import GraphCriteria.Text.StringMap

/-!
# Reading JSON texts

A reader takes a value of a given form off the front of a text.  It checks the form as it
goes, so that the first fault in the order of the text is reported, be it one of the text
or one of the form.  Arrays and objects nest to a limited depth, except in values that
are only skipped.
-/

namespace GraphCriteria.Json

/-- Reads a value off the front of a text. -/
abbrev Reader := StateT (List Char) (Except Fault)

namespace Reader

variable {α β : Type}

/-- How deep arrays and objects may nest. -/
def depthLimit : Nat := 127

/-! ## Characters -/

/-- The next character that is no blank. -/
def peek : Reader (Option Char) := do
  let cs := dropBlanks (← get)
  set cs
  pure cs.head?

/-- Drop one character. -/
def advance : Reader Unit :=
  modify List.tail

/-- Apply a reader of a lexeme. -/
def lexeme (read : List Char → Except Fault (α × List Char)) : Reader α :=
  fun cs => read cs

/-- Apply a reader that returns only what follows. -/
def skipping (skip : List Char → Except Fault (List Char)) : Reader Unit :=
  fun cs => (skip cs).map ((), ·)

/-- Read within one more level of nesting. -/
def nested (depth : Nat) (read : Nat → Reader α) : Reader α :=
  match depth with
  | 0 => throw .tooDeep
  | depth + 1 => do
    advance
    read depth

/-! ## Arrays and objects -/

/-- Whether an array goes on, with the comma before its next item read. -/
def hasNextItem (isFirst : Bool) : Reader Bool := do
  match ← peek with
  | none => throw .endOfList
  | some ']' => pure false
  | some ',' =>
    if isFirst then pure true
    else
      advance
      match ← peek with
      | none => throw .endOfValue
      | some ']' => throw .trailingComma
      | some _ => pure true
  | some _ => if isFirst then pure true else throw .expectedCommaInList

/-- Read the end of an array. -/
def endArray : Reader Unit := do
  match ← peek with
  | none => throw .endOfList
  | some ']' => advance
  | some ',' =>
    advance
    match skipBlanks (← get) with
    | some ']' => throw .trailingComma
    | _ => throw .trailingCharacters
  | some _ => throw .trailingCharacters
where
  /-- The first character after blanks. -/
  skipBlanks (cs : List Char) : Option Char := (dropBlanks cs).head?

/-- Whether an object goes on, with the comma before its next name read. -/
def hasNextMember (isFirst : Bool) : Reader Bool := do
  match ← peek with
  | none => throw .endOfObject
  | some '\x7d' => pure false
  | some ',' =>
    if isFirst then throw .keyNotString
    else
      advance
      match ← peek with
      | none => throw .endOfValue
      | some '"' => pure true
      | some '\x7d' => throw .trailingComma
      | some _ => throw .keyNotString
  | some '"' => if isFirst then pure true else throw .expectedCommaInObject
  | some _ => if isFirst then throw .keyNotString else throw .expectedCommaInObject

/-- Read the colon between a name and its value. -/
def colon : Reader Unit := do
  match ← peek with
  | none => throw .endOfObject
  | some ':' => advance
  | some _ => throw .expectedColon

/-- Read items up to the end of an array.  A text at least as long as what is read bounds
the number of steps: where it ends, nothing is left to read. -/
def itemsWithin (item : β → Reader β) : List Char → Bool → β → Reader β
  | [], _, _ => throw .endOfList
  | _ :: bound, isFirst, acc => do
    if ← hasNextItem isFirst then itemsWithin item bound false (← item acc)
    else pure acc

/-- Read the items of an array after its bracket, up to its end. -/
def items (item : β → Reader β) (start : β) : Reader β := do
  let acc ← itemsWithin item (← get) true start
  endArray
  pure acc

/-- Read members up to the end of an object.  A text at least as long as what is read
bounds the number of steps: where it ends, nothing is left to read. -/
def membersWithin (member : β → String → Reader β) : List Char → Bool → β → Reader β
  | [], _, _ => throw .endOfObject
  | _ :: bound, isFirst, acc => do
    if ← hasNextMember isFirst then
      advance
      let name ← lexeme readString
      membersWithin member bound false (← member acc name)
    else pure acc

/-- Read the members of an object after its brace, up to the brace that ends it.  That
brace itself is left. -/
def members (member : β → String → Reader β) (start : β) : Reader β := do
  membersWithin member (← get) true start

/-! ## Values of any form -/

/-- Read a value as a tree. -/
def tree (depth : Nat) : Reader Json := do
  match ← peek with
  | none => throw .endOfValue
  | some 'n' => advance; skipping (readWord "ull".toList); pure .null
  | some 't' => advance; skipping (readWord "rue".toList); pure (.bool true)
  | some 'f' => advance; skipping (readWord "alse".toList); pure (.bool false)
  | some '-' => advance; pure (.number (← lexeme (readNumber false)))
  | some '"' => advance; pure (.string (← lexeme readString))
  | some '[' =>
    match depth with
    | 0 => throw .tooDeep
    | depth + 1 =>
      advance
      let read ← items (fun acc => do pure ((← tree depth) :: acc)) []
      pure (.array read.reverse)
  | some '\x7b' =>
    match depth with
    | 0 => throw .tooDeep
    | depth + 1 =>
      advance
      let read ← members (fun acc name => do
        colon
        pure ((name, ← tree depth) :: acc)) []
      advance
      pure (.object read.reverse)
  | some c =>
    if Text.isDigit c then pure (.number (← lexeme (readNumber true)))
    else throw .expectedValue

/-! ## Values that are skipped -/

/-- What a skipped value is inside of, from the inside out: arrays or objects. -/
abbrev Enclosing := List Bool

/-- Skip the name and the colon of a member. -/
def skipName : Reader Unit := do
  match ← peek with
  | none => throw .endOfObject
  | some '"' => advance
  | some _ => throw .keyNotString
  skipping skipString
  colon

/-- After a value or an opening bracket, close what ends here and find the next value, if
there is one.  A comma may come only after a value. -/
def close : Bool → Enclosing → Reader (Option Enclosing)
  | _, [] => pure none
  | afterValue, isObject :: outer => do
    let enter : Reader (Option Enclosing) := do
      if isObject then skipName
      pure (some (isObject :: outer))
    match ← peek with
    | none => throw (if isObject then .endOfObject else .endOfList)
    | some ',' =>
      if afterValue then
        advance
        enter
      else enter
    | some c =>
      if c = (if isObject then '\x7d' else ']') then
        advance
        close true outer
      else if afterValue then
        throw (if isObject then .expectedCommaInObject else .expectedCommaInList)
      else enter

/-- Skip a value and what encloses it.  A text at least as long as what is skipped bounds
the number of steps: where it ends, nothing is left to skip. -/
def skipWithin : List Char → Enclosing → Reader Unit
  | [], _ => throw .endOfValue
  | _ :: bound, outer => do
    let go (afterValue : Bool) (outer : Enclosing) : Reader Unit := do
      match ← close afterValue outer with
      | none => pure ()
      | some outer => skipWithin bound outer
    match ← peek with
    | none => throw .endOfValue
    | some 'n' => advance; skipping (readWord "ull".toList); go true outer
    | some 't' => advance; skipping (readWord "rue".toList); go true outer
    | some 'f' => advance; skipping (readWord "alse".toList); go true outer
    | some '-' => advance; skipping skipNumber; go true outer
    | some '"' => advance; skipping skipString; go true outer
    | some '[' => advance; go false (false :: outer)
    | some '\x7b' => advance; go false (true :: outer)
    | some c =>
      if Text.isDigit c then
        skipping skipNumber
        go true outer
      else throw .expectedValue

/-- Skip a value. -/
def skip : Reader Unit := do
  skipWithin (← get) []

/-! ## Values of given forms -/

/-- Report what stands where something else was expected.  A scalar is read first, since it
may itself be at fault. -/
def invalidType (expected : String) : Reader α := do
  match ← peek with
  | some '[' => throw (.invalidType .sequence expected)
  | some '\x7b' => throw (.invalidType .map expected)
  | _ => throw (.invalidType (← tree 0).found expected)

/-- Read a string. -/
def text (expected : String) : Reader String := do
  match ← peek with
  | none => throw .endOfValue
  | some '"' =>
    advance
    lexeme readString
  | some _ => invalidType expected

/-- Read a string. -/
def string : Reader String :=
  text "a string"

/-- Read null or a value. -/
def optional (read : Reader α) : Reader (Option α) := do
  match ← peek with
  | some 'n' =>
    advance
    skipping (readWord "ull".toList)
    pure none
  | _ => some <$> read

/-- Read null. -/
def unit : Reader Unit := do
  match ← peek with
  | none => throw .endOfValue
  | some 'n' =>
    advance
    skipping (readWord "ull".toList)
  | some _ => invalidType "unit"

/-- Read an array of values of one form. -/
def list (depth : Nat) (item : Nat → Reader α) : Reader (List α) := do
  match ← peek with
  | none => throw .endOfValue
  | some '[' =>
    nested depth fun depth => do
      let read ← items (fun acc => do pure ((← item depth) :: acc)) []
      pure read.reverse
  | some _ => invalidType "a sequence"

/-- Read an object with values of one form.  Of a repeated name the last value counts. -/
def map (depth : Nat) (value : Nat → Reader α) : Reader (StringMap α) := do
  match ← peek with
  | none => throw .endOfValue
  | some '\x7b' =>
    nested depth fun depth => do
      let read ← members (fun acc name => do
        colon
        pure (acc.insert name (← value depth))) ∅
      advance
      pure read
  | some _ => invalidType "a map"

/-- Read the name of one of several variants. -/
def variantName (variants : List (String × α)) : Reader α := do
  let name ← text "variant identifier"
  match variants.find? (·.1 == name) with
  | some variant => pure variant.2
  | none => throw (.unknownVariant name (variants.map Prod.fst))

/-- Read the name of one of several variants as the name of a member. -/
def variantMember (variants : List (String × α)) : Reader α := do
  match ← peek with
  | none => throw .endOfObject
  | some '"' => variantName variants
  | some '\x7d' => throw .expectedValue
  | some _ => throw .keyNotString

/-- Read one of several variants: its name, or an object that gives its name null. -/
def variant (depth : Nat) (variants : List (String × α)) : Reader α := do
  match ← peek with
  | none => throw .endOfValue
  | some '"' => variantName variants
  | some '\x7b' =>
    nested depth fun _ => do
      let read ← variantMember variants
      colon
      unit
      match ← peek with
      | none => throw .endOfObject
      | some '\x7d' =>
        advance
        pure read
      | some _ => throw .expectedValue
  | some _ => throw .expectedValue

/-! ## Records -/

/-- A field of a record, read into what has been read of the record. -/
structure Field (σ : Type) where
  name : String
  isRequired : Bool
  read : Nat → σ → Reader σ

/-- The number of elements that a record has as an array. -/
def elementCount (n : Nat) : String :=
  toString n ++ (if n = 1 then " element" else " elements")

/-- Read the fields of a record from an array, in their order. -/
def fieldsInOrder {σ : Type} (depth : Nat) (expected : String) :
    List (Field σ) → Nat → σ → Reader σ
  | [], _, record => pure record
  | field :: fields, index, record => do
    if ← hasNextItem (index = 0) then
      fieldsInOrder depth expected fields (index + 1) (← field.read depth record)
    else if field.isRequired then throw (.invalidLength index expected)
    else fieldsInOrder depth expected fields (index + 1) record

/-- Read one member of a record.  Unknown members are skipped, known ones come once. -/
def fieldNamed {σ : Type} (depth : Nat) (fields : List (Field σ)) (read : List String × σ)
    (name : String) : Reader (List String × σ) := do
  match fields.find? (·.name == name) with
  | none =>
    colon
    skip
    pure read
  | some field =>
    if read.1.contains name then throw (.duplicateField name)
    else
      colon
      pure (name :: read.1, ← field.read depth read.2)

/-- Read a record from an object with members in any order, or from an array. -/
def record {σ : Type} (depth : Nat) (expected : String) (fields : List (Field σ)) (start : σ) :
    Reader σ := do
  match ← peek with
  | none => throw .endOfValue
  | some '[' =>
    nested depth fun depth => do
      let read ← fieldsInOrder depth (expected ++ " with " ++ elementCount fields.length)
        fields 0 start
      endArray
      pure read
  | some '\x7b' =>
    nested depth fun depth => do
      let (seen, read) ← members (fieldNamed depth fields) ([], start)
      match fields.find? fun field => field.isRequired && !seen.contains field.name with
      | some field => throw (.missingField field.name)
      | none =>
        advance
        pure read
  | some _ => invalidType expected

/-! ## Whole texts -/

/-- Read a whole text. -/
def run (read : Reader α) (text : String) : Except Fault α :=
  match read text.toList with
  | .error fault => .error fault
  | .ok (value, rest) => if dropBlanks rest = [] then .ok value else .error .trailingCharacters

end Reader

end GraphCriteria.Json
