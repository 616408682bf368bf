import GraphCriteria.Group.Render
import GraphCriteria.Proofs.Tree

/-!
# The text of a group in one pass

The text of a group can be read off its tree directly: there is no memo of mappings, no plan and
no pointer to nested groups here.  Each leaf is written from what the host says of its field and
its values, and the texts of a group are put in order, joined and freed of repetitions at the end.

Main definitions:

- Definition `Leaf.texts`: what a leaf writes among the fragments of its group.
- Definition `Leaf.comparisonTexts`: what a leaf adds to the filter of its group.
- Definition `Group.reference`: the text of a group.

It is a total function; where the host has no answer, an empty one takes its place.
-/

namespace GraphCriteria

/-! ## Words of a fragment -/

/-- A variable, written without the leading question marks of the name it comes from. -/
def Variable.written (name : String) : String :=
  "?" ++ bareName name

namespace Context

/-- The candidates that a functional host has for a field. -/
def candidates (ctx : Context) (field : String) : List String :=
  match ctx.resolver [] ctx.entityType field with
  | .ok found => found.toList
  | .error _ => []

/-- How a functional host writes a value of a leaf. -/
def written (ctx : Context) (leaf : Leaf) (value : String) : String :=
  match ctx.escaper [] leaf.field value leaf.language with
  | .ok text => text
  | .error _ => ""

/-- The entity, as it is written. -/
def subjectText (ctx : Context) : String :=
  Variable.written ctx.options.subjectVariable

end Context

/-! ## Leaves -/

namespace Leaf

variable (leaf : Leaf) (ctx : Context) (keys : EntityKeys)

/-- The predicate of a field: a fixed one for the bundle, the only candidate, or a variable
that stands for several. -/
def predicateText : String :=
  match keys.kind leaf.field with
  | .bundle => ctx.options.typePredicate
  | _ =>
    match ctx.candidates leaf.field with
    | [predicate] => predicate
    | _ => Variable.written (leaf.field ++ "_predicate")

/-- What a condition speaks of: the entity for the id, and else the variable of the field. -/
def targetText : String :=
  match keys.kind leaf.field with
  | .id => ctx.subjectText
  | _ => Variable.written leaf.field

/-- The triple that gives the variable of a field its value.  The id needs none. -/
def bindingTexts : List String :=
  match keys.kind leaf.field with
  | .id => []
  | _ => [ctx.subjectText ++ " " ++ leaf.predicateText ctx keys ++ " " ++
      Variable.written leaf.field]

/-- The only text of a value. -/
def valueText : String :=
  match leaf.value with
  | some (.single text) => text
  | _ => ""

/-- The texts of a value, each as the host writes it. -/
def writtenTexts : List String :=
  match leaf.value with
  | some value => value.toList.map (ctx.written leaf)
  | none => []

/-- What a leaf writes among the fragments of its group. -/
def texts : List String :=
  let target := leaf.targetText ctx keys
  match leaf.operator with
  | .equal => [ctx.subjectText ++ " " ++ leaf.predicateText ctx keys ++ " " ++
      ctx.written leaf leaf.valueText]
  | .isIn => leaf.bindingTexts ctx keys ++
      ["VALUES " ++ target ++ " \x7b " ++ " ".intercalate (leaf.writtenTexts ctx) ++ " \x7d"]
  | .present => leaf.bindingTexts ctx keys ++ ["EXISTS \x7b " ++ target ++ " \x7d"]
  | .absent => leaf.bindingTexts ctx keys ++ ["NOT EXISTS \x7b " ++ target ++ " \x7d"]
  | .like => leaf.bindingTexts ctx keys ++
      ["regex(" ++ target ++ ", \"" ++ Literal.patternText leaf.valueText ++ "\")"]
  | .notLike => leaf.bindingTexts ctx keys ++
      ["!regex(" ++ target ++ ", \"" ++ Literal.patternText leaf.valueText ++ "\")"]
  | _ => leaf.bindingTexts ctx keys

/-- The right-hand side of a comparison.  Only the members of key sets are written by the
host. -/
def operandText : String :=
  match leaf.value with
  | some (.single text) => text
  | some (.list texts) =>
    if (keys.kind leaf.field).isKey then "(" ++ ", ".intercalate (leaf.writtenTexts ctx) ++ ")"
    else "(" ++ ", ".intercalate texts ++ ")"
  | none => ""

/-- What a leaf adds to the filter of its group. -/
def comparisonTexts : List String :=
  match leaf.operator with
  | .equal | .isIn | .present | .absent | .like | .notLike => []
  | operator => [leaf.targetText ctx keys ++ " " ++ operator.symbol ++ " " ++
      leaf.operandText ctx keys]

/-- Whether a leaf restricts a key to a set of members.  Such leaves come first. -/
def isKeySet : Bool :=
  leaf.operator = .isIn && (keys.kind leaf.field).isKey

/-- What a leaf writes before the candidates of predicates. -/
def keySetTexts : List String :=
  if leaf.isKeySet keys then leaf.texts ctx keys else []

/-- What a leaf writes after the candidates of predicates. -/
def otherTexts : List String :=
  if leaf.isKeySet keys then [] else leaf.texts ctx keys

end Leaf

/-! ## Groups -/

namespace Context

/-- Whether the candidates of a field are listed: it is no key, and it has several. -/
def several (ctx : Context) (keys : EntityKeys) (field : String) : Bool :=
  !(keys.kind field).isKey && 2 ≤ (ctx.candidates field).length

/-- The text that lists the candidates of a field. -/
def candidateText (ctx : Context) (field : String) : String :=
  "VALUES " ++ Variable.written (field ++ "_predicate") ++ " \x7b " ++
    " ".intercalate (ctx.candidates field) ++ " \x7d"

/-- The lists of candidates of the fields of some leaves, in the order in which the fields first
occur. -/
def candidateTexts (ctx : Context) (keys : EntityKeys) (leaves : List Leaf) : List String :=
  ((leaves.map Leaf.field).eraseDups.filter (ctx.several keys)).map ctx.candidateText

/-- The triple that links the entity to its bundle, unless some leaf narrows the group to a
bundle. -/
def bundleTexts (ctx : Context) (conjunction : Conjunction) (keys : EntityKeys)
    (leaves : List Leaf) : List String :=
  if conjunction = .and ∧
      ∀ leaf ∈ leaves, keys.kind leaf.field ≠ .bundle ∧ keys.kind leaf.field ≠ .other then
    [ctx.subjectText ++ " " ++ ctx.options.typePredicate ++ " " ++ Variable.written keys.bundle]
  else []

end Context

/-- One filter for all comparisons of a group. -/
def joinedFilter : List String → List String
  | [] => []
  | [comparison] => ["FILTER (" ++ comparison ++ ")"]
  | comparisons =>
    ["FILTER (" ++ " && ".intercalate (comparisons.map fun text => "(" ++ text ++ ")") ++ ")"]

/-- The text of a group from the texts of its parts.  Empty texts and repetitions are left
out. -/
def Conjunction.combine (conjunction : Conjunction) (texts : List String) : String :=
  let given := texts.filter (· ≠ "")
  match conjunction with
  | .and => " . ".intercalate given.eraseDups
  | .or => " UNION ".intercalate (given.map fun text => "\x7b " ++ text ++ " \x7d").eraseDups

mutual

/-- The text of a group. -/
def Group.reference (ctx : Context) (group : Group) : String :=
  match group with
  | ⟨conjunction, keys, entries, _, _⟩ =>
    let leaves := Entry.leaves entries
    conjunction.combine
      (ctx.bundleTexts conjunction keys leaves ++
        leaves.flatMap (·.keySetTexts ctx keys) ++
        ctx.candidateTexts keys leaves ++
        Entry.otherTexts ctx keys entries ++
        joinedFilter (leaves.flatMap (·.comparisonTexts ctx keys)))

/-- What the entries of a group write after the candidates of predicates, a nested group being
one text. -/
def Entry.otherTexts (ctx : Context) (keys : EntityKeys) (entries : List Entry) : List String :=
  match entries with
  | [] => []
  | .leaf leaf :: rest => leaf.otherTexts ctx keys ++ Entry.otherTexts ctx keys rest
  | .nested group :: rest => group.reference ctx :: Entry.otherTexts ctx keys rest

end

end GraphCriteria
