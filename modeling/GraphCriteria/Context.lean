import GraphCriteria.Escaping
import GraphCriteria.Mapping.Table
import GraphCriteria.Trace

/-!
# Contexts of compilation

A group is compiled for one entity type with the help of a host, which resolves fields to
their predicates and turns values into text.  A host may answer the same question
differently as the pass goes on; what it has to go by is the trace so far.
-/

namespace GraphCriteria

/-! ## Hosts -/

/-- Finds the candidate predicates of a field of an entity type. -/
abbrev Resolver :=
  Trace → String → String → Except ConditionError StringSet

/-- Turns a value of a field, in a language, into the text that stands for it. -/
abbrev Escaper :=
  Trace → String → String → Option String → Except ConditionError String

/-- The resolver that looks fields up in a table. -/
def MappingTable.resolver (table : MappingTable) : Resolver :=
  fun _ entityType field => table.resolve entityType field

/-- The escaper for values that are written in query form already. -/
def rawEscaper : Escaper :=
  fun _ _ value _ => .ok value

/-- The escaper that writes values as terms. -/
def TermEscaper.escaper (terms : TermEscaper) : Escaper :=
  fun _ field value language => terms.escape field value language

/-! ## Options -/

/-- The predicate that links an entity to its bundle unless another is chosen. -/
def typePredicate : String := "<http://www.w3.org/1999/02/22-rdf-syntax-ns#type>"

/-- The names used throughout a query: the variable of the entity and the predicate that
links it to its bundle. -/
structure CompileOptions where
  subjectVariable : String := "entity"
  typePredicate : String := typePredicate
deriving DecidableEq, Repr, Inhabited

/-! ## Contexts -/

/-- What compiling needs besides the conditions themselves. -/
structure Context where
  entityType : String
  resolver : Resolver
  escaper : Escaper := rawEscaper
  options : CompileOptions := {}

namespace Context

/-- Whether the host always answers the same question alike. -/
structure Functional (ctx : Context) : Prop where
  resolver_eq : ∀ s t entityType field,
    ctx.resolver s entityType field = ctx.resolver t entityType field
  escaper_eq : ∀ s t field value language,
    ctx.escaper s field value language = ctx.escaper t field value language

/-- Have the host resolve a field. -/
def resolve (ctx : Context) (field : String) : Pass StringSet :=
  fun trace =>
    (ctx.resolver trace ctx.entityType field, trace ++ [.resolverCall ctx.entityType field])

/-- Have the host escape a value. -/
def escape (ctx : Context) (field value : String) (language : Option String) : Pass String :=
  fun trace =>
    (ctx.escaper trace field value language, trace ++ [.escaperCall field value language])

/-- Have the host escape several values of a field, in order. -/
def escapeAll (ctx : Context) (field : String) (language : Option String) :
    List String → Pass (List String)
  | [] => pure []
  | value :: values => do
    let text ← ctx.escape field value language
    let texts ← ctx.escapeAll field language values
    pure (text :: texts)

end Context

end GraphCriteria
