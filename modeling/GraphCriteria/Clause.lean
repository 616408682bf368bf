import GraphCriteria.Mapping.Memo

/-!
# Clauses and plans

Compiling turns each condition into a clause, whose texts are in query form already.
The plan of a group lists its clauses in the order in which they are written.
-/

namespace GraphCriteria

/-! ## Patterns -/

/-- A triple pattern. -/
structure Triple where
  subject : String
  predicate : String
  object : String
deriving DecidableEq, Repr, Inhabited

/-- The text of a triple pattern. -/
def Triple.text (triple : Triple) : String :=
  triple.subject ++ " " ++ triple.predicate ++ " " ++ triple.object

/-- A variable and the terms that it may stand for. -/
structure ValuesClause where
  target : String
  members : List String
deriving DecidableEq, Repr, Inhabited

/-- The text of a clause that restricts a variable to its members. -/
def ValuesClause.text (clause : ValuesClause) : String :=
  "VALUES " ++ clause.target ++ " \x7b " ++
    (Operator.isIn.rule.separator.getD " ").intercalate clause.members ++ " \x7d"

/-- The right-hand side of a filter. -/
inductive Operand where
  | scalar (text : String)
  | list (texts : List String) (separator : String)
deriving DecidableEq, Repr, Inhabited

/-- The text of an operand, a list standing in parentheses. -/
def Operand.text : Operand → String
  | scalar text => text
  | list texts separator => "(" ++ separator.intercalate texts ++ ")"

/-! ## Clauses -/

/-- A compiled condition.  Where a condition speaks of a field through a variable, its
binding is the triple that gives the variable its value; the id key needs none. -/
inductive Clause where
  /-- The nested group at a place of the entries. -/
  | nested (index : Nat)
  /-- A condition written as a triple of its own. -/
  | triple (triple : Triple)
  | values (binding : Option Triple) (clause : ValuesClause)
  | existence (binding : Option Triple) (operator : Operator) (target : String)
  | pattern (binding : Option Triple) (operator : Operator) (target text : String)
  /-- A part of the one filter of the group. -/
  | filter (binding : Option Triple) (operator : Operator) (target : String) (operand : Operand)
deriving DecidableEq, Repr, Inhabited

namespace Clause

/-- The triple that a clause needs beforehand. -/
def binding? : Clause → Option Triple
  | nested _ | triple _ => none
  | values binding _ | existence binding _ _ | pattern binding _ _ _ | filter binding _ _ _ =>
    binding

end Clause

/-! ## Plans -/

/-- The compiled form of a group.  First comes the triple that links the entity to its
bundle, where no condition does so; then key sets and the candidates of predicate
variables; then the other conditions. -/
structure Plan where
  defaultBundle : Option Triple
  values : List Clause
  conditions : List Clause
  mappings : Memo
deriving DecidableEq, Repr, Inhabited

/-- The clauses of a plan, in the order in which they are written. -/
def Plan.clauses (plan : Plan) : List Clause :=
  plan.values ++ plan.conditions

end GraphCriteria
