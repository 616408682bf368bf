/-!
# Operators and conjunctions

An operator compares a field with its value; a conjunction says how the fragments
of one group are combined.  Each has a fixed spelling and a fixed rule for the text
around what it joins.
-/

namespace GraphCriteria

/-! ## Operators -/

/-- A comparison, membership, pattern or existence operator. -/
inductive Operator where
  | equal
  | notEqual
  | less
  | greater
  | lessOrEqual
  | greaterOrEqual
  | isIn
  | notIn
  | like
  | notLike
  | present
  | absent
deriving DecidableEq, Repr, Inhabited

/-- How an operator is written around its operand.  An operator without a separator
takes no list operand. -/
structure OperatorRule where
  opening : String := ""
  closing : String := ""
  separator : Option String := none
  usesValue : Bool := true
deriving DecidableEq, Repr

namespace Operator

/-- All operators, in the order in which messages list them. -/
def all : List Operator :=
  [equal, notEqual, less, greater, lessOrEqual, greaterOrEqual, isIn, notIn, like, notLike,
    present, absent]

/-- Every operator is listed. -/
theorem mem_all (op : Operator) : op ∈ all := by
  cases op <;> decide

/-- The spelling of an operator in conditions and in fragments. -/
def symbol : Operator → String
  | equal => "="
  | notEqual => "!="
  | less => "<"
  | greater => ">"
  | lessOrEqual => "<="
  | greaterOrEqual => ">="
  | isIn => "IN"
  | notIn => "NOT IN"
  | like => "LIKE"
  | notLike => "NOT LIKE"
  | present => "EXISTS"
  | absent => "NOT EXISTS"

/-- Two operators are never spelled alike. -/
theorem symbol_injective {a b : Operator} (h : a.symbol = b.symbol) : a = b := by
  cases a <;> cases b <;> first | rfl | simp [symbol] at h

/-- The text rule of an operator. -/
def rule : Operator → OperatorRule
  | isIn => { separator := some " " }
  | notIn => { separator := some ", " }
  | like => { opening := "regex(", closing := ")" }
  | notLike => { opening := "!regex(", closing := ")" }
  | present => { opening := "EXISTS \x7b ", closing := " \x7d", usesValue := false }
  | absent => { opening := "NOT EXISTS \x7b ", closing := " \x7d", usesValue := false }
  | _ => {}

/-- Whether a condition with this operator carries a value. -/
def usesValue (op : Operator) : Bool :=
  op.rule.usesValue

/-- Whether the operator is accepted on the id and bundle keys. -/
def isKeyOperator : Operator → Bool
  | equal | notEqual | isIn | notIn => true
  | _ => false

end Operator

/-! ## Conjunctions -/

/-- How the fragments of one group are combined. -/
inductive Conjunction where
  | and
  | or
deriving DecidableEq, Repr, Inhabited

/-- The text put between the fragments of a group, and around each of them. -/
structure ConjunctionRule where
  separator : String
  opening : String := ""
  closing : String := ""
deriving DecidableEq, Repr

namespace Conjunction

/-- The spelling of a conjunction. -/
def symbol : Conjunction → String
  | and => "AND"
  | or => "OR"

/-- The text rule of a conjunction: a sequence of patterns, or a union of brace groups. -/
def rule : Conjunction → ConjunctionRule
  | and => { separator := " . " }
  | or => { separator := " UNION ", opening := "\x7b ", closing := " \x7d" }

end Conjunction

end GraphCriteria
