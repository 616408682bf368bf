import GraphCriteria.Error

/-!
# Variables

A query variable is written as a question mark and its name.  Names follow the `VARNAME`
rule of the query language, with colons allowed as first characters.
-/

namespace GraphCriteria.Variable

/-! ## Names -/

/-- The ranges of the letters of a name beyond ASCII. -/
def letterRanges : List (Nat × Nat) :=
  [(0xC0, 0xD6), (0xD8, 0xF6), (0xF8, 0x2FF), (0x370, 0x37D), (0x37F, 0x1FFF),
    (0x200C, 0x200D), (0x2070, 0x218F), (0x2C00, 0x2FEF), (0x3001, 0xD7FF), (0xF900, 0xFDCF),
    (0xFDF0, 0xFFFD), (0x10000, 0xEFFFF)]

/-- Whether a character is a letter, a digit or an underscore of a name. -/
def isNameChar (c : Char) : Bool :=
  let n := c.toNat
  (0x30 ≤ n && n ≤ 0x39) || n == 0x5F || (0x41 ≤ n && n ≤ 0x5A) || (0x61 ≤ n && n ≤ 0x7A) ||
    letterRanges.any fun r => r.1 ≤ n && n ≤ r.2

/-- Whether a name may begin with a character. -/
def isFirst (c : Char) : Bool :=
  isNameChar c || c == ':'

/-- Whether a name may go on with a character. -/
def isLater (c : Char) : Bool :=
  let n := c.toNat
  isNameChar c || n == 0xB7 || (0x300 ≤ n && n ≤ 0x36F) || (0x203F ≤ n && n ≤ 0x2040)

/-- Whether a text is the name of a variable. -/
def isName : List Char → Bool
  | [] => false
  | c :: cs => isFirst c && cs.all isLater

/-! ## Writing variables -/

/-- The text of a name without its leading question marks. -/
def bareName (name : String) : String :=
  String.ofList (name.toList.dropWhile (· == '?'))

/-- The variable of a name, whose leading question marks do not count. -/
def ofName (name : String) : Except ConditionError String :=
  let bare := bareName name
  if isName bare.toList then .ok ("?" ++ bare)
  else .error (.invalidVariable bare "The variable name is invalid")

end GraphCriteria.Variable
