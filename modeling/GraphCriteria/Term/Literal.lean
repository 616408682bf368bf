import GraphCriteria.Text.Ascii

/-!
# Literals

A literal is written as its lexical form between double quotes, followed by nothing, by
a language tag or by the IRI of a datatype.  A pattern is quoted by a rule of its own.
-/

namespace GraphCriteria.Literal

/-! ## Quoting lexical forms -/

/-- One hexadecimal digit in upper case. -/
def upperHexDigit (n : Nat) : Char :=
  (Nat.digitChar n).toUpper

/-- A number below 65536 in four upper-case hexadecimal digits. -/
def fourHexDigits (n : Nat) : List Char :=
  [n / 4096 % 16, n / 256 % 16, n / 16 % 16, n % 16].map upperHexDigit

/-- Whether a character of a lexical form is written by its code. -/
def needsCode (c : Char) : Bool :=
  let n := c.toNat
  n < 0x20 || n == 0x7F || n == 0xFFFE || n == 0xFFFF

/-- How one character of a lexical form is written. -/
def quotedChar (c : Char) : List Char :=
  match c with
  | '\x08' => ['\\', 'b']
  | '\t' => ['\\', 't']
  | '\n' => ['\\', 'n']
  | '\x0c' => ['\\', 'f']
  | '\r' => ['\\', 'r']
  | '"' => ['\\', '"']
  | '\\' => ['\\', '\\']
  | c => if needsCode c then ['\\', 'u'] ++ fourHexDigits c.toNat else [c]

/-- A lexical form between double quotes. -/
def quoted (text : String) : String :=
  String.ofList (['"'] ++ text.toList.flatMap quotedChar ++ ['"'])

/-! ## Writing literals -/

/-- What tells how a lexical form is to be read. -/
inductive Mark where
  | plain
  | language (tag : String)
  | datatype (iri : String)
deriving DecidableEq, Repr

/-- The text of a mark. -/
def Mark.text : Mark → String
  | plain => ""
  | language tag => "@" ++ tag
  | datatype iri => "^^<" ++ iri ++ ">"

/-- The text of a literal. -/
def text (lexical : String) (mark : Mark) : String :=
  quoted lexical ++ mark.text

/-! ## Quoting patterns -/

/-- How one character of a pattern is written. -/
def patternChar (c : Char) : List Char :=
  match c with
  | '\\' => ['\\', '\\']
  | '"' => ['\\', '"']
  | '\'' => ['\\', '\'']
  | '\n' => ['\\', 'n']
  | '\r' => ['\\', 'r']
  | '\t' => ['\\', 't']
  | c => [c]

/-- The inside of a double-quoted literal that holds a pattern.  Backslashes and quotes
of both kinds get a leading backslash; line breaks and tabs become letters. -/
def patternText (pattern : String) : String :=
  String.ofList (pattern.toList.flatMap patternChar)

end GraphCriteria.Literal
