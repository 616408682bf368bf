import GraphCriteria.Text.Ascii

/-!
# Integer and decimal numerals

A numeral is an optional sign and digits, a decimal one with an optional fraction.
Integers fill 64 bits.  Decimals are held as multiples of 10⁻¹⁸ in 128 bits and are
read digit by digit, every step staying in range.
-/

namespace GraphCriteria.Numeral

open Text

/-! ## Signs and ranges -/

/-- Split off an optional sign: whether it is a minus sign, and the text after it. -/
def splitSign : List Char → Bool × List Char
  | '+' :: cs => (false, cs)
  | '-' :: cs => (true, cs)
  | cs => (false, cs)

/-- The value of a sequence of decimal digits. -/
def digitsValue (cs : List Char) : Nat :=
  cs.foldl (fun n c => 10 * n + digitValue c) 0

/-- Whether a number has a two's complement form of so many bits. -/
def fits (bits : Nat) (n : Int) : Bool :=
  -(Nat.pow 2 (bits - 1) : Int) ≤ n && n < (Nat.pow 2 (bits - 1) : Int)

/-- A number in the range of decimals. -/
def inRange? (n : Int) : Option Int :=
  if fits 128 n then some n else none

/-! ## Integers -/

/-- The 64-bit integer that a text denotes. -/
def integer? (cs : List Char) : Option Int :=
  let (negative, digits) := splitSign cs
  if digits ≠ [] && digits.all isDigit then
    let n : Int := if negative then -(digitsValue digits : Int) else digitsValue digits
    if fits 64 n then some n else none
  else none

/-! ## Decimals -/

/-- The number of fraction digits of a decimal. -/
def scale : Nat := 18

/-- Append digits to a number, away from zero. -/
def appendDigits (negative : Bool) (n : Int) : List Char → Option Int
  | [] => some n
  | c :: cs =>
    match inRange? (n * 10) with
    | none => none
    | some n =>
      match inRange? (if negative then n - digitValue c else n + digitValue c) with
      | none => none
      | some n => appendDigits negative n cs

/-- A text without its trailing zeros. -/
def dropTrailingZeros (cs : List Char) : List Char :=
  (cs.reverse.dropWhile (· == '0')).reverse

/-- The decimal that a text denotes, as a multiple of 10⁻¹⁸.  At least one digit stands
on one side of the decimal point; trailing zeros of the fraction do not count. -/
def decimal? (cs : List Char) : Option Int := do
  let (negative, cs) := splitSign cs
  let whole := cs.takeWhile isDigit
  let n ← appendDigits negative 0 whole
  match cs.dropWhile isDigit with
  | [] => if whole = [] then none else inRange? (n * Nat.pow 10 scale)
  | '.' :: fraction =>
    let digits := dropTrailingZeros fraction
    if whole = [] && fraction.takeWhile isDigit = [] then none
    else if !digits.all isDigit || scale < digits.length then none
    else
      let n ← appendDigits negative n digits
      inRange? (n * Nat.pow 10 (scale - digits.length))
  | _ => none

end GraphCriteria.Numeral
