import GraphCriteria.Text.Ascii

/-!
# Numbers of JSON texts

A number without fraction and exponent that fits a 64-bit integer is an integer.  Any
other number is a 64-bit float; it is read by scaling its first digits, as many as fit a
64-bit word, by powers of ten.  A float is written with the fewest digits that read back
to it.
-/

namespace GraphCriteria.Json

/-! ## Shortest digits -/

/-- A finite positive float `significand * 2 ^ exponent`.  Just above a power of two the
float below is half as far away as the float above. -/
structure Binary where
  significand : Nat
  exponent : Int
  isNarrowBelow : Bool

/-- The float with the given bits, its sign left out. -/
def Binary.ofBits (bits : UInt64) : Binary :=
  let biased := ((bits >>> 52) &&& 0x7FF).toNat
  let fraction := (bits &&& 0xFFFFFFFFFFFFF).toNat
  if biased = 0 then ⟨fraction, -1074, false⟩
  else ⟨Nat.pow 2 52 + fraction, (biased : Int) - 1075, fraction = 0 && 1 < biased⟩

/-- The decimal number `digits * 10 ^ exponent`. -/
structure Decimal where
  digits : Nat
  exponent : Int
deriving DecidableEq, Repr

/-- Compare `a * 10 ^ i` with `n * 2 ^ j`. -/
def compareScaled (a : Nat) (i : Int) (n : Nat) (j : Int) : Ordering :=
  compare (a * Nat.pow 10 i.toNat * Nat.pow 2 (-j).toNat)
    (n * Nat.pow 2 j.toNat * Nat.pow 10 (-i).toNat)

/-- Whether a decimal lies among the reals that round to a float, those halfway to a
neighbour going to the even significand. -/
def Binary.isReadFrom (x : Binary) (d : Decimal) : Bool :=
  let low := if x.isNarrowBelow then 4 * x.significand - 1 else 4 * x.significand - 2
  let atLow := compareScaled d.digits d.exponent low (x.exponent - 2)
  let atHigh := compareScaled d.digits d.exponent (4 * x.significand + 2) (x.exponent - 2)
  let withEnds := x.significand % 2 = 0
  (atLow = .gt || (withEnds && atLow = .eq)) && (atHigh = .lt || (withEnds && atHigh = .eq))

/-- The whole number of grid steps `10 ^ step` in a float. -/
def Binary.gridFloor (x : Binary) (step : Int) : Nat :=
  (x.significand * Nat.pow 2 x.exponent.toNat * Nat.pow 10 (-step).toNat) /
    (Nat.pow 2 (-x.exponent).toNat * Nat.pow 10 step.toNat)

/-- The nearer to a float of its two neighbours on a grid, among those that read back to
it.  Halfway between them the even one is taken. -/
def Binary.onGrid? (x : Binary) (step : Int) : Option Decimal :=
  let below := x.gridFloor step
  let down : Decimal := ⟨below, step⟩
  let up : Decimal := ⟨below + 1, step⟩
  match x.isReadFrom down, x.isReadFrom up with
  | true, true =>
    match compareScaled (2 * below + 1) step (2 * x.significand) x.exponent with
    | .gt => some down
    | .lt => some up
    | .eq => some (if below % 2 = 0 then down else up)
  | true, false => some down
  | false, true => some up
  | false, false => none

/-- The least number of decimal places before the point, from an estimate upwards. -/
def Binary.magnitude (x : Binary) : Nat → Int → Int
  | 0, k => k
  | tries + 1, k =>
    if compareScaled 1 k x.significand x.exponent = .gt then k
    else x.magnitude tries (k + 1)

/-- The first grid with a hit, from one digit upwards. -/
def Binary.search (x : Binary) (magnitude : Int) : Nat → Nat → Option Decimal
  | 0, _ => none
  | tries + 1, digits =>
    match x.onGrid? (magnitude - digits) with
    | some d => some d
    | none => x.search magnitude tries (digits + 1)

/-- The shortest decimal that reads back to a float. -/
def Binary.shortest (x : Binary) : Decimal :=
  let bits : Int := x.significand.log2 + x.exponent
  let estimate : Int := bits * 30103 / 100000 - 1
  (x.search (x.magnitude 8 estimate) 20 1).getD ⟨0, 0⟩

/-- A decimal without trailing zeros among its digits. -/
def Decimal.strip : Nat → Decimal → Decimal
  | 0, d => d
  | tries + 1, d =>
    if d.digits % 10 = 0 && d.digits != 0 then strip tries ⟨d.digits / 10, d.exponent + 1⟩ else d

/-! ## Writing floats -/

/-- So many zeros. -/
def zeros (n : Nat) : String :=
  String.ofList (List.replicate n '0')

/-- The text of an exponent, with its sign. -/
def exponentText (n : Int) : String :=
  if n < 0 then toString n else "+" ++ toString n

/-- The text of a decimal.  Values from 10⁻⁵ to 10¹⁶ are written with a point among
their digits, all others with an exponent. -/
def Decimal.text (d : Decimal) : String :=
  let digits := toString d.digits
  let length : Int := digits.length
  let point := length + d.exponent
  if 0 ≤ d.exponent && point ≤ 16 then digits ++ zeros d.exponent.toNat ++ ".0"
  else if 0 < point && point ≤ 16 then
    String.ofList (digits.toList.take point.toNat) ++ "." ++
      String.ofList (digits.toList.drop point.toNat)
  else if -5 < point && point ≤ 0 then "0." ++ zeros (-point).toNat ++ digits
  else
    let tail := String.ofList (digits.toList.drop 1)
    String.ofList (digits.toList.take 1) ++ (if tail = "" then "" else "." ++ tail) ++ "e" ++
      exponentText (point - 1)

/-- The text of a finite float. -/
def floatText (f : Float) : String :=
  let sign := if f.toBits >>> 63 = 1 then "-" else ""
  let x := Binary.ofBits f.toBits
  if x.significand = 0 then sign ++ "0.0" else sign ++ (x.shortest.strip 20).text

/-! ## Numbers -/

/-- A number of a JSON text. -/
inductive Number where
  | integer (n : Int)
  | float (f : Float)

/-- The text of a number. -/
def Number.text : Number → String
  | integer n => toString n
  | float f => floatText f

/-- A power of ten as a float. -/
def tenPower (k : Nat) : Float :=
  Float.ofScientific 1 false k

/-- A 64-bit word scaled by a power of ten, if the result is finite.  Powers beyond
10⁻³⁰⁸ are taken in two steps; beyond the second nothing is left. -/
def scaled? (significand : Nat) (exponent : Int) : Option Float :=
  let f := significand.toUInt64.toFloat
  if 0 ≤ exponent then
    if significand = 0 then some f
    else if 308 < exponent then none
    else
      let g := f * tenPower exponent.toNat
      if g.isInf then none else some g
  else if -308 ≤ exponent then some (f / tenPower (-exponent).toNat)
  else if -616 ≤ exponent then some (f / tenPower 308 / tenPower (-exponent - 308).toNat)
  else some 0.0

end GraphCriteria.Json
