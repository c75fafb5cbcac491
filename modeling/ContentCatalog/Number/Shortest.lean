import ContentCatalog.Number.Double

/-!
# Shortest decimal text of a double

The text of a finite double has the fewest digits that read back to it.  Digits
come from exact whole-number arithmetic: a decimal grid is tried for one digit,
two digits, and so on; the first grid with a point in the interval of the reals
that round to the number gives the digits, the nearer one of two such points.
How the digits are laid out is kept apart in one record, `DecimalLayout`.
-/

namespace ContentCatalog.Double

/-- The reals that round to `significand * 2 ^ exponent`: in units of a quarter
of the last binary place, the distance to the lower and to the upper end. -/
def roundingHalfWidths (significand : Nat) (exponent : Int) : Nat × Nat :=
  if significand = twoTo 52 ∧ leastExponent < exponent then (1, 2) else (2, 2)

/-- A positive number as decimal digits: `digits * 10 ^ place`. -/
structure Decimal where
  digits : Nat
  place : Int
  deriving DecidableEq, Repr

/-- The numerator and denominator of `n * 2 ^ e`. -/
def power2 (n : Nat) (e : Int) : Nat × Nat :=
  if 0 ≤ e then (n * twoTo e.toNat, 1) else (n, twoTo (-e).toNat)

/-- The quotient is below `10 ^ k`. -/
def belowPower10 (num den : Nat) (k : Int) : Bool :=
  if 0 ≤ k then num < den * tenTo k.toNat else num * tenTo (-k).toNat < den

/-- The least `k` of `start`, `start + 1`, … with the quotient below `10 ^ k`. -/
def decimalPlaceFrom (num den : Nat) : (fuel : Nat) → (start : Int) → Int
  | 0, start => start
  | fuel + 1, start =>
    if belowPower10 num den start then start else decimalPlaceFrom num den fuel (start + 1)

/-- The place of the decimal point: the least `k` with the quotient below
`10 ^ k`.  The binary magnitude gives a start at most a few places too low. -/
def decimalPlace (num den : Nat) : Int :=
  decimalPlaceFrom num den 8 (Int.fdiv (magnitude num den * 30103) 100000 - 1)

/-- The point of the grid `10 ^ place` that reads back to the number and lies
nearest to it, if one does: `num / den` is the number, and a quarter of its last
binary place is `quarter / den`. -/
def gridPoint? (num den quarter below above : Nat) (closed : Bool) (place : Int) : Option Nat :=
  let (step, factor) :=
    if 0 ≤ place then (den * tenTo place.toNat, 1) else (den, tenTo (-place).toNat)
  let value := num * factor
  let low := value - below * quarter * factor
  let high := value + above * quarter * factor
  let inside (point : Nat) : Bool :=
    let x := point * step
    if closed then low ≤ x && x ≤ high else low < x && x < high
  let floor := value / step
  let ceiling := floor + 1
  match floor != 0 && inside floor, inside ceiling with
  | true, true =>
    let left := value - floor * step
    let right := ceiling * step - value
    if left < right || (left == right && floor % 2 == 0) then some floor else some ceiling
  | true, false => some floor
  | false, true => some ceiling
  | false, false => none

/-- Try grids of `count`, `count + 1`, … digits, at most so many. -/
def shortestFrom (point? : Int → Option Nat) (top : Int) : (fuel : Nat) → (count : Int) → Decimal
  | 0, count => ⟨(point? (top - count)).getD 0, top - count⟩
  | fuel + 1, count =>
    match point? (top - count) with
    | some digits => ⟨digits, top - count⟩
    | none => shortestFrom point? top fuel (count + 1)

/-- The fewest decimal digits that read back to `significand * 2 ^ exponent`. -/
def shortest (significand : Nat) (exponent : Int) : Decimal :=
  let (num, den) := power2 (significand * 4) (exponent - 2)
  let (quarter, _) := power2 1 (exponent - 2)
  let (below, above) := roundingHalfWidths significand exponent
  let top := decimalPlace num den
  shortestFrom (gridPoint? num den quarter below above (significand % 2 == 0)) top 16 1

/-- How a number's digits are laid out. -/
structure DecimalLayout where
  /-- The least and the greatest place of the decimal point that is written
  without an exponent. -/
  leastPlain : Int
  greatestPlain : Int
  /-- The least number of digits of an exponent. -/
  exponentWidth : Nat
  /-- The words for what has no digits. -/
  notNumber : String
  infinity : String

/-- The text of a natural number, filled up with zeros on the left. -/
def paddedNat (width n : Nat) : String :=
  let digits := toString n
  String.ofList (List.replicate (width - digits.length) '0') ++ digits

/-- The digits without zeros at the end. -/
def significant (digits : List Char) : List Char :=
  (digits.reverse.dropWhile (· == '0')).reverse

/-- Digits with the decimal point at `place`, counted from their start. -/
def layDigits (layout : DecimalLayout) (digits : List Char) (place : Int) : String :=
  if place < layout.leastPlain || layout.greatestPlain < place then
    let mantissa :=
      match digits with
      | [] => "0"
      | [d] => String.ofList [d]
      | d :: others => String.ofList (d :: '.' :: others)
    let exponent := place - 1
    mantissa ++ (if exponent < 0 then "e-" else "e+")
      ++ paddedNat layout.exponentWidth exponent.natAbs
  else if place ≤ 0 then
    "0." ++ String.ofList (List.replicate (-place).toNat '0' ++ digits)
  else
    let whole := digits.take place.toNat
    let whole := whole ++ List.replicate (place.toNat - whole.length) '0'
    let fraction := digits.drop place.toNat
    String.ofList (whole ++ '.' :: (if fraction.isEmpty then ['0'] else fraction))

/-- The text of a double in a layout. -/
def render (layout : DecimalLayout) : Double → String
  | .notNumber => layout.notNumber
  | .infinite negative => (if negative then "-" else "") ++ layout.infinity
  | .finite negative significand exponent =>
    (if negative then "-" else "") ++
      if significand = 0 then "0.0"
      else
        let decimal := shortest significand exponent
        let digits := (toString decimal.digits).toList
        layDigits layout (significant digits) (decimal.place + digits.length)

/-- The layout of messages and of mapping keys: plain from `0.0001` up to below
`10 ^ 16`. -/
def plainLayout : DecimalLayout where
  leastPlain := -3
  greatestPlain := 16
  exponentWidth := 2
  notNumber := "nan"
  infinity := "inf"

/-- The layout of JSON texts: as in messages, but for the words of what has no
digits. -/
def jsonLayout : DecimalLayout :=
  { plainLayout with notNumber := "NaN", infinity := "Infinity" }

end ContentCatalog.Double
