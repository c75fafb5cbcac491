/-!
# Double-precision numbers

The numbers of the binary64 format as exact values: a finite number is a
significand times a power of two.  Every operation computes the exact result in
whole numbers and rounds it once, to the nearest double, a tie to the even
significand.

* `ofRatio` rounds a quotient of whole numbers;
* `mul`, `add` and `neg` are the arithmetic that times and durations need;
* `eqInt` and `same` compare exactly.
-/

namespace ContentCatalog

/-- The powers of two. -/
def twoTo (n : Nat) : Nat := Nat.pow 2 n

/-- The powers of ten. -/
def tenTo (n : Nat) : Nat := Nat.pow 10 n

/-- Powers of two are positive. -/
theorem twoTo_pos (n : Nat) : 0 < twoTo n := Nat.pow_pos (by decide)

/-- Powers of ten are positive. -/
theorem tenTo_pos (n : Nat) : 0 < tenTo n := Nat.pow_pos (by decide)

/-- A double.  A finite one is `significand * 2 ^ exponent`, in the form that
`Double.ofRatio` gives: the significand below `2 ^ 53` and, unless the exponent
is the least one, not below `2 ^ 52`. -/
inductive Double where
  | notNumber
  | infinite (negative : Bool)
  | finite (negative : Bool) (significand : Nat) (exponent : Int)
  deriving DecidableEq, Repr, Inhabited

namespace Double

/-- The least exponent of the format. -/
def leastExponent : Int := -1074

/-- The greatest exponent of the format. -/
def greatestExponent : Int := 971

/-- The nearest whole number to a quotient, a tie to the even one. -/
def roundedQuotient (num den : Nat) : Nat :=
  let q := num / den
  let twice := 2 * (num % den)
  if twice < den then q
  else if den < twice then q + 1
  else if q % 2 = 0 then q else q + 1

/-- The quotient scaled by a power of two, as a numerator and a denominator. -/
def scaled (num den : Nat) (exponent : Int) : Nat × Nat :=
  if 0 ≤ exponent then (num, den * twoTo exponent.toNat)
  else (num * twoTo (-exponent).toNat, den)

/-- The greatest power of two that is not above the quotient. -/
def magnitude (num den : Nat) : Int :=
  let guess : Int := (Nat.log2 num : Int) - (Nat.log2 den : Int)
  let (n, d) := scaled num den guess
  if n < d then guess - 1 else guess

/-- The double nearest to `num / den`, with the given sign. -/
def ofRatio (negative : Bool) (num den : Nat) : Double :=
  if num = 0 then .finite negative 0 leastExponent
  else
    let exponent := max (magnitude num den - 52) leastExponent
    let (n, d) := scaled num den exponent
    let significand := roundedQuotient n d
    let (significand, exponent) :=
      if significand = twoTo 53 then (twoTo 52, exponent + 1) else (significand, exponent)
    if greatestExponent < exponent then .infinite negative
    else .finite negative significand exponent

/-- The double nearest to a whole number times a power of two. -/
def ofScaled (negative : Bool) (significand : Nat) (exponent : Int) : Double :=
  if 0 ≤ exponent then ofRatio negative (significand * twoTo exponent.toNat) 1
  else ofRatio negative significand (twoTo (-exponent).toNat)

/-- The double nearest to a whole number. -/
def ofNat (n : Nat) : Double :=
  ofRatio false n 1

/-- Positive zero. -/
def zero : Double :=
  .finite false 0 leastExponent

/-- The sign, which zero and infinity have too. -/
def isNegative : Double → Bool
  | .notNumber => false
  | .infinite negative => negative
  | .finite negative _ _ => negative

/-- The number with the other sign. -/
def neg : Double → Double
  | .notNumber => .notNumber
  | .infinite negative => .infinite !negative
  | .finite negative significand exponent => .finite (!negative) significand exponent

/-- The rounded product. -/
def mul : Double → Double → Double
  | .notNumber, _ => .notNumber
  | _, .notNumber => .notNumber
  | .infinite s, .infinite t => .infinite (s != t)
  | .infinite s, .finite t n _ => if n = 0 then .notNumber else .infinite (s != t)
  | .finite s m _, .infinite t => if m = 0 then .notNumber else .infinite (s != t)
  | .finite s m p, .finite t n q => ofScaled (s != t) (m * n) (p + q)

/-- The rounded sum. -/
def add : Double → Double → Double
  | .notNumber, _ => .notNumber
  | _, .notNumber => .notNumber
  | .infinite s, .infinite t => if s = t then .infinite s else .notNumber
  | .infinite s, .finite .. => .infinite s
  | .finite .., .infinite t => .infinite t
  | .finite s m p, .finite t n q =>
    let low := min p q
    let whole (negative : Bool) (significand : Nat) (exponent : Int) : Int :=
      let size : Int := (significand * twoTo (exponent - low).toNat : Nat)
      if negative then -size else size
    let sum := whole s m p + whole t n q
    if sum = 0 then .finite (s && t) 0 leastExponent
    else ofScaled (sum < 0) sum.natAbs low

/-- The number is exactly this whole number. -/
def eqInt : Double → Int → Bool
  | .finite negative significand exponent, i =>
    let (n, d) := scaled significand 1 (-exponent)
    let size : Int := n
    (if negative then -size else size) == i * d
  | _, _ => false

/-- The numbers are equal: the zeros are, and what is not a number equals
nothing. -/
def same : Double → Double → Bool
  | .notNumber, _ => false
  | _, .notNumber => false
  | .finite s m p, .finite t n q => (m == 0 && n == 0) || (s == t && m == n && p == q)
  | x, y => x == y

/-- The whole part of a finite number, cut towards zero. -/
def truncate? : Double → Option Int
  | .finite negative significand exponent =>
    let size : Int :=
      if 0 ≤ exponent then (significand * twoTo exponent.toNat : Nat)
      else (significand / twoTo (-exponent).toNat : Nat)
    some (if negative then -size else size)
  | _ => none

/-- The number is zero, of either sign. -/
def isZero : Double → Bool
  | .finite _ significand _ => significand == 0
  | _ => false

end Double

end ContentCatalog
