import ContentCatalog.Number.Double
import ContentCatalog.Text.Digit
import ContentCatalog.Text.Space
import ContentCatalog.Text.Quoted
import ContentCatalog.Text.Lowercase

/-!
# Reading numbers from texts

Whole numbers in a base and decimal fractions with an exponent.  Digits of every
script are accepted, blanks around a number are passed over, and a decimal whole
number may not have more than `digitLimit` digits.

* `wholeOfDigits_append_single` : a further digit multiplies by the base and adds.
-/

namespace ContentCatalog.Number

open Text

/-- A decimal whole number has at most so many digits, both read and written. -/
def digitLimit : Nat := 4300

/-- Why a text is no number. -/
inductive Fault where
  | notInteger (base : Nat) (text : List Char)
  | notDecimal (text : List Char)
  /-- So many digits are too many to read. -/
  | tooManyDigits (count : Nat)
  /-- The number to be written has too many digits. -/
  | tooLongToWrite
  deriving DecidableEq, Repr

/-- The limit as both reports of it begin. -/
def limitText : String :=
  "Exceeds the limit (" ++ toString digitLimit ++ " digits) for integer string conversion"

/-- The advice with which both reports of the limit end. -/
def limitAdvice : String :=
  "; use sys.set_int_max_str_digits() to increase the limit"

/-- The report of a fault. -/
def Fault.message : Fault → String
  | .notInteger base text =>
    "invalid literal for int() with base " ++ toString base ++ ": "
      ++ String.ofList ((quoted text).take 200)
  | .notDecimal text => "could not convert string to float: " ++ String.ofList (quoted text)
  | .tooManyDigits count =>
    limitText ++ ": value has " ++ toString count ++ " digits" ++ limitAdvice
  | .tooLongToWrite => limitText ++ limitAdvice

/-- A character as number readers see it: above ASCII, blanks are spaces, digits
are ASCII digits, and all else is no part of a number. -/
def numeral (c : Char) : Char :=
  if c.toNat < 127 then c
  else if isSpace c then ' '
  else
    match digitValue? c with
    | some d => Char.ofNat (48 + d)
    | none => '?'

/-- The blanks around a number. -/
def isNumberBlank (c : Char) : Bool :=
  c == ' ' || (9 ≤ c.toNat && c.toNat ≤ 13)

/-- The part of a text that has to be the number. -/
def numberBody (text : List Char) : List Char :=
  trim isNumberBlank (text.map numeral)

/-- A sign at the front, and the rest. -/
def signed : List Char → Bool × List Char
  | '-' :: rest => (true, rest)
  | '+' :: rest => (false, rest)
  | rest => (false, rest)

/-- The value of a digit in a base up to thirty-six. -/
def digitIn? (base : Nat) (c : Char) : Option Nat :=
  let n := c.toNat
  let value :=
    if 48 ≤ n && n ≤ 57 then n - 48
    else if 97 ≤ n && n ≤ 122 then n - 87
    else if 65 ≤ n && n ≤ 90 then n - 55
    else base
  if value < base then some value else none

/-- The number that digits write in a base. -/
def wholeOfDigits (base : Nat) (digits : List Nat) : Nat :=
  digits.foldl (fun value digit => value * base + digit) 0

/-- One digit more makes a number greater by a place and the digit. -/
theorem wholeOfDigits_append_single (base : Nat) (digits : List Nat) (digit : Nat) :
    wholeOfDigits base (digits ++ [digit]) = wholeOfDigits base digits * base + digit := by
  simp [wholeOfDigits]

/-- The digits of a text that is nothing but digits. -/
def allDigits? (base : Nat) (text : List Char) : Option (List Nat) :=
  text.mapM (digitIn? base)

/-- The mark that may stand in front of the digits of a base. -/
def baseMark (base : Nat) (text : List Char) : List Char :=
  match text with
  | '0' :: mark :: rest =>
    if (base == 16 && (mark == 'x' || mark == 'X')) || (base == 8 && (mark == 'o' || mark == 'O'))
        || (base == 2 && (mark == 'b' || mark == 'B')) then rest
    else text
  | _ => text

/-- A whole number in a base, with an optional sign and an optional mark of the
base. -/
def readInteger (base : Nat) (text : List Char) : Except Fault Int :=
  let (negative, unsigned) := signed (numberBody text)
  let body := baseMark base unsigned
  let run := (body.takeWhile fun c => (digitIn? base c).isSome).length
  if base = 10 ∧ digitLimit < run then .error (.tooManyDigits run)
  else
    match allDigits? base body with
    | some (digit :: digits) =>
      let size : Int := wholeOfDigits base (digit :: digits)
      .ok (if negative then -size else size)
    | _ => .error (.notInteger base text)

/-- The double nearest to `digits * 10 ^ place`, where `digits` is written with
so many significant digits.  Far outside the range nothing is computed. -/
def ofDecimal (negative : Bool) (digits width : Nat) (place : Int) : Double :=
  if digits = 0 then .finite negative 0 Double.leastExponent
  else if 310 < width + place then .infinite negative
  else if width + place < -330 then .finite negative 0 Double.leastExponent
  else if 0 ≤ place then Double.ofRatio negative (digits * tenTo place.toNat) 1
  else Double.ofRatio negative digits (tenTo (-place).toNat)

/-- An exponent: nothing, or the letter, an optional sign and digits. -/
def readExponent? : List Char → Option Int
  | [] => some 0
  | c :: rest =>
    if c == 'e' || c == 'E' then
      let (negative, body) := signed rest
      match allDigits? 10 body with
      | some (digit :: digits) =>
        let size : Int := wholeOfDigits 10 (digit :: digits)
        some (if negative then -size else size)
      | _ => none
    else none

/-- A decimal digit of ASCII. -/
def isAsciiDigitChar (c : Char) : Bool :=
  (digitIn? 10 c).isSome

/-- An unsigned decimal fraction. -/
def readFraction? (negative : Bool) (text : List Char) : Option Double :=
  let whole := text.takeWhile isAsciiDigitChar
  let afterWhole := text.dropWhile isAsciiDigitChar
  let (fraction, tail) :=
    match afterWhole with
    | '.' :: rest => (rest.takeWhile isAsciiDigitChar, rest.dropWhile isAsciiDigitChar)
    | rest => ([], rest)
  let written := whole ++ fraction
  if written.isEmpty then none
  else do
    let exponent ← readExponent? tail
    let digits ← allDigits? 10 written
    let width := (digits.dropWhile (· == 0)).length
    return ofDecimal negative (wholeOfDigits 10 digits) width (exponent - fraction.length)

/-- A decimal fraction with an optional sign and an optional exponent, or one of
the words for infinity and for what is not a number, in any case. -/
def readDecimal (text : List Char) : Except Fault Double :=
  let (negative, body) := signed (numberBody text)
  let word := String.ofList (body.map lowerChar)
  if word == "inf" || word == "infinity" then .ok (.infinite negative)
  else if word == "nan" then .ok .notNumber
  else
    match readFraction? negative body with
    | some value => .ok value
    | none => .error (.notDecimal text)

/-- The decimal text of a whole number, unless it has too many digits. -/
def writeInteger (i : Int) : Except Fault String :=
  if tenTo digitLimit ≤ i.natAbs then .error .tooLongToWrite else .ok (toString i)

end ContentCatalog.Number
