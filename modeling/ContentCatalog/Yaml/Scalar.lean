import ContentCatalog.Yaml.Fault
import ContentCatalog.Yaml.Tag
import ContentCatalog.Text.Base64
import ContentCatalog.Text.Pieces
import ContentCatalog.Value.Basic

/-!
# Scalars as values

How the text of a scalar becomes a value of the kind that its tag names.  An
explicit tag can be put on any text, so every reader here says what it makes of
texts that the untagged form of its kind would never have.
-/

namespace ContentCatalog.Yaml.Scalar

open Text (segments)

/-- The text without underscores. -/
def withoutSpacers (text : List Char) : List Char :=
  text.filter (· != '_')

/-- Split off a sign; an empty text has no sign to look for. -/
def splitSign : List Char → Except Defect (Bool × List Char)
  | [] => .error .noCharacter
  | '-' :: rest => .ok (true, rest)
  | '+' :: rest => .ok (false, rest)
  | rest => .ok (false, rest)

/-- A whole number, with faults of the text as defects. -/
def wholeNumber (base : Nat) (text : List Char) : Except Defect Int :=
  match Number.readInteger base text with
  | .ok n => .ok n
  | .error fault => .error (.number fault)

/-- A decimal fraction, with faults of the text as defects. -/
def fraction (text : List Char) : Except Defect Double :=
  match Number.readDecimal text with
  | .ok x => .ok x
  | .error fault => .error (.number fault)

/-- Truth values. -/
def bool (text : List Char) : Except Defect Value :=
  let word := String.ofList (Text.lower text)
  if ["yes", "true", "on"].contains word then .ok (.bool true)
  else if ["no", "false", "off"].contains word then .ok (.bool false)
  else .error (.unknownWord word)

/-- The magnitude of a whole number; its first characters decide the base. -/
def magnitude (body : List Char) : Except Defect Int :=
  match body with
  | ['0'] => .ok 0
  | '0' :: 'b' :: digits => wholeNumber 2 digits
  | '0' :: 'x' :: digits => wholeNumber 16 digits
  | '0' :: _ => wholeNumber 8 body
  | [] => .error .noCharacter
  | _ =>
    if body.contains ':' then do
      let parts ← (segments ':' body).mapM (wholeNumber 10)
      return parts.foldl (fun value part => value * 60 + part) 0
    else wholeNumber 10 body

/-- Whole numbers. -/
def int (text : List Char) : Except Defect Value := do
  let (negative, body) ← splitSign (withoutSpacers text)
  let size ← magnitude body
  return .int (if negative then -size else size)

/-- The sum of the parts of a base-sixty number, last part first, each rounded
and added with rounding.  A place beyond the doubles cannot be used. -/
def sumOfSixtieths : (place : Nat) → (sum : Double) → List Double → Except Defect Double
  | _, sum, [] => .ok sum
  | place, sum, part :: parts =>
    match Double.ofNat place with
    | .infinite _ => .error .hugePlace
    | factor => sumOfSixtieths (place * 60) (sum.add (part.mul factor)) parts

/-- The size of a fraction, infinity and what is not a number included. -/
def size (body : List Char) : Except Defect Double :=
  if body == ".inf".toList then .ok (.infinite false)
  else if body == ".nan".toList then .ok .notNumber
  else if body.contains ':' then do
    let parts ← (segments ':' body).mapM fraction
    sumOfSixtieths 1 Double.zero parts.reverse
  else fraction body

/-- Fractions. -/
def float (text : List Char) : Except Defect Value := do
  let (negative, body) ← splitSign (Text.lower (withoutSpacers text))
  let x ← size body
  return .float (if negative then x.neg else x)

/-- The first run of characters that are not ASCII, and where it begins. -/
def notAscii? (text : List Char) : Option (List Char × Nat) :=
  let isAscii (c : Char) : Bool := c.toNat < 128
  match text.dropWhile isAscii with
  | [] => none
  | rest => some (rest.takeWhile (!isAscii ·), text.length - rest.length)

/-- Bytes in base64. -/
def binary (text : List Char) : Except Problem Value :=
  match notAscii? text with
  | some (run, position) => .error (.binaryNotAscii run position)
  | none =>
    match Text.Base64.decode text with
    | .ok octets => .ok (.bytes octets)
    | .error fault => .error (.badBinary fault.message)

/-- The number of a run of decimal digits. -/
def decimal (digits : List Char) : Nat :=
  Number.wholeOfDigits 10 (digits.filterMap (Number.digitIn? 10))

/-- Exactly so many digits at the start, and the rest. -/
def exactly? (count : Nat) (text : List Char) : Option (Nat × List Char) :=
  (Tag.digits? count text).map fun rest => (decimal (text.take count), rest)

/-- Two digits at the start, or else one, and the rest. -/
def oneOrTwo? (text : List Char) : Option (Nat × List Char) :=
  (exactly? 2 text).orElse fun _ => exactly? 1 text

/-- The fraction of a second in microseconds: six digits, the missing ones zero. -/
def microseconds (digits : List Char) : Nat :=
  let six := digits.take 6
  decimal (six ++ List.replicate (6 - six.length) '0')

/-- An optional offset from universal time in seconds, and nothing behind it. -/
def offset? (text : List Char) : Option (Option Int) :=
  if text.isEmpty then some none
  else
    match text.dropWhile Tag.isBlank with
    | ['Z'] => some (some 0)
    | sign :: rest =>
      if sign == '-' || sign == '+' then do
        let (hours, rest) ← oneOrTwo? rest
        let minutes ←
          match rest with
          | [] => some 0
          | ':' :: rest =>
            match exactly? 2 rest with
            | some (minutes, []) => some minutes
            | _ => none
          | _ => none
        let seconds : Int := (hours * 60 + minutes) * 60
        return some (if sign == '-' then -seconds else seconds)
      else none
    | [] => none

/-- A time of day with an optional offset. -/
def timeAndOffset? (text : List Char) : Option (Calendar.TimeOfDay × Option Int) := do
  let (hour, rest) ← oneOrTwo? text
  let rest ← Tag.char? ':' rest
  let (minute, rest) ← exactly? 2 rest
  let rest ← Tag.char? ':' rest
  let (second, rest) ← exactly? 2 rest
  let (micro, rest) :=
    match rest with
    | '.' :: rest => (microseconds (rest.takeWhile Tag.isDigit), rest.dropWhile Tag.isDigit)
    | rest => (0, rest)
  let offset ← offset? rest
  return (⟨hour, minute, second, micro⟩, offset)

/-- The parts of a date, or of a date with a time of day. -/
def momentParts? (text : List Char) :
    Option (Calendar.Date × Option (Calendar.TimeOfDay × Option Int)) := do
  let (year, rest) ← exactly? 4 text
  let rest ← Tag.char? '-' rest
  let (month, rest) ← oneOrTwo? rest
  let rest ← Tag.char? '-' rest
  let (day, rest) ← oneOrTwo? rest
  let date : Calendar.Date := ⟨year, month, day⟩
  if rest.isEmpty then return (date, none)
  else
    let rest ← Tag.dateTimeJoint? rest
    let time ← timeAndOffset? rest
    return (date, some time)

/-- Dates and moments. -/
def moment (text : List Char) : Except Defect Value :=
  match momentParts? (Tag.withoutFinalBreak text) with
  | none => .error .noMoment
  | some (date, none) =>
    match date.check with
    | .ok date => .ok (.date date)
    | .error fault => .error (.calendar fault)
  | some (date, some (time, offset)) =>
    match Calendar.Moment.check ⟨date, time, offset⟩ with
    | .ok moment => .ok (.moment moment)
    | .error fault => .error (.calendar fault)

end ContentCatalog.Yaml.Scalar
