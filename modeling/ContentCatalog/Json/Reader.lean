import ContentCatalog.Json.Basic
import ContentCatalog.Dictionary
import ContentCatalog.Text.Pieces

/-!
# Reading JSON

Texts are read as JSON with three words more: the two infinities and the word
for what is not a number.  Of members with the same name the last value counts,
in the place of the first.  A whole number may not have too many digits.

A text is made of characters.  An escape of half a pair alone names none: it is
outside the model, where the replacement character stands for it.  So is the depth
at which nested values fill the stack of the interpreter.

A fault is kept with the text from its place on; its position, line and column
follow from that.  Every second step of the readers reads a character at least, so
twice the length of the text is fuel enough.

* `skipBlank_cons` : the reader of blanks stops at the first other character.
-/

namespace ContentCatalog.Json

open Text

/-- What is wrong with a text. -/
inductive Problem where
  | byteOrderMark
  | noValue
  | noName
  | noColon
  | noComma
  | extraData
  | unterminated
  | controlCharacter
  | badEscape
  | badCodePoint
  deriving DecidableEq, Repr

/-- The words for a problem. -/
def Problem.text : Problem → String
  | .byteOrderMark => "Unexpected UTF-8 BOM (decode using utf-8-sig)"
  | .noValue => "Expecting value"
  | .noName => "Expecting property name enclosed in double quotes"
  | .noColon => "Expecting \x27:\x27 delimiter"
  | .noComma => "Expecting \x27,\x27 delimiter"
  | .extraData => "Extra data"
  | .unterminated => "Unterminated string starting at"
  | .controlCharacter => "Invalid control character at"
  | .badEscape => "Invalid \\escape"
  | .badCodePoint => "Invalid \\uXXXX escape"

/-- Why a text is no document: a problem with the text from its place on, or a
number that is too long. -/
inductive Stop where
  | problem (problem : Problem) (ahead : List Char)
  | number (fault : Number.Fault)

/-- The blanks between the parts of a document. -/
def isBlank (c : Char) : Bool :=
  c == ' ' || c == '\t' || c == '\n' || c == '\r'

/-- The text behind the blanks. -/
def skipBlank (input : List Char) : List Char :=
  input.dropWhile isBlank

/-! ### Texts -/

/-- The value of four hexadecimal digits. -/
def codeUnit? (a b c d : Char) : Option Nat :=
  ([a, b, c, d].mapM (Number.digitIn? 16)).map (Number.wholeOfDigits 16)

/-- A code unit that begins a pair. -/
def isHighUnit (n : Nat) : Bool :=
  0xD800 ≤ n && n ≤ 0xDBFF

/-- A code unit that ends a pair. -/
def isLowUnit (n : Nat) : Bool :=
  0xDC00 ≤ n && n ≤ 0xDFFF

/-- The character of a code unit; for half of a pair alone, which is no character,
the replacement character stands. -/
def unitChar (n : Nat) : Char :=
  if isHighUnit n || isLowUnit n then '\uFFFD' else Char.ofNat n

/-- The character of an escaped code point, from behind its `u`.  Something has to
follow the digits. -/
def codePoint : List Char → Except Stop (Char × List Char)
  | a :: b :: c :: d :: next :: rest =>
    let here := 'u' :: a :: b :: c :: d :: next :: rest
    match codeUnit? a b c d with
    | none => .error (.problem .badCodePoint here)
    | some high =>
      match isHighUnit high, next :: rest with
      | true, '\\' :: 'u' :: e :: f :: g :: h :: after :: more =>
        match codeUnit? e f g h with
        | none => .error (.problem .badCodePoint ('u' :: e :: f :: g :: h :: after :: more))
        | some low =>
          if isLowUnit low then
            .ok (Char.ofNat (0x10000 + (high - 0xD800) * 0x400 + (low - 0xDC00)), after :: more)
          else .ok (unitChar high, next :: rest)
      | _, _ => .ok (unitChar high, next :: rest)
  | short => .error (.problem .badCodePoint ('u' :: short))

/-- The character of an escape, from behind its backslash. -/
def escape : List Char → Except Stop (Char × List Char)
  | 'u' :: rest => codePoint rest
  | '\x22' :: rest => .ok ('\x22', rest)
  | '\\' :: rest => .ok ('\\', rest)
  | '/' :: rest => .ok ('/', rest)
  | 'b' :: rest => .ok ('\x08', rest)
  | 'f' :: rest => .ok ('\x0c', rest)
  | 'n' :: rest => .ok ('\n', rest)
  | 'r' :: rest => .ok ('\r', rest)
  | 't' :: rest => .ok ('\t', rest)
  | rest => .error (.problem .badEscape ('\\' :: rest))

/-- The characters of a text up to its closing quote.  `opened` is the document
from the opening quote on; each step reads a character at least, so the length of
the text is fuel enough. -/
def characters (opened : List Char) : (fuel : Nat) → List Char → Except Stop (List Char × List Char)
  | 0, _ => .error (.problem .unterminated opened)
  | _ + 1, [] => .error (.problem .unterminated opened)
  | fuel + 1, c :: rest =>
    if c == '\x22' then .ok ([], rest)
    else if c == '\\' then
      if rest.isEmpty then .error (.problem .unterminated opened)
      else do
        let (d, rest) ← escape rest
        let (others, rest) ← characters opened fuel rest
        return (d :: others, rest)
    else if c.toNat < 32 then .error (.problem .controlCharacter (c :: rest))
    else do
      let (others, rest) ← characters opened fuel rest
      return (c :: others, rest)

/-- A text from behind its opening quote. -/
def quotedText (input : List Char) : Except Stop (String × List Char) := do
  let (chars, rest) ← characters ('\x22' :: input) (input.length + 1) input
  return (String.ofList chars, rest)

/-! ### Numbers -/

/-- The digits at the front, and the text behind them. -/
def digits (input : List Char) : List Char × List Char :=
  (input.takeWhile isAsciiDigit, input.dropWhile isAsciiDigit)
where
  /-- A digit of ASCII. -/
  isAsciiDigit (c : Char) : Bool := '0' ≤ c && c ≤ '9'

/-- The whole part of a number: zero stands alone. -/
def wholePart? (input : List Char) : Option (List Char × List Char) :=
  match input with
  | '0' :: rest => some (['0'], rest)
  | _ =>
    match digits input with
    | ([], _) => none
    | parts => some parts

/-- The fraction at the front, if there is one. -/
def fractionPart (input : List Char) : List Char × List Char :=
  match input with
  | '.' :: rest =>
    match digits rest with
    | ([], _) => ([], input)
    | (fraction, rest) => ('.' :: fraction, rest)
  | _ => ([], input)

/-- The exponent at the front, if there is one. -/
def exponentPart (input : List Char) : List Char × List Char :=
  match input with
  | c :: rest =>
    if c == 'e' || c == 'E' then
      let (sign, unsigned) :=
        match rest with
        | '+' :: rest => (['+'], rest)
        | '-' :: rest => (['-'], rest)
        | _ => ([], rest)
      match digits unsigned with
      | ([], _) => ([], input)
      | (exponent, rest) => (c :: sign ++ exponent, rest)
    else ([], input)
  | [] => ([], input)

/-- A number.  A fraction or an exponent makes it a double. -/
def number (input : List Char) : Except Stop (Json × List Char) :=
  let (sign, unsigned) :=
    match input with
    | '-' :: rest => (['-'], rest)
    | _ => ([], input)
  match wholePart? unsigned with
  | none => .error (.problem .noValue input)
  | some (whole, rest) =>
    let (fraction, rest) := fractionPart rest
    let (exponent, rest) := exponentPart rest
    let written := sign ++ whole ++ fraction ++ exponent
    if fraction.isEmpty && exponent.isEmpty then
      match Number.readInteger 10 written with
      | .ok i => .ok (.int i, rest)
      | .error fault => .error (.number fault)
    else
      match Number.readDecimal written with
      | .ok x => .ok (.float x, rest)
      | .error fault => .error (.number fault)

/-! ### Documents -/

/-- The words of a document and what they stand for. -/
def words : List (List Char × Json) := [
  ("null".toList, .null),
  ("true".toList, .bool true),
  ("false".toList, .bool false),
  ("NaN".toList, .float .notNumber),
  ("Infinity".toList, .float (.infinite false)),
  ("-Infinity".toList, .float (.infinite true))]

/-- A word or a number. -/
def scalar (input : List Char) : Except Stop (Json × List Char) :=
  match words.findSome? fun word => (afterStart? word.1 input).map fun rest => (word.2, rest) with
  | some found => .ok found
  | none => number input

/-- The object of the members, of equal names the last value in the first place. -/
def objectOf (members : List (String × Json)) : Json :=
  .object (Dictionary.ofEntries members)

mutual

/-- A document at the front of a text. -/
def document : (fuel : Nat) → List Char → Except Stop (Json × List Char)
  | 0, input => .error (.problem .noValue input)
  | _ + 1, [] => .error (.problem .noValue [])
  | fuel + 1, c :: rest =>
    if c == '\x22' then do
      let (input, rest) ← quotedText rest
      return (.text input, rest)
    else if c == '\x7b' then
      match skipBlank rest with
      | '\x7d' :: rest => .ok (.object [], rest)
      | rest => do
        let (members, rest) ← objectMembers fuel rest
        return (objectOf members, rest)
    else if c == '[' then
      match skipBlank rest with
      | ']' :: rest => .ok (.array [], rest)
      | rest => do
        let (items, rest) ← arrayItems fuel rest
        return (.array items, rest)
    else scalar (c :: rest)

/-- The items of an array up to its closing bracket; at least one. -/
def arrayItems : (fuel : Nat) → List Char → Except Stop (List Json × List Char)
  | 0, input => .error (.problem .noValue input)
  | fuel + 1, input => do
    let (item, rest) ← document fuel input
    match skipBlank rest with
    | ']' :: rest => return ([item], rest)
    | ',' :: rest => do
      let (others, rest) ← arrayItems fuel (skipBlank rest)
      return (item :: others, rest)
    | rest => .error (.problem .noComma rest)

/-- The members of an object up to its closing brace; at least one. -/
def objectMembers : (fuel : Nat) → List Char → Except Stop (List (String × Json) × List Char)
  | 0, input => .error (.problem .noName input)
  | fuel + 1, input => do
    match input with
    | '\x22' :: rest => do
      let (name, rest) ← quotedText rest
      match skipBlank rest with
      | ':' :: rest => do
        let (value, rest) ← document fuel (skipBlank rest)
        match skipBlank rest with
        | '\x7d' :: rest => return ([(name, value)], rest)
        | ',' :: rest => do
          let (others, rest) ← objectMembers fuel (skipBlank rest)
          return ((name, value) :: others, rest)
        | rest => .error (.problem .noComma rest)
      | rest => .error (.problem .noColon rest)
    | input => .error (.problem .noName input)

end

/-- Why a text is no document, and where. -/
inductive ReadFault where
  | malformed (problem : Problem) (position line column : Nat)
  | number (fault : Number.Fault)
  deriving DecidableEq, Repr

/-- The report of a fault. -/
def ReadFault.message : ReadFault → String
  | .malformed problem position line column =>
    problem.text ++ ": line " ++ toString line ++ " column " ++ toString column ++ " (char "
      ++ toString position ++ ")"
  | .number fault => fault.message

/-- The fault at the place from which on the given part of the text is left. -/
def faultAt (input : List Char) (problem : Problem) (ahead : List Char) : ReadFault :=
  let position := input.length - ahead.length
  let before := input.take position
  .malformed problem position (before.count '\n' + 1)
    ((before.reverse.takeWhile (· != '\n')).length + 1)

/-- The document that is the whole text. -/
def wholeDocument (input : List Char) : Except Stop Json :=
  match input with
  | '\uFEFF' :: _ => .error (.problem .byteOrderMark input)
  | _ => do
    let (document, rest) ← document (2 * input.length + 2) (skipBlank input)
    match skipBlank rest with
    | [] => return document
    | rest => .error (.problem .extraData rest)

/-- Read a document. -/
def read (input : List Char) : Except ReadFault Json :=
  match wholeDocument input with
  | .ok document => .ok document
  | .error (.problem problem ahead) => .error (faultAt input problem ahead)
  | .error (.number fault) => .error (.number fault)

/-- The reader of blanks stops at the first other character. -/
theorem skipBlank_cons {c : Char} (rest : List Char) (h : isBlank c = false) :
    skipBlank (c :: rest) = c :: rest := by
  simp [skipBlank, h]

end ContentCatalog.Json
