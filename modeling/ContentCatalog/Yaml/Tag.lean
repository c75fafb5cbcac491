/-!
# The kinds of untagged nodes

A scalar without a tag is a null, a truth value, a number, a date or moment, a
merge mark, a value mark, or else a text, which its first character and its
shape decide.  The shapes are recognised by small readers over the characters;
a shape may be followed by one line feed.
-/

namespace ContentCatalog.Yaml.Tag

/-- The tag of a standard kind. -/
def standard (name : String) : String :=
  "tag:yaml.org,2002:" ++ name

/-- A decimal digit. -/
def isDigit (c : Char) : Bool :=
  '0' ≤ c && c ≤ '9'

/-- A decimal digit or an underscore. -/
def isSpacedDigit (c : Char) : Bool :=
  isDigit c || c == '_'

/-- The text, less one line feed at its end. -/
def withoutFinalBreak (text : List Char) : List Char :=
  if text.getLast? == some '\n' then text.dropLast else text

/-- The text less a sign at its start. -/
def unsigned : List Char → List Char
  | '-' :: rest => rest
  | '+' :: rest => rest
  | rest => rest

/-- One or two digits below sixty at the start, and the rest. -/
def sixtieth? : List Char → Option (List Char)
  | a :: b :: rest =>
    if '0' ≤ a && a ≤ '5' && isDigit b then some rest
    else if isDigit a then some (b :: rest) else none
  | [a] => if isDigit a then some [] else none
  | [] => none

/-- One or more groups of a colon and a number below sixty, and the rest. -/
def sixtieths? : (fuel : Nat) → List Char → Option (List Char)
  | 0, _ => none
  | fuel + 1, ':' :: rest =>
    match sixtieth? rest with
    | some after =>
      match sixtieths? fuel after with
      | some last => some last
      | none => some after
    | none => none
  | _ + 1, _ => none

/-- An optional exponent, which must have a sign, and nothing behind it. -/
def isExponentOrEnd : List Char → Bool
  | [] => true
  | e :: sign :: digits =>
    (e == 'e' || e == 'E') && (sign == '-' || sign == '+') && !digits.isEmpty && digits.all isDigit
  | _ => false

/-- A decimal fraction, a base-sixty fraction, infinity, or the word for what is
not a number. -/
def isFloat (text : List Char) : Bool :=
  let body := unsigned text
  let afterDigits := body.dropWhile isSpacedDigit
  let decimal :=
    match body, afterDigits with
    | first :: _, '.' :: fraction =>
      isDigit first && isExponentOrEnd (fraction.dropWhile isSpacedDigit)
    | _, _ => false
  let pointed :=
    match text with
    | '.' :: first :: rest => isDigit first && isExponentOrEnd (rest.dropWhile isSpacedDigit)
    | _ => false
  let sixties :=
    match body with
    | first :: _ =>
      isDigit first &&
        match sixtieths? text.length afterDigits with
        | some ('.' :: fraction) => fraction.all isSpacedDigit
        | _ => false
    | [] => false
  let infinity := [".inf", ".Inf", ".INF"].contains (String.ofList body)
  let notNumber := [".nan", ".NaN", ".NAN"].contains (String.ofList text)
  decimal || pointed || sixties || infinity || notNumber

/-- A whole number: binary, octal, decimal, hexadecimal or base-sixty. -/
def isInteger (text : List Char) : Bool :=
  match unsigned text with
  | ['0'] => true
  | '0' :: 'b' :: digits => !digits.isEmpty && digits.all fun c => c == '0' || c == '1' || c == '_'
  | '0' :: 'x' :: digits =>
    !digits.isEmpty && digits.all fun c =>
      isSpacedDigit c || ('a' ≤ c && c ≤ 'f') || ('A' ≤ c && c ≤ 'F')
  | '0' :: digits => digits.all fun c => ('0' ≤ c && c ≤ '7') || c == '_'
  | first :: rest =>
    isDigit first &&
      match rest.dropWhile isSpacedDigit with
      | [] => true
      | groups => sixtieths? groups.length groups == some []
  | [] => false

/-- Exactly so many digits at the start, and the rest. -/
def digits? : (count : Nat) → List Char → Option (List Char)
  | 0, text => some text
  | count + 1, c :: rest => if isDigit c then digits? count rest else none
  | _ + 1, [] => none

/-- One or two digits at the start, and the rest. -/
def oneOrTwo? (text : List Char) : Option (List Char) :=
  match digits? 2 text with
  | some rest => some rest
  | none => digits? 1 text

/-- The given character at the start, and the rest. -/
def char? (c : Char) : List Char → Option (List Char)
  | d :: rest => if c = d then some rest else none
  | [] => none

/-- A blank. -/
def isBlank (c : Char) : Bool :=
  c == ' ' || c == '\t'

/-- What separates a date from a time of day: the letter T, or blanks. -/
def dateTimeJoint? : List Char → Option (List Char)
  | c :: rest =>
    if c == 'T' || c == 't' then some rest
    else if isBlank c then some (rest.dropWhile isBlank)
    else none
  | [] => none

/-- Nothing, or blanks and an offset: the letter Z, or a sign with hours and
perhaps minutes. -/
def isOffsetOrEnd (text : List Char) : Bool :=
  if text.isEmpty then true
  else
    match text.dropWhile isBlank with
    | ['Z'] => true
    | sign :: rest =>
      (sign == '-' || sign == '+') &&
        match oneOrTwo? rest with
        | some [] => true
        | some (':' :: minutes) => digits? 2 minutes == some []
        | _ => false
    | [] => false

/-- A date in ten characters. -/
def isDate (text : List Char) : Bool :=
  (do
    let rest ← digits? 4 text
    let rest ← char? '-' rest
    let rest ← digits? 2 rest
    let rest ← char? '-' rest
    digits? 2 rest) == some []

/-- A date with a time of day. -/
def isMoment (text : List Char) : Bool :=
  match (do
    let rest ← digits? 4 text
    let rest ← char? '-' rest
    let rest ← oneOrTwo? rest
    let rest ← char? '-' rest
    let rest ← oneOrTwo? rest
    let rest ← dateTimeJoint? rest
    let rest ← oneOrTwo? rest
    let rest ← char? ':' rest
    let rest ← digits? 2 rest
    let rest ← char? ':' rest
    digits? 2 rest) with
  | some ('.' :: rest) => isOffsetOrEnd (rest.dropWhile isDigit)
  | some rest => isOffsetOrEnd rest
  | none => false

/-- The words for true and false. -/
def truthWords : List String :=
  ["yes", "Yes", "YES", "no", "No", "NO", "true", "True", "TRUE", "false", "False", "FALSE",
    "on", "On", "ON", "off", "Off", "OFF"]

/-- The words for null, of which the empty one is apart. -/
def nullWords : List String :=
  ["~", "null", "Null", "NULL"]

/-- The tag of an untagged scalar. -/
def implicit (scalar : String) : String :=
  let text := scalar.toList
  let body := withoutFinalBreak text
  let word := String.ofList body
  match text with
  | [] => standard "null"
  | '\n' :: _ => standard "str"
  | first :: _ =>
    if truthWords.contains word then standard "bool"
    else if nullWords.contains word then standard "null"
    else if word == "<<" then standard "merge"
    else if word == "=" then standard "value"
    else if isDigit first || first == '-' || first == '+' || first == '.' then
      if isFloat body then standard "float"
      else if isInteger body then standard "int"
      else if isDate body || isMoment body then standard "timestamp"
      else standard "str"
    else if ["!", "&", "*"].contains word then standard "yaml"
    else standard "str"

end ContentCatalog.Yaml.Tag
