import ContentCatalog.Catalog.Field
import ContentCatalog.Number.Reading
import ContentCatalog.Text.Pieces

/-!
# Literals and type annotations

The right-hand side of a default in a component's script, read as a value with
its type.  What is no literal is kept as its text and has no known type.
-/

namespace ContentCatalog.Source

open Text

/-- The text between equal quotes at both of its ends. -/
def insideQuotes? : List Char → Option (List Char)
  | quote :: rest =>
    if quote = '\x27' ∨ quote = '\x22' then beforeEnd? [quote] rest else none
  | [] => none

/-- The text is not empty and consists of digits of any script. -/
def isDigits (text : List Char) : Bool :=
  !text.isEmpty && text.all isDigit

/-- The text is a number without an exponent, with digits on both sides of a
point if it has one. -/
def isPlainNumber (text : List Char) : Bool :=
  let unsigned := (afterStart? ['-'] text).getD text
  match cut? ['.'] unsigned with
  | some (whole, fraction) => isDigits whole && isDigits fraction
  | none => isDigits unsigned

/-- The text without white space and commas around it, as far as they do not
take turns. -/
def literalText (text : List Char) : List Char :=
  strip (trimRight (· == ',') (strip text))

/-- The value and the type that a literal shows. -/
def literal (text : List Char) : Except Number.Fault (Value × FieldType) :=
  let body := literalText text
  match insideQuotes? body with
  | some inside => .ok (.text (String.ofList inside), .string)
  | none =>
    if body = "true".toList then .ok (.bool true, .boolean)
    else if body = "false".toList then .ok (.bool false, .boolean)
    else if isPlainNumber body then
      if body.contains '.' then (Number.readDecimal body).map (.float ·, .number)
      else (Number.readInteger 10 body).map (.int ·, .number)
    else if body = "null".toList then .ok (.null, .unknown)
    else .ok (.text (String.ofList body), .unknown)

/-- The type that an annotation names, white space left out. -/
def typeNamed (typeText : List Char) : FieldType :=
  let compact := typeText.filter fun c => !isSpace c
  if compact = "string".toList then .string
  else if compact = "number".toList then .number
  else if compact = "boolean".toList then .boolean
  else .unknown

end ContentCatalog.Source
