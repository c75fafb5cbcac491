import ContentCatalog.Text.Pieces

/-!
# Front matter

A source file may open with a block between two fences.  A fence is a line of
three dashes with blanks at most behind them.  The block ends at the first line
break that a fence follows; a fence directly below the opening one closes the
block only if there is no such line break.
-/

namespace ContentCatalog.Source

open Text

/-- A source text with its block taken out. -/
structure Split where
  frontmatter : Option (List Char)
  body : List Char
  deriving DecidableEq, Repr

/-- A blank that may follow the dashes of a fence. -/
def isFenceBlank (c : Char) : Bool :=
  c == ' ' || c == '\t'

/-- What follows a line break. -/
def afterBreak? : List Char → Option (List Char)
  | '\n' :: rest => some rest
  | '\r' :: '\n' :: rest => some rest
  | _ => none

/-- What follows the dashes of a fence and its blanks. -/
def afterDashes? (text : List Char) : Option (List Char) :=
  (afterStart? "---".toList text).map fun rest => rest.dropWhile isFenceBlank

/-- What follows an opening fence, which ends in a line break. -/
def afterOpening? (text : List Char) : Option (List Char) :=
  (afterDashes? text).bind afterBreak?

/-- What follows a closing fence, which ends in a line break or with the text. -/
def afterClosing? (text : List Char) : Option (List Char) :=
  (afterDashes? text).bind fun rest => if rest.isEmpty then some [] else afterBreak? rest

/-- The text up to the first line feed that a closing fence follows, and the text
behind that fence. -/
def untilClosing? : List Char → Option (List Char × List Char)
  | [] => none
  | c :: rest =>
    let later := (untilClosing? rest).map fun (before, after) => (c :: before, after)
    if c = '\n' then
      match afterClosing? rest with
      | some body => some ([], body)
      | none => later
    else later

/-- The text without one carriage return at its end. -/
def withoutReturn (text : List Char) : List Char :=
  (beforeEnd? ['\r'] text).getD text

/-- Take the block out of a source text. -/
def split (text : List Char) : Split :=
  match afterOpening? text with
  | none => ⟨none, text⟩
  | some inside =>
    match untilClosing? inside with
    | some (front, body) => ⟨some (withoutReturn front), body⟩
    | none =>
      match afterClosing? inside with
      | some body => ⟨some [], body⟩
      | none => ⟨none, text⟩

end ContentCatalog.Source
