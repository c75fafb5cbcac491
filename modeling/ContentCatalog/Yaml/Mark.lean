/-!
# Places in a document

A mark is a place in a text together with everything before and after it, so
that a report can show the line it lies on.  Moving on keeps the line and the
column; the byte order mark takes no column.
-/

namespace ContentCatalog.Yaml

/-- A place in a text: the characters before it (the last one first), those
after it, and its coordinates, all counted from zero. -/
structure Mark where
  before : List Char
  after : List Char
  index : Nat
  line : Nat
  column : Nat

/-- What is read past the end of a text. -/
def endOfText : Char := '\x00'

/-- A character that breaks lines. -/
def isBreak (c : Char) : Bool :=
  c == '\r' || c == '\n' || c == '\u0085' || c == '\u2028' || c == '\u2029'

/-- A line break or the end of the text. -/
def endsContent (c : Char) : Bool :=
  c == endOfText || isBreak c

/-- A space, a line break or the end of the text. -/
def endsWord (c : Char) : Bool :=
  c == ' ' || endsContent c

/-- A space, a tab, a line break or the end of the text. -/
def isBlankOrEnd (c : Char) : Bool :=
  c == '\t' || endsWord c

namespace Mark

/-- The start of a text. -/
def start (text : List Char) : Mark :=
  ⟨[], text, 0, 0, 0⟩

/-- The character at the place. -/
def peek (m : Mark) : Char :=
  m.after.headD endOfText

/-- The character so many places further on. -/
def peekAt (m : Mark) (n : Nat) : Char :=
  (m.after[n]?).getD endOfText

/-- The place behind the character `c`, which is followed by `rest`. -/
def past (m : Mark) (c : Char) (rest : List Char) : Mark :=
  let next : Mark := ⟨c :: m.before, rest, m.index + 1, m.line, m.column⟩
  if c == '\n' || c == '\u0085' || c == '\u2028' || c == '\u2029'
      || (c == '\r' && rest.head? != some '\n') then
    { next with line := m.line + 1, column := 0 }
  else if c == '\uFEFF' then next
  else { next with column := m.column + 1 }

/-- One character further on. -/
def advance (m : Mark) : Mark :=
  match m.after with
  | [] => m
  | c :: rest => m.past c rest

/-- So many characters further on. -/
def advanceBy : Nat → Mark → Mark
  | 0, m => m
  | n + 1, m => advanceBy n m.advance

/-- The longest run of characters of class `p`, and the place behind it. -/
def span (p : Char → Bool) (m : Mark) : List Char × Mark :=
  let run := m.after.takeWhile p
  (run, m.advanceBy run.length)

/-- The place behind the longest run of characters of class `p`. -/
def skip (p : Char → Bool) (m : Mark) : Mark :=
  (m.span p).2

/-- The place behind the spaces. -/
def skipSpaces (m : Mark) : Mark :=
  m.skip (· == ' ')

/-- The place behind a comment, if one begins here. -/
def skipComment (m : Mark) : Mark :=
  if m.peek == '#' then m.skip fun c => !isBreak c else m

/-- Pass a line break.  The result is its normal form: a line feed, or one of
the two Unicode separators, or nothing if there is no break. -/
def lineBreak (m : Mark) : List Char × Mark :=
  match m.after with
  | '\r' :: '\n' :: _ => (['\n'], m.advanceBy 2)
  | c :: _ =>
    if c == '\r' || c == '\n' || c == '\u0085' then (['\n'], m.advance)
    else if c == '\u2028' || c == '\u2029' then ([c], m.advance)
    else ([], m)
  | [] => ([], m)

/-- Three hyphens or three dots stand here, followed by a blank or the end. -/
def atDocumentMarker (m : Mark) : Bool :=
  match m.after with
  | '-' :: '-' :: '-' :: _ => isBlankOrEnd (m.peekAt 3)
  | '.' :: '.' :: '.' :: _ => isBlankOrEnd (m.peekAt 3)
  | _ => false

/-- The marks have the same line and column. -/
def samePlace (m n : Mark) : Bool :=
  m.line == n.line && m.column == n.column

/-- At most so many characters of a line are shown on either side of a place. -/
def snippetReach : Nat := 37

/-- A side of a snippet that is cut keeps so many characters. -/
def snippetKept : Nat := 32

/-- One side of the line, from the place outwards, and whether it was cut. -/
def snippetSide (side : List Char) : List Char × Bool :=
  let line := side.takeWhile fun c => !endsContent c
  if snippetReach ≤ line.length then (line.take snippetKept, true) else (line, false)

/-- The line of the place, cut to a reasonable width, over a caret. -/
def snippet (m : Mark) : String :=
  let (left, leftCut) := snippetSide m.before
  let (right, rightCut) := snippetSide m.after
  let cut (b : Bool) : List Char := if b then " ... ".toList else []
  let indent := List.replicate 4 ' '
  let head := cut leftCut
  String.ofList (indent ++ head ++ left.reverse ++ right ++ cut rightCut ++ ['\n']
    ++ List.replicate (4 + left.length + head.length) ' ' ++ ['^'])

/-- The place in words, with its snippet. -/
def describe (m : Mark) : String :=
  "  in \"<unicode string>\", line " ++ toString (m.line + 1) ++ ", column "
    ++ toString (m.column + 1) ++ ":\n" ++ m.snippet

end Mark

end ContentCatalog.Yaml
