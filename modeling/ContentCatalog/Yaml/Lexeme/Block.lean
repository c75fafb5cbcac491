import ContentCatalog.Yaml.Lexeme.Property

/-!
# Block scalars

A literal scalar keeps its line breaks; a folded one joins lines that start with
text.  The header says how the breaks at the end are treated and may fix the
indentation, which is otherwise that of the first line with content.
-/

namespace ContentCatalog.Yaml.Lexeme

/-- What happens to the line breaks at the end of a block scalar. -/
inductive Chomping where
  | strip
  | clip
  | keep
  deriving DecidableEq

/-- A chomping indicator. -/
def chomping? (c : Char) : Option Chomping :=
  match c with
  | '+' => some .keep
  | '-' => some .strip
  | _ => none

/-- An indentation indicator, if one stands here. -/
def indentation (start m : Mark) : Except Failure (Option Nat × Mark) :=
  if '0' ≤ m.peek && m.peek ≤ '9' then
    if m.peek == '0' then refuse .blockScalar start .zeroIndentation m
    else .ok (some (m.peek.toNat - 48), m.advance)
  else .ok (none, m)

/-- The two indicators of a block header, in either order. -/
def blockHeader (start m : Mark) : Except Failure ((Chomping × Option Nat) × Mark) := do
  let (header, rest) ←
    match chomping? m.peek with
    | some chomping => do
      let (indent, rest) ← indentation start m.advance
      pure ((chomping, indent), rest)
    | none => do
      let (indent, rest) ← indentation start m
      match indent, chomping? rest.peek with
      | some _, some chomping => pure ((chomping, indent), rest.advance)
      | _, _ => pure ((.clip, indent), rest)
  if endsWord rest.peek then return (header, rest)
  else refuse .blockScalar start (.noBlockHeader rest.peek) rest

/-- The empty lines at the head of a block scalar: their breaks, the greatest
indentation among them and the first line with content, and the place of that
content. -/
def leadingBreaks : (fuel : Nat) → (widest : Nat) → Mark → List Char × Nat × Mark
  | 0, widest, m => ([], widest, m)
  | fuel + 1, widest, m =>
    if m.peek == ' ' then
      let m := m.advance
      leadingBreaks fuel (max widest m.column) m
    else if isBreak m.peek then
      let (first, m) := m.lineBreak
      let (others, widest, m) := leadingBreaks fuel widest m
      (first ++ others, widest, m)
    else ([], widest, m)

/-- Pass spaces up to a column. -/
def indentTo (column : Nat) : (fuel : Nat) → Mark → Mark
  | 0, m => m
  | fuel + 1, m =>
    if m.column < column && m.peek == ' ' then indentTo column fuel m.advance else m

/-- The empty lines before the next line that reaches a column, as their breaks. -/
def emptyLines (column : Nat) : (fuel : Nat) → Mark → List Char × Mark
  | 0, m => ([], m)
  | fuel + 1, m =>
    let m := indentTo column (column + 1) m
    if isBreak m.peek then
      let (first, m) := m.lineBreak
      let (others, m) := emptyLines column fuel m
      (first ++ others, m)
    else ([], m)

/-- A line starts with a blank. -/
def startsBlank (c : Char) : Bool :=
  c == ' ' || c == '\t'

/-- The lines of a block scalar whose content is at `column`.  `breaks` are those
before the line at the place.  The result holds the text up to the last line,
the break that ends it, and the breaks behind it. -/
def blockLines (isFolded : Bool) (column : Nat) :
    (fuel : Nat) → (breaks : List Char) → Mark → (List Char × List Char × List Char) × Mark
  | 0, breaks, m => (([], [], breaks), m)
  | fuel + 1, breaks, m =>
    if m.column == column && m.peek != endOfText then
      let plainStart := !startsBlank m.peek
      let (line, rest) := m.span (!isBreak ·)
      let (lineEnd, rest) := rest.lineBreak
      let (after, rest) := emptyLines column (rest.after.length + 1) rest
      if rest.column == column && rest.peek != endOfText then
        let joint :=
          if isFolded && lineEnd == ['\n'] && plainStart && !startsBlank rest.peek then
            if after.isEmpty then [' '] else []
          else lineEnd
        let ((text, last, tail), rest) := blockLines isFolded column fuel after rest
        ((breaks ++ line ++ joint ++ text, last, tail), rest)
      else ((breaks ++ line, lineEnd, after), rest)
    else (([], [], breaks), m)

/-- A block scalar inside a collection at `indent`, which is negative at the top
of a document. -/
def block (isFolded : Bool) (indent : Int) (m : Mark) : Except Failure (String × Mark) := do
  let ((chomping, given), rest) ← blockHeader m m.advance
  let rest ← restOfLine .blockScalar m rest
  let least := (max (indent + 1) 1).toNat
  let fuel := rest.after.length + 1
  let (column, breaks, rest) :=
    match given with
    | none =>
      let (breaks, widest, rest) := leadingBreaks fuel 0 rest
      (max least widest, breaks, rest)
    | some extra =>
      let column := least + extra - 1
      let (breaks, rest) := emptyLines column fuel rest
      (column, breaks, rest)
  let ((text, last, tail), rest) := blockLines isFolded column fuel breaks rest
  let ending :=
    match chomping with
    | .strip => []
    | .clip => last
    | .keep => last ++ tail
  return (String.ofList (text ++ ending), rest)

end ContentCatalog.Yaml.Lexeme
