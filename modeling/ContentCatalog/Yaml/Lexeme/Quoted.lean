import ContentCatalog.Yaml.Lexeme.Property

/-!
# Quoted scalars

Between single quotes a doubled quote stands for one; between double quotes the
backslash begins an escape.  In both a line break is folded: with the blanks
around it it becomes a space, and further breaks are kept.

An escape of half a pair of code units names no character.  Such escapes are outside
the model, where the null character stands for them.
-/

namespace ContentCatalog.Yaml.Lexeme

/-- The character for a one-letter escape. -/
def escapeLetter? (c : Char) : Option Char :=
  match c with
  | '0' => some '\x00'
  | 'a' => some '\x07'
  | 'b' => some '\x08'
  | 't' => some '\t'
  | '\t' => some '\t'
  | 'n' => some '\n'
  | 'v' => some '\x0b'
  | 'f' => some '\x0c'
  | 'r' => some '\r'
  | 'e' => some '\x1b'
  | ' ' => some ' '
  | '\x22' => some '\x22'
  | '\\' => some '\\'
  | '/' => some '/'
  | 'N' => some '\u0085'
  | '_' => some '\u00a0'
  | 'L' => some '\u2028'
  | 'P' => some '\u2029'
  | _ => none

/-- The number of hexadecimal digits that an escape asks for. -/
def escapeWidth? (c : Char) : Option Nat :=
  match c with
  | 'x' => some 2
  | 'u' => some 4
  | 'U' => some 8
  | _ => none

/-- The character with a code point.  A code point without a character has the null
character. -/
def charOfCode (code : Nat) : Except Failure Char :=
  if code < 0x110000 then .ok (Char.ofNat code)
  else if code < 0x80000000 then .error (.defect .codePoint)
  else .error (.defect .hugeCodePoint)

/-- The breaks and blanks from here to the next content, as the breaks that are
kept. -/
def foldedBreaks (start : Mark) : (fuel : Nat) → Mark → Except Failure (List Char × Mark)
  | 0, m => .ok ([], m)
  | fuel + 1, m => do
    if m.atDocumentMarker then refuse .quotedScalar start .markerInScalar m
    else
      let m := m.skip fun c => c == ' ' || c == '\t'
      if isBreak m.peek then
        let (first, m) := m.lineBreak
        let (others, m) ← foldedBreaks start fuel m
        return (first ++ others, m)
      else return ([], m)

/-- What a line break and the kept breaks behind it become. -/
def folded (first others : List Char) : List Char :=
  if first != ['\n'] then first ++ others
  else if others.isEmpty then [' ']
  else others

/-- A run of blanks between two words of a quoted scalar. -/
def quotedBlanks (start m : Mark) : Except Failure (List Char × Mark) := do
  let (blanks, rest) := m.span fun c => c == ' ' || c == '\t'
  if rest.peek == endOfText then refuse .quotedScalar start .endInScalar rest
  else if isBreak rest.peek then
    let (first, behind) := rest.lineBreak
    let (others, behind) ← foldedBreaks start (m.after.length + 1) behind
    return (folded first others, behind)
  else return (blanks, rest)

/-- An escape behind its backslash, which stands at `m`. -/
def escape (start m : Mark) : Except Failure (List Char × Mark) := do
  let m := m.advance
  match escapeLetter? m.peek, escapeWidth? m.peek with
  | some c, _ => return ([c], m.advance)
  | none, some width =>
    let behind := m.advance
    let digits := (List.range width).map behind.peekAt
    match digits.find? (!isHexDigit ·) with
    | some found => refuse .doubleQuotedScalar start (.shortEscape width found) behind
    | none =>
      let c ← charOfCode (hexValue digits)
      return ([c], behind.advanceBy width)
  | none, none =>
    if isBreak m.peek then foldedBreaks start (m.after.length + 1) m.lineBreak.2
    else refuse .doubleQuotedScalar start (.unknownEscape m.peek) m

/-- A character that ends a plain run inside quotes. -/
def endsRun (c : Char) : Bool :=
  c == '\x27' || c == '\x22' || c == '\\' || isBlankOrEnd c

/-- Words and blanks up to the closing quote. -/
def quotedParts (double : Bool) (start : Mark) :
    (fuel : Nat) → Mark → Except Failure (List Char × Mark)
  | 0, m => .ok ([], m)
  | fuel + 1, m => do
    let (run, m) := m.span (!endsRun ·)
    let c := m.peek
    if !double && c == '\x27' && m.peekAt 1 == '\x27' then
      let (others, m) ← quotedParts double start fuel (m.advanceBy 2)
      return (run ++ '\x27' :: others, m)
    else if (double && c == '\x27') || (!double && (c == '\x22' || c == '\\')) then
      let (others, m) ← quotedParts double start fuel m.advance
      return (run ++ c :: others, m)
    else if double && c == '\\' then
      let (escaped, m) ← escape start m
      let (others, m) ← quotedParts double start fuel m
      return (run ++ escaped ++ others, m)
    else if c == (if double then '\x22' else '\x27') then return (run, m)
    else
      let (blanks, m) ← quotedBlanks start m
      let (others, m) ← quotedParts double start fuel m
      return (run ++ blanks ++ others, m)

/-- A quoted scalar with both its quotes. -/
def quoted (double : Bool) (m : Mark) : Except Failure (String × Mark) := do
  let (chars, rest) ← quotedParts double m (m.after.length + 1) m.advance
  return (String.ofList chars, rest.advance)

end ContentCatalog.Yaml.Lexeme
