import ContentCatalog.Yaml.Lexeme.Quoted

/-!
# Plain scalars

An unquoted scalar runs on over blanks and line breaks until something stops it:
a colon before a blank, a comment, an indicator of a flow collection, a line
with too little indentation, or a document marker.
-/

namespace ContentCatalog.Yaml.Lexeme

/-- An indicator that ends plain scalars inside flow collections. -/
def isFlowIndicator (c : Char) : Bool :=
  c == ',' || c == '?' || c == '[' || c == ']' || c == '\x7b' || c == '\x7d'

/-- A bracket or a comma of a flow collection. -/
def isFlowBracket (c : Char) : Bool :=
  c == ',' || c == '[' || c == ']' || c == '\x7b' || c == '\x7d'

/-- The characters of a plain scalar up to the next blank or what ends it. -/
def plainWord (inFlow : Bool) : List Char → List Char
  | [] => []
  | c :: rest =>
    let next := rest.headD endOfText
    if isBlankOrEnd c || (c == ':' && (isBlankOrEnd next || (inFlow && isFlowBracket next)))
        || (inFlow && isFlowIndicator c) then []
    else c :: plainWord inFlow rest

/-- The spaces and line breaks from here on, as the breaks; nothing if a document
marker comes behind one of them. -/
def plainBreaks : (fuel : Nat) → Mark → Option (List Char) × Mark
  | 0, m => (some [], m)
  | fuel + 1, m =>
    if m.peek == ' ' then plainBreaks fuel m.advance
    else if isBreak m.peek then
      let (first, m) := m.lineBreak
      if m.atDocumentMarker then (none, m)
      else
        let (others, m) := plainBreaks fuel m
        (others.map (first ++ ·), m)
    else (some [], m)

/-- The blanks behind a word: what they become in the text, the place behind
them, and whether a line break was among them.  They become nothing where the
scalar cannot go on. -/
def plainBlanks (m : Mark) : List Char × Mark × Bool :=
  let (spaces, rest) := m.span (· == ' ')
  if isBreak rest.peek then
    let (first, behind) := rest.lineBreak
    if behind.atDocumentMarker then ([], behind, true)
    else
      match plainBreaks (behind.after.length + 1) behind with
      | (none, behind) => ([], behind, true)
      | (some others, behind) => (folded first others, behind, true)
  else (spaces, rest, false)

/-- What reading a plain scalar gives: its text, where its last word stops, the
place behind the blanks that follow, and whether the text or those blanks cross
a line break behind the last word. -/
structure Plain where
  text : List Char
  stop : Mark
  rest : Mark
  breakAtEnd : Bool

/-- The words of a plain scalar from here on, with the blanks before them.
`indent` is the least column of a further line outside flow collections. -/
def plainParts (inFlow : Bool) (indent : Int) :
    (fuel : Nat) → (blanks : List Char) → (last : Plain) → Plain
  | 0, _, last => last
  | fuel + 1, blanks, last =>
    let m := last.rest
    let word := plainWord inFlow m.after
    if m.peek == '#' || word.isEmpty then last
    else
      let stop := m.advanceBy word.length
      let (next, rest, crossed) := plainBlanks stop
      let now : Plain := ⟨last.text ++ blanks ++ word, stop, rest, crossed⟩
      if next.isEmpty || rest.peek == '#' || (!inFlow && (rest.column : Int) < indent) then now
      else plainParts inFlow indent fuel next now

/-- A plain scalar inside a collection at `indent`. -/
def plain (inFlow : Bool) (indent : Int) (m : Mark) : Plain :=
  plainParts inFlow (indent + 1) (m.after.length + 1) [] ⟨[], m, m, false⟩

end ContentCatalog.Yaml.Lexeme
