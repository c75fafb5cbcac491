import ContentCatalog.Yaml.Lexeme.Block
import ContentCatalog.Yaml.Lexeme.Plain

/-!
# From text to tokens

The token stream of a document.  Most tokens are read off the text as they
stand.  Two kinds are not: the ends of block collections follow from the
indentation, and a key without its question mark is recognised only when the
colon behind it is met.  So a token that might begin such a key is held back
until that is decided, and the key token, with the start of a block mapping if
there is one, is put in front of it.

A stream stops at the first thing that cannot be read; the tokens before it are
still there, because their user may object to one of them first.
-/

namespace ContentCatalog.Yaml.Layout

/-- A place where a key without a question mark may have begun. -/
structure PossibleKey where
  /-- The number of the token, counted from the start of the document. -/
  number : Nat
  /-- In block context a line that starts at the indentation must be a key. -/
  required : Bool
  mark : Mark

/-- The state between two tokens. -/
structure State where
  mark : Mark
  /-- The tokens that are held back, first to last. -/
  held : List Token
  /-- The number of tokens that were given out. -/
  given : Nat
  /-- The number of open flow collections. -/
  depth : Nat
  /-- The column of the innermost block collection, and of those around it. -/
  indent : Int
  outer : List Int
  keyAllowed : Bool
  /-- The possible key of each open flow collection, innermost first, and of the
  block context. -/
  keys : List (Option PossibleKey)
  finished : Bool

/-- The state at the start of a text. -/
def initial (text : List Char) : State :=
  let m := Mark.start text
  ⟨m, [Token.at .streamStart m], 0, 0, -1, [], true, [none], false⟩

/-- Hold back one more token. -/
def State.hold (s : State) (token : Token) : State :=
  { s with held := s.held ++ [token] }

/-- Hold back a token that covers the text from the current place to `stop`, and
go on at `rest`. -/
def State.read (s : State) (content : Token.Content) (stop rest : Mark) : State :=
  { s with held := s.held ++ [⟨content, s.mark, stop⟩], mark := rest }

/-- Inside a flow collection. -/
def State.inFlow (s : State) : Bool :=
  s.depth != 0

/-- The possible key of the innermost collection. -/
def State.currentKey (s : State) : Option PossibleKey :=
  s.keys.head?.getD none

/-- Replace the possible key of the innermost collection. -/
def State.setKey (s : State) (key : Option PossibleKey) : State :=
  { s with keys := key :: s.keys.tail }

/-- A possible key lies on an earlier line or too far back. -/
def PossibleKey.isStale (key : PossibleKey) (m : Mark) : Bool :=
  key.mark.line != m.line || 1024 < m.index - key.mark.index

/-- A required key turned out to be none. -/
def missingColon {α : Type} (key : PossibleKey) (m : Mark) : Except Failure α :=
  refuse .simpleKey key.mark .missingColon m

/-- Give up the possible keys that can no longer become keys. -/
def State.dropStale (s : State) : Except Failure State := do
  let keys ← s.keys.mapM fun
    | none => .ok none
    | some key =>
      if key.isStale s.mark then
        if key.required then missingColon key s.mark else .ok none
      else .ok (some key)
  return { s with keys := keys }

/-- Give up the possible key of the innermost collection. -/
def State.dropKey (s : State) : Except Failure State :=
  match s.currentKey with
  | some key => if key.required then missingColon key s.mark else .ok (s.setKey none)
  | none => .ok s

/-- The next token may begin a key. -/
def State.saveKey (s : State) : Except Failure State := do
  if s.keyAllowed then
    let required := !s.inFlow && s.indent == s.mark.column
    let s ← s.dropKey
    return s.setKey (some ⟨s.given + s.held.length, required, s.mark⟩)
  else return s

/-- Close the block collections to the right of a column. -/
def closeBlocks (column : Int) : (indent : Int) → (outer : List Int) → List Token → Mark →
    Int × List Int × List Token
  | indent, [], held, _ => (indent, [], held)
  | indent, next :: outer, held, m =>
    if column < indent then
      closeBlocks column next outer (held ++ [Token.at .blockEnd m]) m
    else (indent, next :: outer, held)

/-- Close the block collections to the right of a column, outside flow
collections. -/
def State.unwind (s : State) (column : Int) : State :=
  if s.inFlow then s
  else
    let (indent, outer, held) := closeBlocks column s.indent s.outer s.held s.mark
    { s with indent := indent, outer := outer, held := held }

/-- The column lies to the right of the innermost block collection. -/
def State.opensAt (s : State) (column : Nat) : Bool :=
  s.indent < column

/-- Open a block collection at a column. -/
def State.open (s : State) (column : Nat) : State :=
  { s with outer := s.indent :: s.outer, indent := column }

/-- Open a block collection here, if the place lies to the right of the one
around it. -/
def State.openHere (s : State) (content : Token.Content) : State :=
  if s.opensAt s.mark.column then
    (s.open s.mark.column).hold (Token.at content s.mark)
  else s

/-- Put tokens in front of the held token with a number. -/
def State.insert (s : State) (number : Nat) (tokens : List Token) : State :=
  let place := number - s.given
  { s with held := s.held.take place ++ tokens ++ s.held.drop place }

/-- An indicator of the given width. -/
def State.indicator (s : State) (content : Token.Content) (width : Nat) : State :=
  let stop := s.mark.advanceBy width
  s.read content stop stop

/-- The end of the text. -/
def streamEnd (s : State) : Except Failure State := do
  let s ← (s.unwind (-1)).dropKey
  let s := s.hold (Token.at .streamEnd s.mark)
  return { s with keyAllowed := false, keys := s.keys.map fun _ => none, finished := true }

/-- A directive. -/
def directive (s : State) : Except Failure State := do
  let s ← (s.unwind (-1)).dropKey
  let (found, stop, rest) ← Lexeme.directive s.mark
  return { s.read (.directive found) stop rest with keyAllowed := false }

/-- The start or the end of a document. -/
def documentMarker (s : State) (content : Token.Content) : Except Failure State := do
  let s ← (s.unwind (-1)).dropKey
  return { s.indicator content 3 with keyAllowed := false }

/-- The start of a flow collection, which may begin a key. -/
def flowStart (s : State) (content : Token.Content) : Except Failure State := do
  let s ← s.saveKey
  return { s.indicator content 1 with
    depth := s.depth + 1, keys := none :: s.keys, keyAllowed := true }

/-- The end of a flow collection. -/
def flowEnd (s : State) (content : Token.Content) : Except Failure State := do
  let s ← s.dropKey
  let outerKeys := if s.keys.length ≤ 1 then s.keys else s.keys.tail
  return { s.indicator content 1 with
    depth := s.depth - 1, keys := outerKeys, keyAllowed := false }

/-- The comma of a flow collection. -/
def flowEntry (s : State) : Except Failure State := do
  let s ← s.dropKey
  return { s.indicator .flowEntry 1 with keyAllowed := true }

/-- The hyphen of a block sequence. -/
def blockEntry (s : State) : Except Failure State := do
  if !s.inFlow && !s.keyAllowed then refuseHere .entryNotAllowed s.mark
  else
    let s := if s.inFlow then s else s.openHere .blockSequenceStart
    let s ← { s with keyAllowed := true }.dropKey
    return s.indicator .blockEntry 1

/-- The question mark of a key. -/
def keyMark (s : State) : Except Failure State := do
  if !s.inFlow && !s.keyAllowed then refuseHere .keyNotAllowed s.mark
  else
    let s := if s.inFlow then s else s.openHere .blockMappingStart
    let s ← { s with keyAllowed := !s.inFlow }.dropKey
    return s.indicator .key 1

/-- The colon before a value.  If a possible key is waiting, it becomes a key. -/
def valueMark (s : State) : Except Failure State := do
  match s.currentKey with
  | some key =>
    let s := s.setKey none
    let opens := !s.inFlow && s.opensAt key.mark.column
    let s := if opens then s.open key.mark.column else s
    let start := if opens then [Token.at .blockMappingStart key.mark] else []
    let s := s.insert key.number (start ++ [Token.at .key key.mark])
    return { s with keyAllowed := false }.indicator .value 1
  | none =>
    if !s.inFlow && !s.keyAllowed then refuseHere .valueNotAllowed s.mark
    else
      let s := if s.inFlow then s else s.openHere .blockMappingStart
      let s ← { s with keyAllowed := !s.inFlow }.dropKey
      return s.indicator .value 1

/-- An alias or an anchor. -/
def named (s : State) (activity : Activity) (content : String → Token.Content) :
    Except Failure State := do
  let s ← s.saveKey
  let (name, rest) ← Lexeme.anchorName activity s.mark
  return { s.read (content name) rest rest with keyAllowed := false }

/-- A tag. -/
def tag (s : State) : Except Failure State := do
  let s ← s.saveKey
  let ((handle, suffix), rest) ← Lexeme.tag s.mark
  return { s.read (.tag handle suffix) rest rest with keyAllowed := false }

/-- A block scalar, behind which a key may follow. -/
def blockScalar (s : State) (isFolded : Bool) : Except Failure State := do
  let s ← { s with keyAllowed := true }.dropKey
  let (text, rest) ← Lexeme.block isFolded s.indent s.mark
  return s.read (.scalar text false) rest rest

/-- A quoted scalar. -/
def quotedScalar (s : State) (double : Bool) : Except Failure State := do
  let s ← s.saveKey
  let (text, rest) ← Lexeme.quoted double s.mark
  return { s.read (.scalar text false) rest rest with keyAllowed := false }

/-- A plain scalar; if it ends with a line break a key may follow. -/
def plainScalar (s : State) : Except Failure State := do
  let s ← s.saveKey
  let plain := Lexeme.plain s.inFlow s.indent s.mark
  return { s.read (.scalar (String.ofList plain.text) true) plain.stop plain.rest with
    keyAllowed := plain.breakAtEnd }

/-- Pass spaces, comments and line breaks.  In block context a key may follow a
line break. -/
def skipToToken (inFlow : Bool) : (fuel : Nat) → (keyAllowed : Bool) → Mark → Bool × Mark
  | 0, keyAllowed, m => (keyAllowed, m)
  | fuel + 1, keyAllowed, m =>
    let m := m.skipSpaces.skipComment
    if isBreak m.peek then skipToToken inFlow fuel (keyAllowed || !inFlow) m.lineBreak.2
    else (keyAllowed, m)

/-- A plain scalar may start here. -/
def startsPlain (s : State) : Bool :=
  let c := s.mark.peek
  let next := s.mark.peekAt 1
  (!isBlankOrEnd c && !"-?:,[]\x7b\x7d#&*!|>\x27\"%@\x60".toList.contains c)
    || (!isBlankOrEnd next && (c == '-' || (!s.inFlow && (c == '?' || c == ':'))))

/-- Read on until at least one more token is held. -/
def fetch (s : State) : Except Failure State := do
  let m := if s.mark.index == 0 && s.mark.peek == '\uFEFF' then s.mark.advance else s.mark
  let (keyAllowed, m) := skipToToken s.inFlow (m.after.length + 1) s.keyAllowed m
  let s ← { s with mark := m, keyAllowed := keyAllowed }.dropStale
  let s := s.unwind m.column
  let spaced := isBlankOrEnd (m.peekAt 1)
  match m.peek with
  | '\x00' => streamEnd s
  | c =>
    if c == '%' && m.column == 0 then directive s
    else if c == '-' && m.column == 0 && m.atDocumentMarker then documentMarker s .documentStart
    else if c == '.' && m.column == 0 && m.atDocumentMarker then documentMarker s .documentEnd
    else if c == '[' then flowStart s .flowSequenceStart
    else if c == '\x7b' then flowStart s .flowMappingStart
    else if c == ']' then flowEnd s .flowSequenceEnd
    else if c == '\x7d' then flowEnd s .flowMappingEnd
    else if c == ',' then flowEntry s
    else if c == '-' && spaced then blockEntry s
    else if c == '?' && (s.inFlow || spaced) then keyMark s
    else if c == ':' && (s.inFlow || spaced) then valueMark s
    else if c == '*' then named s .alias .alias
    else if c == '&' then named s .anchor .anchor
    else if c == '!' then tag s
    else if c == '|' && !s.inFlow then blockScalar s false
    else if c == '>' && !s.inFlow then blockScalar s true
    else if c == '\x27' then quotedScalar s false
    else if c == '\x22' then quotedScalar s true
    else if startsPlain s then plainScalar s
    else
      .error (.fault (.marked (some (.nextToken, none)) (.strayCharacter c) m))

/-- The number of the first token that is still a possible key. -/
def State.firstKey? (s : State) : Option Nat :=
  (s.keys.filterMap fun key => key.map (·.number)).min?

/-- Give out the held tokens as far as they are decided, reading on whenever
they are not. -/
def release : (fuel : Nat) → State → Stream Token Failure
  | 0, _ => ⟨[], none⟩
  | fuel + 1, s =>
    let readOn (s : State) : Stream Token Failure :=
      match fetch s with
      | .ok s => release fuel s
      | .error failure => ⟨[], some failure⟩
    let giveOut (token : Token) (held : List Token) (s : State) : Stream Token Failure :=
      let stream := release fuel { s with held := held, given := s.given + 1 }
      { stream with items := token :: stream.items }
    match s.held with
    | [] => if s.finished then ⟨[], none⟩ else readOn s
    | token :: held =>
      if s.finished then giveOut token held s
      else
        match s.dropStale with
        | .error failure => ⟨[], some failure⟩
        | .ok s => if s.firstKey? == some s.given then readOn s else giveOut token held s

/-- The tokens of a text.  No character makes more than a few of them, which
bounds the work. -/
def tokens (text : List Char) : Stream Token Failure :=
  release (10 * text.length + 20) (initial text)

end ContentCatalog.Yaml.Layout
