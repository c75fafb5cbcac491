import ContentCatalog.Yaml.Token
import ContentCatalog.Yaml.Fault

/-!
# Directives, anchors and tags

The lexemes that introduce documents and describe nodes.  Every reader starts
at a place and gives what it read together with the place behind it.
-/

namespace ContentCatalog.Yaml

/-- Report a problem met during an activity that began at `start`. -/
def refuse {α : Type} (activity : Activity) (start : Mark) (problem : Problem) (m : Mark) :
    Except Failure α :=
  .error (.fault (.marked (some (activity, some start)) problem m))

/-- Report a problem that needs no activity to be understood. -/
def refuseHere {α : Type} (problem : Problem) (m : Mark) : Except Failure α :=
  .error (.fault (.marked none problem m))

namespace Lexeme

/-- A character of names: an ASCII letter or digit, a hyphen or an underscore. -/
def isNameChar (c : Char) : Bool :=
  ('0' ≤ c && c ≤ '9') || ('A' ≤ c && c ≤ 'Z') || ('a' ≤ c && c ≤ 'z') || c == '-' || c == '_'

/-- A hexadecimal digit. -/
def isHexDigit (c : Char) : Bool :=
  ('0' ≤ c && c ≤ '9') || ('A' ≤ c && c ≤ 'F') || ('a' ≤ c && c ≤ 'f')

/-- The number that hexadecimal digits write. -/
def hexValue (digits : List Char) : Nat :=
  Number.wholeOfDigits 16 (digits.filterMap (Number.digitIn? 16))

/-- A character that a tag's address may hold, a percent sign included. -/
def isUriChar (c : Char) : Bool :=
  ('0' ≤ c && c ≤ '9') || ('A' ≤ c && c ≤ 'Z') || ('a' ≤ c && c ≤ 'z')
    || "-;/?:@&=+$,_.!~*\x27()[]%".toList.contains c

/-- The escaped bytes that begin here, at most so many, last byte first. -/
def escapedBytes (activity : Activity) (start : Mark) :
    (fuel : Nat) → (bytes : List UInt8) → Mark → Except Failure (List UInt8 × Mark)
  | 0, bytes, m => .ok (bytes, m)
  | fuel + 1, bytes, m =>
    if m.peek == '%' then
      let m := m.advance
      match [m.peek, m.peekAt 1].find? (!isHexDigit ·) with
      | some found => refuse activity start (.noEscapedByte found) m
      | none =>
        let byte := UInt8.ofNat (hexValue [m.peek, m.peekAt 1])
        escapedBytes activity start fuel (byte :: bytes) (m.advanceBy 2)
    else .ok (bytes, m)

/-- The characters that a run of escaped bytes stands for. -/
def escapedRun (activity : Activity) (start m : Mark) : Except Failure (List Char × Mark) := do
  let (bytes, rest) ← escapedBytes activity start (m.after.length + 1) [] m
  match Text.Utf8.decode bytes.reverse with
  | .ok chars => return (chars, rest)
  | .error fault => refuse activity start (.badEscapedBytes fault) m

/-- The parts of an address: plain runs and escaped runs in turn. -/
def uriParts (activity : Activity) (start : Mark) :
    (fuel : Nat) → Mark → Except Failure (List Char × Mark)
  | 0, m => .ok ([], m)
  | fuel + 1, m => do
    let (plain, m) := m.span fun c => isUriChar c && c != '%'
    if m.peek == '%' then
      let (escaped, m) ← escapedRun activity start m
      let (others, m) ← uriParts activity start fuel m
      return (plain ++ escaped ++ others, m)
    else return (plain, m)

/-- The address of a tag.  `escapes` is what is being read while bytes are
unescaped, `whole` while the address as a whole is read. -/
def uri (escapes whole : Activity) (start m : Mark) : Except Failure (String × Mark) := do
  let (chars, rest) ← uriParts escapes start (m.after.length + 1) m
  if rest.index == m.index then refuse whole start (.noUri rest.peek) rest
  else return (String.ofList chars, rest)

/-- The handle of a tag: one exclamation mark, or a name between two. -/
def handle (activity : Activity) (start m : Mark) : Except Failure (String × Mark) :=
  if m.peek != '!' then refuse activity start (.noBang m.peek) m
  else
    let behind := m.advance
    if behind.peek == ' ' then .ok ("!", behind)
    else
      let (name, rest) := behind.span isNameChar
      if rest.peek != '!' then refuse activity start (.noBang rest.peek) rest
      else .ok (String.ofList ('!' :: name ++ ['!']), rest.advance)

/-- An anchor or an alias: its indicator and its name. -/
def anchorName (activity : Activity) (m : Mark) : Except Failure (String × Mark) :=
  let behind := m.advance
  let (name, rest) := behind.span isNameChar
  if name.isEmpty then refuse activity m (.noName behind.peek) behind
  else if isBlankOrEnd rest.peek || "?:,]\x7d%@\x60".toList.contains rest.peek then
    .ok (String.ofList name, rest)
  else refuse activity m (.noName rest.peek) rest

/-- The text from the exclamation mark up to the next blank has another
exclamation mark, so that it starts with a named handle. -/
def hasNamedHandle (m : Mark) : Bool :=
  let word := m.advance.after.takeWhile fun c => !endsWord c
  word.contains '!'

/-- A tag: verbatim between angle brackets, the lone exclamation mark, or a
handle with a suffix. -/
def tag (m : Mark) : Except Failure ((Option String × String) × Mark) := do
  let (parts, rest) ←
    if m.peekAt 1 == '<' then do
      let (suffix, rest) ← uri .tag .tagUri m (m.advanceBy 2)
      if rest.peek != '>' then refuse .tagUri m (.noAngle rest.peek) rest
      else pure ((none, suffix), rest.advance)
    else if isBlankOrEnd (m.peekAt 1) then pure ((none, "!"), m.advance)
    else do
      let (name, rest) ←
        if hasNamedHandle m then handle .tag m m else pure ("!", m.advance)
      let (suffix, rest) ← uri .tag .tagUri m rest
      pure ((some name, suffix), rest)
  if endsWord rest.peek then return (parts, rest)
  else refuse .tag m (.noSpace rest.peek) rest

/-- A number of a version directive. -/
def versionNumber (start m : Mark) : Except Failure (Int × Mark) := do
  let (digits, rest) := m.span fun c => '0' ≤ c && c ≤ '9'
  if digits.isEmpty then refuse .directive start (.noDigit m.peek) m
  else
    match Number.readInteger 10 digits with
    | .ok n => return (n, rest)
    | .error fault => .error (.defect (.number fault))

/-- The two numbers of a version directive. -/
def version (start m : Mark) : Except Failure (Directive × Mark) := do
  let (major, rest) ← versionNumber start m.skipSpaces
  if rest.peek != '.' then refuse .directive start (.noDot rest.peek) rest
  else
    let (minor, rest) ← versionNumber start rest.advance
    if endsWord rest.peek then return (.version major minor, rest)
    else refuse .directive start (.noVersionEnd rest.peek) rest

/-- The handle and the expansion of a tag directive. -/
def tagDirective (start m : Mark) : Except Failure (Directive × Mark) := do
  let (name, rest) ← handle .directive start m.skipSpaces
  if rest.peek != ' ' then refuse .directive start (.noSpace rest.peek) rest
  else
    let (expansion, rest) ← uri .directive .directiveUri start rest.skipSpaces
    if endsWord rest.peek then return (.handle name expansion, rest)
    else refuse .directive start (.noSpace rest.peek) rest

/-- What may stand behind a directive or a block header: spaces, a comment and
the line break, which is passed. -/
def restOfLine (activity : Activity) (start m : Mark) : Except Failure Mark :=
  let rest := m.skipSpaces.skipComment
  if endsContent rest.peek then .ok rest.lineBreak.2
  else refuse activity start (.noLineEnd rest.peek) rest

/-- A directive.  The second place is where the directive itself stops, the
third is behind its line. -/
def directive (m : Mark) : Except Failure (Directive × Mark × Mark) := do
  let behind := m.advance
  let (name, rest) := behind.span isNameChar
  if name.isEmpty then refuse .directive m (.noName behind.peek) behind
  else if !endsWord rest.peek then refuse .directive m (.noName rest.peek) rest
  else
    let (found, stop, rest) ←
      match String.ofList name with
      | "YAML" => (version m rest).map fun (found, stop) => (found, stop, stop)
      | "TAG" => (tagDirective m rest).map fun (found, stop) => (found, stop, stop)
      | other => pure (.other other, rest, rest.skip fun c => !isBreak c)
    return (found, stop, ← restOfLine .directive m rest)

end Lexeme

end ContentCatalog.Yaml
