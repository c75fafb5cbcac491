import ContentCatalog.Source.Literal
import ContentCatalog.Text.Lines
import ContentCatalog.Text.Word

/-!
# Declared props

A component declares its props in its script, by an exported interface or by
taking the props object apart.  Both forms are recognised by their outer shape
alone: the first header, the braces, and then one member or entry at a time.
What has another shape is passed over.

* `identifier?_append` : an identifier and what follows it are the whole text.
-/

namespace ContentCatalog.Source

open Text

/-- What follows one or more characters of white space. -/
def afterSpace? : List Char → Option (List Char)
  | c :: rest => if isSpace c then some (trimLeft isSpace rest) else none
  | [] => none

/-- What follows the first place where a header stands. -/
def afterFirst? (header? : List Char → Option (List Char)) : List Char → Option (List Char)
  | [] => header? []
  | c :: rest => (header? (c :: rest)).or (afterFirst? header? rest)

/-- An identifier at the front, and what follows it.  It begins with a letter of
ASCII or an underscore. -/
def identifier? : List Char → Option (List Char × List Char)
  | c :: rest =>
    if isAsciiLetter c || c == '_' then
      some (c :: rest.takeWhile isWord, rest.dropWhile isWord)
    else none
  | [] => none

/-! ### The interface -/

/-- What follows the header of the props interface, up to its opening brace. -/
def interfaceHeader? (text : List Char) : Option (List Char) := do
  let text ← afterStart? "export".toList text
  let text ← afterSpace? text
  let text ← afterStart? "interface".toList text
  let text ← afterSpace? text
  let text ← afterStart? "Props".toList text
  afterStart? ['\x7b'] (trimLeft isSpace text)

/-- The member is a comment or the continuation of one. -/
def isComment (member : List Char) : Bool :=
  startsWith ['/', '/'] member || startsWith ['/', '*'] member || startsWith ['*'] member

/-- The members of an interface: lines are cut at semicolons. -/
def interfaceMembers (body : List Char) : List (List Char) :=
  let chunks := (lineList body).flatMap (segments ';')
  (chunks.map strip).filter fun member => !member.isEmpty && !isComment member

/-- A type annotation without the comma that may follow it.  A lone comma is an
annotation. -/
def typeTextOf (text : List Char) : List Char :=
  match beforeEnd? [','] text with
  | some [] => text
  | some before => trimRight isSpace before
  | none => text

/-- The field that a member declares. -/
def interfaceField? (member : List Char) : Option Field := do
  let (key, rest) ← identifier? member
  let rest := trimLeft isSpace rest
  let optional := startsWith ['?'] rest
  let rest ← afterStart? [':'] (trimLeft isSpace ((afterStart? ['?'] rest).getD rest))
  let typeText := trimLeft isSpace rest
  if typeText.isEmpty then none
  else
    let rawType := typeTextOf typeText
    some {
      key := String.ofList key
      type := (typeNamed rawType).name
      required := !optional
      rawType := some (String.ofList rawType)
      source := some FieldSource.component.name }

/-- The fields that the first props interface of a script declares. -/
def interfaceFields (script : List Char) : List Field :=
  match (afterFirst? interfaceHeader? script).bind (cut? ['\x7d']) with
  | some (body, _) => (interfaceMembers body).filterMap interfaceField?
  | none => []

/-! ### Taking the props apart -/

/-- What follows the header of a declaration that takes an object apart. -/
def destructuringHeader? (text : List Char) : Option (List Char) := do
  let text ← afterStart? "const".toList text
  afterStart? ['\x7b'] (trimLeft isSpace text)

/-- The text continues with the assignment of the props object. -/
def assignsProps (text : List Char) : Bool :=
  match trimLeft isSpace text with
  | '=' :: rest => startsWith "Astro.props".toList (trimLeft isSpace rest)
  | _ => false

/-- The text up to the first closing brace behind which the props object is
assigned. -/
def untilProps? : List Char → Option (List Char)
  | [] => none
  | c :: rest =>
    if c = '\x7d' ∧ assignsProps rest then some [] else (untilProps? rest).map (c :: ·)

/-- The entry of a key, and the text of its default if it has one. -/
def destructuringEntry? (entry : List Char) : Option (List Char × Option (List Char)) := do
  let (key, rest) ← identifier? entry
  match trimLeft isSpace rest with
  | [] => some (key, none)
  | '=' :: rest =>
    match trimLeft isSpace rest with
    | [] => none
    | default => some (key, some default)
  | _ => none

/-- The field that an entry declares. -/
def destructuringField (key : List Char) (default : Option (List Char)) :
    Except Number.Fault Field := do
  match default with
  | none =>
    return {
      key := String.ofList key
      type := FieldType.unknown.name
      required := false
      source := some FieldSource.component.name }
  | some text =>
    let (value, type) ← literal text
    return {
      key := String.ofList key
      type := type.name
      required := false
      default := some value
      source := some FieldSource.component.name }

/-- The fields that a script declares by taking the props apart.  Only the first
declaration that takes an object apart is looked at. -/
def destructuredFields (script : List Char) : Except Number.Fault (List Field) :=
  match (afterFirst? destructuringHeader? script).bind untilProps? with
  | some body =>
    let entries := ((segments ',' body).map strip).filterMap destructuringEntry?
    entries.mapM fun entry => destructuringField entry.1 entry.2
  | none => .ok []

/-- An identifier and what stands behind it are the text. -/
theorem identifier?_append {text name rest : List Char} (h : identifier? text = some (name, rest)) :
    name ++ rest = text := by
  cases text with
  | nil => simp [identifier?] at h
  | cons c text =>
    rw [identifier?] at h
    split at h
    · simp only [Option.some.injEq, Prod.mk.injEq] at h
      obtain ⟨rfl, rfl⟩ := h
      simp [List.takeWhile_append_dropWhile]
    · cases h

end ContentCatalog.Source
