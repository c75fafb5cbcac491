import ContentCatalog.Json.Calls

/-!
# Printing JSON

The text of a document: one item or member on a line, two spaces for each level,
and a line feed at the end.  Empty containers stay on their line.  Characters
stand for themselves but for the quote, the backslash and the controls.  A value has
a text as long as the calls that take it apart fit the stack of the interpreter.

* `writeWithin_eq_ok_iff` : which values have a text.
-/

namespace ContentCatalog.Json

/-- One character inside quotes. -/
def escaped (c : Char) : List Char :=
  if c == '\x22' then ['\\', '\x22']
  else if c == '\\' then ['\\', '\\']
  else if c == '\n' then ['\\', 'n']
  else if c == '\r' then ['\\', 'r']
  else if c == '\t' then ['\\', 't']
  else if c == '\x08' then ['\\', 'b']
  else if c == '\x0c' then ['\\', 'f']
  else if c.toNat < 32 then '\\' :: 'u' :: Text.hexDigits 4 c.toNat
  else [c]

/-- A text in quotes. -/
def quoted (text : String) : String :=
  String.ofList ('\x22' :: text.toList.flatMap escaped ++ ['\x22'])

/-- A line break and the spaces of a level. -/
def newLine (level : Nat) : String :=
  "\n" ++ String.ofList (List.replicate (2 * level) ' ')

/-- The lines of a container between its brackets. -/
def enclosed (level : Nat) (opening closing : String) (lines : List String) : String :=
  if lines.isEmpty then opening ++ closing
  else
    opening ++ newLine (level + 1) ++ ("," ++ newLine (level + 1)).intercalate lines
      ++ newLine level ++ closing

mutual

/-- The text of a document at a level. -/
def renderAt (level : Nat) : Json → String
  | .null => "null"
  | .bool b => if b then "true" else "false"
  | .int i => toString i
  | .float x => x.render Double.jsonLayout
  | .text s => quoted s
  | .array items => enclosed level "[" "]" (renderItems (level + 1) items)
  | .object members => enclosed level "\x7b" "\x7d" (renderMembers (level + 1) members)

/-- The texts of the items of an array. -/
def renderItems (level : Nat) : List Json → List String
  | [] => []
  | item :: items => renderAt level item :: renderItems level items

/-- The texts of the members of an object. -/
def renderMembers (level : Nat) : List (String × Json) → List String
  | [] => []
  | (name, value) :: members =>
    (quoted name ++ ": " ++ renderAt level value) :: renderMembers level members

end

/-- The text of a document. -/
def render (document : Json) : String :=
  renderAt 0 document ++ "\n"

/-- The text of a value where so many more calls can be under way. -/
def writeWithin (room : Nat) (value : Value) : Except WriteFault String :=
  if room < writeCalls value then .error .endless
  else (ofValue value).map render

/-- **A value has a text** if it has an image and the calls for it find room. -/
theorem writeWithin_eq_ok_iff {room : Nat} {value : Value} {text : String} :
    writeWithin room value = .ok text ↔
      writeCalls value ≤ room ∧ ∃ document, ofValue value = .ok document ∧
        render document = text := by
  unfold writeWithin
  split
  · next hroom => simp [Nat.not_le.mpr hroom]
  · next hroom => cases ofValue value <;> simp [Except.map, Nat.not_lt.mp hroom]

/-- The text of a value, written by the program. -/
def write (value : Value) : Except WriteFault String :=
  writeWithin (stackLimit - callsBefore) value

end ContentCatalog.Json
