import ContentCatalog.Disk.Text
import ContentCatalog.Yaml.Document

/-!
# Settings

What a project says about its own scan, read from a YAML file at its root.  A
value of an unfit kind counts as if it were not there; only a file that is no
mapping, or that cannot be read at all, is a failure.
-/

namespace ContentCatalog

/-- Where one stands: the current folder, one's home, and the homes of others by
their names. -/
structure Surroundings where
  here : Place
  home : Place
  homes : List (String × Place) := []

namespace Surroundings

/-- The place with the home that its first name stands for, if it begins with a
tilde. -/
def expand (around : Surroundings) (place : Place) : Except Failure Place :=
  match place.anchor, place.parts with
  | .relative, first :: rest =>
    if first.front == '~' && first != "" then
      if first = "~" then .ok { around.home with parts := around.home.parts ++ rest }
      else
        match Dictionary.lookup? (first.drop 1).toString around.homes with
        | some home => .ok { home with parts := home.parts ++ rest }
        | none => .error .unknownHome
    else .ok place
  | _, _ => .ok place

/-- The absolute place without double dots. -/
def resolve (around : Surroundings) (place : Place) : Except Failure Place :=
  if (around.here.join place).holdsNull then .error (.disk .nullByte)
  else .ok (Place.resolve around.here place)

/-- The absolute place that a path names, a tilde expanded. -/
def locate (around : Surroundings) (path : String) : Except Failure Place := do
  around.resolve (← around.expand (Place.ofText path))

end Surroundings

/-- What happens to a file that cannot be decoded. -/
inductive Policy where
  | abort
  | report
  deriving DecidableEq, Repr

/-- The name of a policy. -/
def Policy.name : Policy → String
  | .abort => "abort"
  | .report => "report"

/-- The settings of a scan. -/
structure Settings where
  root : Place
  outFolder : String := ".frontmatter"
  excluded : List String := []
  verify : Bool := false
  policy : Policy := .abort

namespace Settings

/-- The place that results are written to.  An absolute one stays as it is given. -/
def outPlace (around : Surroundings) (settings : Settings) : Except Failure Place := do
  let out ← around.expand (Place.ofText settings.outFolder)
  if out.isAbsolute then return out else around.resolve (settings.root.join out)

/-- The display of a value. -/
def displayed (value : Value) : Except Failure String :=
  value.display.mapError .number

/-- The text that a setting gives: texts and numbers have one. -/
def textOf : Value → Except Failure (Option String)
  | .text s => return some s
  | .int i => return some (← displayed (.int i))
  | .float x => return some (← displayed (.float x))
  | _ => return none

/-- The trimmed text in lower case. -/
def word (text : String) : String :=
  String.ofList (Text.lower (Text.strip text.toList))

/-- The truth value that a setting gives; nothing if it gives none. -/
def truthOf? : Value → Option Bool
  | .bool b => some b
  | .text s =>
    if ["true", "yes", "1"].contains (word s) then some true
    else if ["false", "no", "0"].contains (word s) then some false
    else none
  | _ => none

/-- The texts of those items that are texts, numbers or truth values. -/
def itemTexts : List Value → Except Failure (List String)
  | [] => .ok []
  | item :: items => do
    let text ←
      match item with
      | .bool b => pure (some (← displayed (.bool b)))
      | item => textOf item
    let others ← itemTexts items
    return text.toList ++ others

/-- The list of texts that a setting gives: one text, or a sequence.  A sequence
of bytes is one of numbers. -/
def textsOf : Value → Except Failure (List String)
  | .text s => .ok [s]
  | .list items => itemTexts items
  | .tuple items => itemTexts items
  | .bytes octets => .ok (octets.map fun octet => toString octet.toNat)
  | _ => .ok []

/-- The policy that a setting gives. -/
def policyOf? (text : String) : Option Policy :=
  [Policy.abort, .report].find? fun policy => policy.name == word text

/-- The settings that the entries of a mapping give. -/
def ofEntries (root : Place) (entries : List (Value × Value)) : Except Failure Settings := do
  let entry (name : String) : Value := (Value.member? name entries).getD .null
  let outFolder ← textOf (entry "out_dir")
  let excluded ← textsOf (entry "exclude_paths")
  let policy ← textOf (entry "on_decode_error")
  let plain : Settings := { root := root }
  return {
    plain with
    outFolder := (outFolder.filter (· != "")).getD plain.outFolder
    excluded := excluded
    verify := (truthOf? (entry "verify_components")).getD false
    policy := (policy.bind policyOf?).getD plain.policy }

/-- The file with the settings for a place, which is the file itself or the
project's root. -/
def fileFor (around : Surroundings) (disk : Tree) (place : Place) : Except Failure Place := do
  let place := around.here.join (← around.expand place)
  let isRoot ← (Disk.isFolder disk place).mapError .disk
  around.resolve (if isRoot then place.child settingsFile else place)

/-- The value of the settings in a text; a blank text has no entries. -/
def decode (file : String) (chars : List Char) : Except Failure Value :=
  if chars.all Text.isSpace then .ok (.map [])
  else
    match Yaml.load .decoded chars with
    | .ok .null => .ok (.map [])
    | .ok value => .ok value
    | .error (.fault fault) => .error (.settingsText file fault)
    | .error (.defect cause) => .error (.defect cause)

/-- The settings for a place, which is a project's root or a file of settings.
Without the file everything is as by default. -/
def load (around : Surroundings) (disk : Tree) (place : Place) : Except Failure Settings := do
  let file ← fileFor around disk place
  let root := file.parent
  if !(← (Disk.present disk file).mapError .disk) then return { root := root }
  else
    match ← decode file.name (← Disk.readText disk file) with
    | .map entries => ofEntries root entries
    | _ => throw .settingsShape

end Settings

end ContentCatalog
