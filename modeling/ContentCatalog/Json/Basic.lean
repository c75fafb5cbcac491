import ContentCatalog.Value.Display
import ContentCatalog.Text.Base64

/-!
# JSON documents

A JSON document as a tree, and the image that a value has among such trees.  The
image is taken in two passes.  The first gives every mapping keys that can stand
for themselves, which may merge some; the second turns what has no JSON kind of
its own into a text or an array.

* `toValues_eq_map`, `toEntries_eq_map` : arrays and objects are valued part by
  part, and their order is kept.
-/

namespace ContentCatalog

/-- A JSON document.  The members of an object keep their order, and a name may
come twice. -/
inductive Json where
  | null
  | bool (value : Bool)
  | int (value : Int)
  | float (value : Double)
  | text (value : String)
  | array (items : List Json)
  | object (members : List (String × Json))
  deriving Inhabited

namespace Json

/-- Why a value has no image. -/
inductive WriteFault where
  | number (fault : Number.Fault)
  /-- A kind of value that JSON has no form for. -/
  | foreign (kind : String)
  /-- Containers inside each other beyond what the stack holds, or without an end. -/
  | endless
  deriving DecidableEq, Repr

/-- The report of a fault. -/
def WriteFault.message : WriteFault → String
  | .number fault => fault.message
  | .foreign kind => "Object of type " ++ kind ++ " is not JSON serializable"
  | .endless => "maximum recursion depth exceeded"

/-- The display of a value. -/
def displayed (value : Value) : Except WriteFault String :=
  value.display.mapError .number

/-! ### Keys that stand for themselves -/

/-- The key under which a mapping's entry is kept: scalars that JSON has a word
for stay, calendar values become ISO texts, and others become their display. -/
def plainKey : Value → Except WriteFault Value
  | .null => .ok .null
  | .bool b => .ok (.bool b)
  | .int i => .ok (.int i)
  | .float x => .ok (.float x)
  | .text s => .ok (.text s)
  | .date d => .ok (.text d.iso)
  | .moment m => .ok (.text m.iso)
  | .time t => .ok (.text t.iso)
  | key => (displayed key).map .text

mutual

/-- The value with plain keys in all of its mappings. -/
def plain : Value → Except WriteFault Value
  | .map entries => (plainEntries entries).map Value.mapOf
  | .list items => (plainItems items).map .list
  | .tuple items => (plainItems items).map .list
  | .cycle _ => .error .endless
  | value => .ok value

/-- The values with plain keys in all of their mappings. -/
def plainItems : List Value → Except WriteFault (List Value)
  | [] => .ok []
  | item :: items => do
    let first ← plain item
    let others ← plainItems items
    return first :: others

/-- The entries with plain keys, equal ones not merged yet. -/
def plainEntries : List (Value × Value) → Except WriteFault (List (Value × Value))
  | [] => .ok []
  | (key, value) :: entries => do
    let name ← plainKey key
    let first ← plain value
    let others ← plainEntries entries
    return (name, first) :: others

end

/-! ### The image -/

/-- A whole number, unless it has too many digits. -/
def intText (i : Int) : Except WriteFault String :=
  (Number.writeInteger i).mapError .number

/-- The name under which a key is written. -/
def keyText : Value → Except WriteFault String
  | .null => .ok "null"
  | .bool b => .ok (if b then "true" else "false")
  | .int i => intText i
  | .float x => .ok (x.render Double.jsonLayout)
  | .text s => .ok s
  | key => displayed key

/-- Items in the order of their texts; those with the same text keep theirs. -/
def sortedByText {α : Type} (items : List (String × α)) : List α :=
  (items.mergeSort fun a b => decide (a.1 ≤ b.1)).map (·.2)

mutual

/-- The image of a value with plain keys. -/
def image : Value → Except WriteFault Json
  | .null => .ok .null
  | .bool b => .ok (.bool b)
  | .int i => (intText i).map fun _ => .int i
  | .float x => .ok (.float x)
  | .text s => .ok (.text s)
  | .bytes octets => .ok (.text (String.ofList (Text.Base64.encode octets)))
  | .date d => .ok (.text d.iso)
  | .moment m => .ok (.text m.iso)
  | .time t => .ok (.text t.iso)
  | .list items => (images items).map .array
  | .tuple items => (images items).map .array
  | .set items => do
    let texts ← items.mapM displayed
    let members ← images items
    return .array (sortedByText (texts.zip members))
  | .map entries => (imageMembers entries).map .object
  | .foreign kind => .error (.foreign kind)
  | .cycle _ => .error .endless

/-- The images of the items of a container. -/
def images : List Value → Except WriteFault (List Json)
  | [] => .ok []
  | item :: items => do
    let first ← image item
    let others ← images items
    return first :: others

/-- The images of the entries of a mapping. -/
def imageMembers : List (Value × Value) → Except WriteFault (List (String × Json))
  | [] => .ok []
  | (key, value) :: entries => do
    let name ← keyText key
    let first ← image value
    let others ← imageMembers entries
    return (name, first) :: others

end

/-- The JSON document of a value. -/
def ofValue (value : Value) : Except WriteFault Json := do
  image (← plain value)

/-! ### The value of a document -/

mutual

/-- The value of a document. -/
def toValue : Json → Value
  | .null => .null
  | .bool b => .bool b
  | .int i => .int i
  | .float x => .float x
  | .text s => .text s
  | .array items => .list (toValues items)
  | .object members => .map (toEntries members)

/-- The values of the items of an array. -/
def toValues : List Json → List Value
  | [] => []
  | item :: items => toValue item :: toValues items

/-- The entries of an object. -/
def toEntries : List (String × Json) → List (Value × Value)
  | [] => []
  | (name, value) :: members => (.text name, toValue value) :: toEntries members

end

/-- Items become values one by one. -/
theorem toValues_eq_map (items : List Json) : toValues items = items.map toValue := by
  induction items with
  | nil => simp [toValues]
  | cons item items ih => simp [toValues, ih]

/-- And members become entries under texts. -/
theorem toEntries_eq_map (members : List (String × Json)) :
    toEntries members = members.map fun member => (.text member.1, toValue member.2) := by
  induction members with
  | nil => simp [toEntries]
  | cons member members ih => simp [toEntries, ih]

end Json

end ContentCatalog
