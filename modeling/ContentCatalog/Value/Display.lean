import ContentCatalog.Value.Basic
import ContentCatalog.Number.Reading

/-!
# Values as texts

Two texts of a value: the inner form, which composite keys are made of, and the
display, which differs from it for texts and calendar values and is used in
messages and for sorting.  A number with too many digits has neither.

* `display_text` : a text displays as itself.
-/

namespace ContentCatalog.Value

open Number (Fault)

/-- What a container's form is written between. -/
inductive Bracket where
  | list
  | tuple
  | set
  | map
  deriving DecidableEq, Repr

/-- The stand-in for a container inside its own form. -/
def Bracket.ellipsis : Bracket → String
  | .list => "[...]"
  | .tuple => "(...)"
  | .set => "set(...)"
  | .map => "\x7b...\x7d"

/-- The form of a container from the forms of its items. -/
def Bracket.enclose (bracket : Bracket) (items : List String) : String :=
  let inside := ", ".intercalate items
  match bracket with
  | .list => "[" ++ inside ++ "]"
  | .tuple => "(" ++ inside ++ (if items.length = 1 then ",)" else ")")
  | .set => if items.isEmpty then "set()" else "\x7b" ++ inside ++ "\x7d"
  | .map => "\x7b" ++ inside ++ "\x7d"

mutual

/-- The inner form of a value inside the given containers. -/
def form (around : List Bracket) : Value → Except Fault String
  | .null => .ok "None"
  | .bool b => .ok (if b then "True" else "False")
  | .int i => Number.writeInteger i
  | .float x => .ok (x.render Double.plainLayout)
  | .text s => .ok (Text.quotedText s)
  | .bytes octets => .ok (String.ofList (Text.quotedBytes octets))
  | .date d => .ok d.form
  | .moment m => .ok m.form
  | .time t => .ok t.form
  | .list items => (forms (.list :: around) items).map Bracket.list.enclose
  | .tuple items => (forms (.tuple :: around) items).map Bracket.tuple.enclose
  | .set items => (forms (.set :: around) items).map Bracket.set.enclose
  | .map entries => (entryForms (.map :: around) entries).map Bracket.map.enclose
  | .foreign kind => .ok kind
  | .cycle levels => .ok ((around[levels - 1]?.map Bracket.ellipsis).getD "...")

/-- The inner forms of the items of a container. -/
def forms (around : List Bracket) : List Value → Except Fault (List String)
  | [] => .ok []
  | item :: items => do
    let first ← form around item
    let others ← forms around items
    return first :: others

/-- The inner forms of the entries of a mapping. -/
def entryForms (around : List Bracket) : List (Value × Value) → Except Fault (List String)
  | [] => .ok []
  | (key, value) :: entries => do
    let keyForm ← form around key
    let valueForm ← form around value
    let others ← entryForms around entries
    return (keyForm ++ ": " ++ valueForm) :: others

end

/-- The display of a value. -/
def display : Value → Except Fault String
  | .text s => .ok s
  | .date d => .ok d.iso
  | .moment m => .ok (m.isoWith " ")
  | .time t => .ok t.iso
  | value => form [] value

/-- A text is displayed as it is. -/
theorem display_text (s : String) : display (.text s) = .ok s := rfl

end ContentCatalog.Value
