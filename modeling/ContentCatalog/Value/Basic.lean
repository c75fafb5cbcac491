import ContentCatalog.Calendar.Moment
import ContentCatalog.Dictionary

/-!
# Document values

What a decoded document consists of.  One type serves YAML documents, persisted
JSON texts and the defaults of declared props.  A container that holds itself is
cut at the inner occurrence, which then only says how far up the container is.

* `sameKey` is the comparison of mapping keys: numbers are equal across their
  kinds, truth values count as zero and one.
-/

namespace ContentCatalog

/-- A decoded value. -/
inductive Value where
  | null
  | bool (value : Bool)
  | int (value : Int)
  | float (value : Double)
  | text (value : String)
  | bytes (value : List UInt8)
  | date (value : Calendar.Date)
  | moment (value : Calendar.Moment)
  | time (value : Calendar.TimeOfDay)
  | list (items : List Value)
  | tuple (items : List Value)
  | set (items : List Value)
  | map (entries : List (Value × Value))
  /-- A value of a kind that no document has, known by its kind's name. -/
  | foreign (kind : String)
  /-- A container that encloses this place, so many containers up. -/
  | cycle (levels : Nat)
  deriving Inhabited

namespace Value

/-- Truth values as the numbers that they equal. -/
def ofBool (b : Bool) : Int :=
  if b then 1 else 0

mutual

/-- The values are the same mapping key. -/
def sameKey : Value → Value → Bool
  | .null, .null => true
  | .bool a, .bool b => a == b
  | .bool a, .int b => ofBool a == b
  | .int a, .bool b => a == ofBool b
  | .bool a, .float b => b.eqInt (ofBool a)
  | .float a, .bool b => a.eqInt (ofBool b)
  | .int a, .int b => a == b
  | .int a, .float b => b.eqInt a
  | .float a, .int b => a.eqInt b
  | .float a, .float b => a.same b
  | .text a, .text b => a == b
  | .bytes a, .bytes b => a == b
  | .date a, .date b => a == b
  | .moment a, .moment b => a.same b
  | .time a, .time b => a == b
  | .tuple a, .tuple b => sameKeys a b
  | _, _ => false

/-- The values are the same mapping keys one by one. -/
def sameKeys : List Value → List Value → Bool
  | [], [] => true
  | a :: as, b :: bs => sameKey a b && sameKeys as bs
  | _, _ => false

end

/-- The mapping that results from writing the entries one after the other. -/
def mapOf (entries : List (Value × Value)) : Value :=
  .map (Dictionary.ofEntriesBy sameKey entries)

/-- The set of the items, each kept where it came first. -/
def setOf (items : List Value) : Value :=
  .set ((Dictionary.ofEntriesBy sameKey (items.map (·, ()))).map (·.1))

/-- The mapping with text keys. -/
def record (members : List (String × Value)) : Value :=
  .map (members.map fun member => (.text member.1, member.2))

/-- The value under a text key of a mapping's entries. -/
def member? (key : String) : List (Value × Value) → Option Value
  | [] => none
  | (.text k, v) :: rest => if k = key then some v else member? key rest
  | _ :: rest => member? key rest

/-- The value counts as present: it is not null, false, zero or empty. -/
def truthy : Value → Bool
  | .null => false
  | .bool b => b
  | .int i => i != 0
  | .float x => !x.isZero
  | .text s => s != ""
  | .bytes octets => !octets.isEmpty
  | .list items => !items.isEmpty
  | .tuple items => !items.isEmpty
  | .set items => !items.isEmpty
  | .map entries => !entries.isEmpty
  | _ => true

end Value

end ContentCatalog
