import ContentCatalog.Value.Basic
import ContentCatalog.Distinct

/-!
# Fields

A field is one attribute of a page or a prop of a component: declared in a
component's script, or inferred from the value under a front-matter key.  A
record may hold any words; those that this library writes are the names of
`FieldType` and `FieldSource`.
-/

namespace ContentCatalog

/-- The types that fields are given. -/
inductive FieldType where
  | string
  | number
  | boolean
  | unknown
  deriving DecidableEq, Repr

/-- The name of a type. -/
def FieldType.name : FieldType → String
  | .string => "string"
  | .number => "number"
  | .boolean => "boolean"
  | .unknown => "unknown"

/-- Where a field was found. -/
inductive FieldSource where
  | component
  | markdown
  deriving DecidableEq, Repr

/-- The name of a source, as fields and pages carry it. -/
def FieldSource.name : FieldSource → String
  | .component => "astro"
  | .markdown => "markdown"

/-- One attribute.  A missing default differs from a default of null. -/
structure Field where
  key : String
  type : String
  required : Bool
  default : Option Value := none
  rawType : Option String := none
  source : Option String := none

namespace Field

/-- A member of a record that is left out if there is nothing to write. -/
def optionalMember (name : String) (value : Option Value) : List (String × Value) :=
  match value with
  | some v => [(name, v)]
  | none => []

/-- The record of a field. -/
def toValue (field : Field) : Value :=
  .record (
    [("key", .text field.key), ("type", .text field.type), ("required", .bool field.required)]
      ++ optionalMember "default" field.default
      ++ optionalMember "rawType" (field.rawType.map .text)
      ++ optionalMember "source" (field.source.map .text))

/-- The type that a value shows. -/
def typeOf : Value → FieldType
  | .bool _ => .boolean
  | .text _ => .string
  | .int _ => .number
  | .float _ => .number
  | _ => .unknown

/-- The fields with the later ones of a repeated key left out. -/
def firstByKey (fields : List Field) : List Field :=
  firstBy Field.key fields

/-- The fields of front matter: one for each key that is not empty, the first of
equal keys. -/
def inferred (entries : List (String × Value)) : List Field :=
  firstByKey ((entries.filter fun entry => entry.1 != "").map fun entry =>
    { key := entry.1
      type := (typeOf entry.2).name
      required := false
      source := some FieldSource.markdown.name })

end Field

end ContentCatalog
