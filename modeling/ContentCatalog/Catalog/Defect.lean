import ContentCatalog.Catalog.Build
import ContentCatalog.Value.Display

/-!
# Defects of a build

The rules for the structure of a build, checked on its record.  A record that was
written and read back is judged by the same rules as one just made, and every
defect is reported, in the order of the record.
-/

namespace ContentCatalog

/-- What a defect is found in: a page, a component or a dataset, by its
identifier or key. -/
inductive Subject where
  | page (id : Value)
  | component (key : Value)
  | dataset (id : Value)

/-- What is wrong with a field. -/
inductive FieldDefect where
  | notObject (found : Value)
  | keyMissing
  | keyNotText (key : Value)
  | keyRepeated (key : Value)
  | typeMissing (key : Value)
  | requiredNotBoolean (key : Value)

/-- What is wrong with a build. -/
inductive Defect where
  | notObject
  | schemaVersion (found : Value)
  | rootMissing
  | nameMissing
  | pagesNotArray
  | componentsNotObject
  | datasetsNotArray
  | pageNotObject (found : Value)
  | pageIdMissing
  | datasetNotObject (found : Value)
  | datasetIdMissing
  | subjectNotObject (subject : Subject)
  | memberMissing (subject : Subject) (name : String)
  | sourceType (subject : Subject) (found : Value)
  | memberNotArray (subject : Subject) (name : String)
  | fileOtherThanKey (subject : Subject) (found : Value)
  | format (subject : Subject) (found : Value)
  | field (subject : Subject) (defect : FieldDefect)

/-! ### Reports -/

/-- How a report shows a value: containers by their kind only. -/
def shown : Value → Except Number.Fault String
  | .null => .ok "undefined"
  | .list _ => .ok "list"
  | .map _ => .ok "dict"
  | value => value.display

/-- The label of what a defect is found in. -/
def Subject.label : Subject → Except Number.Fault String
  | .page id => return "Page(" ++ (← shown id) ++ ")"
  | .component key => return "Component(" ++ (← shown key) ++ ")"
  | .dataset id => return "Dataset(" ++ (← shown id) ++ ")"

/-- The report of a defect of a field, behind the label of its owner. -/
def FieldDefect.message : FieldDefect → Except Number.Fault String
  | .notObject found => return "field is not an object: " ++ (← shown found)
  | .keyMissing => return "field missing key"
  | .keyNotText key => return "field(" ++ (← shown key) ++ ") key must be a string"
  | .keyRepeated key => return "duplicate field key: " ++ (← shown key)
  | .typeMissing key => return "field(" ++ (← shown key) ++ ") missing type"
  | .requiredNotBoolean key => return "field(" ++ (← shown key) ++ ") required must be boolean"

/-- The report of a defect. -/
def Defect.message : Defect → Except Number.Fault String
  | .notObject => return "Build is not an object."
  | .schemaVersion found => return "Unsupported schemaVersion: " ++ (← shown found)
  | .rootMissing => return "Missing project.root"
  | .nameMissing => return "Missing project.name"
  | .pagesNotArray => return "pages must be an array"
  | .componentsNotObject => return "componentsIndex must be an object"
  | .datasetsNotArray => return "datasets must be an array"
  | .pageNotObject found => return "Page is not an object: " ++ (← shown found)
  | .pageIdMissing => return "Page missing id"
  | .datasetNotObject found => return "Dataset is not an object: " ++ (← shown found)
  | .datasetIdMissing => return "Dataset missing id"
  | .subjectNotObject subject => return (← subject.label) ++ " is not an object"
  | .memberMissing subject name => return (← subject.label) ++ " missing " ++ name
  | .sourceType subject found =>
    return (← subject.label) ++ " invalid sourceType: " ++ (← shown found)
  | .memberNotArray subject name => return (← subject.label) ++ " " ++ name ++ " must be an array"
  | .fileOtherThanKey subject found =>
    return (← subject.label) ++ " file does not match its index key: " ++ (← shown found)
  | .format subject found =>
    return (← subject.label) ++ " unsupported format: " ++ (← shown found)
  | .field subject defect => return (← subject.label) ++ " " ++ (← defect.message)

/-! ### Rules -/

/-- The member of a mapping, null if there is none. -/
def memberOrNull (name : String) (entries : List (Value × Value)) : Value :=
  (Value.member? name entries).getD .null

/-- The defects that hold under a condition. -/
def defectIf {α : Type} (condition : Bool) (defect : α) : List α :=
  if condition then [defect] else []

/-- The value, or a question mark in place of one that does not count as
present. -/
def orUnknown (value : Value) : Value :=
  if value.truthy then value else .text "?"

/-- The value is this text. -/
def isText (text : String) : Value → Bool
  | .text s => s == text
  | _ => false

/-- The value is the version that this library writes, as a whole number or as a
double equal to it. -/
def isSchemaVersion : Value → Bool
  | .int i => i == schemaVersion
  | .float x => x.eqInt schemaVersion
  | _ => false

/-- The value is a truth value. -/
def isBoolean : Value → Bool
  | .bool _ => true
  | _ => false

/-- The value is a text with something in it. -/
def isFilledText : Value → Bool
  | .text s => s != ""
  | _ => false

/-- The defects of a field's key, and the keys seen with it. -/
def keyDefects (seen : List String) (key : Value) : List FieldDefect × List String :=
  if !key.truthy then ([.keyMissing], seen)
  else
    match key with
    | .text s => if seen.contains s then ([.keyRepeated key], seen) else ([], s :: seen)
    | _ => ([.keyNotText key], seen)

/-- The defects of a list of fields, given the keys of those before. -/
def fieldDefects : (seen : List String) → List Value → List FieldDefect
  | _, [] => []
  | seen, .map entries :: rest =>
    let key := memberOrNull "key" entries
    let (defects, seen) := keyDefects seen key
    defects
      ++ defectIf (!(memberOrNull "type" entries).truthy) (.typeMissing (orUnknown key))
      ++ defectIf (!isBoolean (memberOrNull "required" entries))
        (.requiredNotBoolean (orUnknown key))
      ++ fieldDefects seen rest
  | seen, item :: rest => .notObject item :: fieldDefects seen rest

/-- The defects of the member that holds the fields. -/
def fieldListDefects (subject : Subject) (name : String) (fields : Value) : List Defect :=
  match fields with
  | .list items => (fieldDefects [] items).map (.field subject)
  | _ => [.memberNotArray subject name]

/-- The defect of a page's source type: it may be left out. -/
def sourceTypeDefects (subject : Subject) (sourceType : Value) : List Defect :=
  match sourceType with
  | .null => []
  | .text s =>
    defectIf (s != FieldSource.component.name && s != FieldSource.markdown.name)
      (.sourceType subject sourceType)
  | _ => [.sourceType subject sourceType]

/-- The defects of a page. -/
def pageDefects : Value → List Defect
  | .map entries =>
    let id := memberOrNull "id" entries
    let subject := Subject.page (orUnknown id)
    defectIf (!id.truthy) .pageIdMissing
      ++ defectIf (!(memberOrNull "file" entries).truthy) (.memberMissing subject "file")
      ++ defectIf (!(memberOrNull "route" entries).truthy) (.memberMissing subject "route")
      ++ sourceTypeDefects subject (memberOrNull "sourceType" entries)
      ++ fieldListDefects subject "fields" (memberOrNull "fields" entries)
  | page => [.pageNotObject page]

/-- The value of a component's file is its key. -/
def isOwnKey (key file : Value) : Bool :=
  match key, file with
  | .text k, .text f => k == f
  | _, _ => false

/-- The defects of a component under its key. -/
def componentDefects (key : Value) : Value → List Defect
  | .map entries =>
    let subject := Subject.component key
    let file := memberOrNull "file" entries
    (if !file.truthy then [.memberMissing subject "file"]
      else defectIf (!isOwnKey key file) (.fileOtherThanKey subject file))
      ++ fieldListDefects subject "exportedProps" (memberOrNull "exportedProps" entries)
  | _ => [.subjectNotObject (.component key)]

/-- The defects of a dataset. -/
def datasetDefects : Value → List Defect
  | .map entries =>
    let id := memberOrNull "id" entries
    let subject := Subject.dataset (orUnknown id)
    let format := memberOrNull "format" entries
    defectIf (!id.truthy) .datasetIdMissing
      ++ defectIf (!(memberOrNull "file" entries).truthy) (.memberMissing subject "file")
      ++ defectIf (Value.member? "data" entries).isNone (.memberMissing subject "data")
      ++ defectIf (!isText datasetFormat format) (.format subject format)
      ++ defectIf (!isFilledText (memberOrNull "hash" entries)) (.memberMissing subject "hash")
  | dataset => [.datasetNotObject dataset]

/-- The entries of a mapping; none of anything else. -/
def entriesOf : Value → List (Value × Value)
  | .map entries => entries
  | _ => []

/-- The value is a mapping. -/
def isMap : Value → Bool
  | .map _ => true
  | _ => false

/-- The items of a list; none of anything else. -/
def itemsOf : Value → List Value
  | .list items => items
  | _ => []

/-- The value is a list. -/
def isList : Value → Bool
  | .list _ => true
  | _ => false

/-- All defects of a build's record. -/
def defects : Value → List Defect
  | .map entries =>
    let version := memberOrNull "schemaVersion" entries
    let project := entriesOf (memberOrNull "project" entries)
    let pages := memberOrNull "pages" entries
    let components := memberOrNull "componentsIndex" entries
    let datasets := memberOrNull "datasets" entries
    defectIf (!isSchemaVersion version) (.schemaVersion version)
      ++ defectIf (!(memberOrNull "root" project).truthy) .rootMissing
      ++ defectIf (!(memberOrNull "name" project).truthy) .nameMissing
      ++ defectIf (!isList pages) .pagesNotArray
      ++ defectIf (!isMap components) .componentsNotObject
      ++ defectIf (!isList datasets) .datasetsNotArray
      ++ (itemsOf pages).flatMap pageDefects
      ++ (entriesOf components).flatMap (fun entry => componentDefects entry.1 entry.2)
      ++ (itemsOf datasets).flatMap datasetDefects
  | _ => [.notObject]

/-- The reports of all defects of a build's record.  Only a number that is too
long to be shown stands in the way. -/
def defectReports (record : Value) : Except Number.Fault (List String) :=
  (defects record).mapM Defect.message

end ContentCatalog
