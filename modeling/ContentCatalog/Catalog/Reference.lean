import ContentCatalog.Catalog.Defect
import ContentCatalog.Failure

/-!
# References to components

A page names the files of the components that it uses by convention only, so a
file may be missing.  A reference holds if the build has a component under that
key, or if a file is there.
-/

namespace ContentCatalog

/-- The texts among values. -/
def textsAmong (values : List Value) : List String :=
  values.filterMap fun
    | .text s => some s
    | _ => none

/-- A reference of a page that finds nothing. -/
structure MissingReference where
  page : Value
  file : String

/-- The report of a reference that finds nothing. -/
def MissingReference.message (missing : MissingReference) : Except Failure String := do
  let id ← (orUnknown missing.page).display.mapError .number
  return "Page(" ++ id ++ ") references missing component " ++ missing.file

/-- The references of a page, by the page's identifier. -/
def pageReferences : Value → List MissingReference
  | .map entries =>
    (textsAmong (itemsOf (memberOrNull "components" entries))).map fun file =>
      ⟨memberOrNull "id" entries, file⟩
  | _ => []

/-- The reports of the references that find nothing, one after the other. -/
def missingReports (isFile : String → Except Failure Bool) :
    List MissingReference → Except Failure (List String)
  | [] => .ok []
  | reference :: rest => do
    if ← isFile reference.file then missingReports isFile rest
    else
      let report ← reference.message
      let others ← missingReports isFile rest
      return report :: others

/-- The reports of all references in a build's record that find nothing. -/
def missingReferences (isFile : String → Except Failure Bool) (record : Value) :
    Except Failure (List String) :=
  let entries := entriesOf record
  let known := textsAmong ((entriesOf (memberOrNull "componentsIndex" entries)).map (·.1))
  let references := (itemsOf (memberOrNull "pages" entries)).flatMap pageReferences
  missingReports isFile (references.filter fun reference => !known.contains reference.file)

/-- The references of a build's record, files looked for from a root. -/
def missingReferencesAt (disk : Tree) (root : Place) (record : Value) :
    Except Failure (List String) :=
  missingReferences (fun file => (Disk.isFile disk (root.below file)).mapError .disk) record

end ContentCatalog
