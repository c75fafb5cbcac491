import ContentCatalog.Catalog.Field

/-!
# Builds and manifests

What a scan produces: the build with all pages, components and datasets of a
project, and the manifest with a fingerprint for every source file.  Both are
written as records, the members in a fixed order.
-/

namespace ContentCatalog

/-- The version of the format that this library writes. -/
def schemaVersion : Int := 2

/-- The one format of datasets. -/
def datasetFormat : String := "yaml"

/-- A project by the path of its root and its name. -/
structure Project where
  root : String
  name : String

/-- A page that has a route. -/
structure Page where
  id : String
  file : String
  route : String
  components : List String
  fields : List Field
  sourceType : Option String

/-- A component with the props that it declares. -/
structure Component where
  id : String
  file : String
  props : List Field

/-- A data file with its decoded document. -/
structure Dataset where
  id : String
  file : String
  data : Value
  hash : String
  format : String := datasetFormat

/-- Everything that one scan finds.  The components are kept under a key each. -/
structure Build where
  generatedAt : Int
  project : Project
  pages : List Page
  components : List (String × Component)
  datasets : List Dataset
  version : Int := schemaVersion

/-- The fingerprints of the source files under their paths. -/
structure Manifest where
  generatedAt : Int
  project : Project
  files : List (String × String)
  version : Int := schemaVersion

/-- The record of a project. -/
def Project.toValue (project : Project) : Value :=
  .record [("root", .text project.root), ("name", .text project.name)]

/-- The fields as an array of records. -/
def fieldValues (fields : List Field) : Value :=
  .list (fields.map Field.toValue)

/-- The record of a page. -/
def Page.toValue (page : Page) : Value :=
  .record (
    [("id", .text page.id), ("route", .text page.route), ("file", .text page.file),
      ("components", .list (page.components.map .text)), ("fields", fieldValues page.fields)]
      ++ Field.optionalMember "sourceType" (page.sourceType.map .text))

/-- The record of a component. -/
def Component.toValue (component : Component) : Value :=
  .record [("id", .text component.id), ("file", .text component.file),
    ("exportedProps", fieldValues component.props)]

/-- The record of a dataset. -/
def Dataset.toValue (dataset : Dataset) : Value :=
  .record [("id", .text dataset.id), ("file", .text dataset.file),
    ("format", .text dataset.format), ("data", dataset.data), ("hash", .text dataset.hash)]

/-- The record of a build. -/
def Build.toValue (build : Build) : Value :=
  .record [("schemaVersion", .int build.version), ("generatedAt", .int build.generatedAt),
    ("project", build.project.toValue), ("pages", .list (build.pages.map Page.toValue)),
    ("componentsIndex", .record (build.components.map fun entry => (entry.1, entry.2.toValue))),
    ("datasets", .list (build.datasets.map Dataset.toValue))]

/-- The record of a manifest. -/
def Manifest.toValue (manifest : Manifest) : Value :=
  .record [("schemaVersion", .int manifest.version), ("generatedAt", .int manifest.generatedAt),
    ("project", manifest.project.toValue),
    ("files", .record (manifest.files.map fun entry => (entry.1, .text entry.2)))]

end ContentCatalog
