import ContentCatalog.Catalog.Reference
import ContentCatalog.Disk.Walk
import ContentCatalog.Hash.Sha256
import ContentCatalog.Settings
import ContentCatalog.Source.Component
import ContentCatalog.Source.Markdown

/-!
# Scans

One pass over a project: its source files are collected and fingerprinted, then
the components, the pages and the datasets among them are read, and the build
that results is checked.  Nothing is written.

A page or dataset that cannot be decoded ends the scan or is reported and left
out, as the settings say.  Any other failure ends the scan.
-/

namespace ContentCatalog.Scan

/-- A source file under its key, which is its path from the root. -/
structure Item where
  key : List Char
  place : Place
  content : ByteArray

/-- The key as it is written. -/
def Item.name (item : Item) : String :=
  String.ofList item.key

/-! ### Collecting -/

/-- The item of a file that was found below a root. -/
def itemAt (root : Place) (found : Disk.Found) : Item :=
  let place := root.below (String.ofList found.path)
  { key := Path.relativeTo root.text.toList place.text.toList
    place := place
    content := found.content }

/-- The folders and files that a scan looks at.  The folder that results are
written to is left out. -/
def filter (root out : Place) (settings : Settings) : Disk.Filter where
  accept := fun path => !Path.isHidden path && Path.isTracked path
  skip := fun path =>
    Path.isHidden path || path == Path.relativeTo root.text.toList out.text.toList
  rules := Exclusion.ofPatterns (settings.excluded.map String.toList)

/-- The items under source folders, each key once: of files with the same key the
last one counts, in the place of the first. -/
def itemsOf (root : Place) (found : List Disk.Found) : List Item :=
  let keyed := found.map fun file => ((itemAt root file).key, itemAt root file)
  ((Dictionary.ofEntries keyed).map (·.2)).filter fun item => Path.isUnderSource item.key

/-! ### Reading -/

/-- The part of the program that leaves the records. -/
def part : String := "scanner"

/-- The level of the records about single files. -/
def traceLevel (verbose : Bool) : Log.Level :=
  if verbose then .info else .debug

/-- An item with what its source tells if it is a component. -/
structure Read where
  item : Item
  component : Option Source.ComponentSource

/-- Read an item's source if it is a component. -/
def read (trace : Log.Level) (item : Item) : Logged Read := do
  if Path.isComponent item.key then
    let source ← Logged.lift (do
      (Source.component (← Disk.decodeText item.content)).mapError .number)
    Logged.note trace part ("parsed component " ++ item.name ++ " ("
      ++ toString source.props.length ++ " prop(s))")
    return ⟨item, some source⟩
  else return ⟨item, none⟩

/-- The entry of a component in the build. -/
def Read.entry? (reading : Read) : Option (String × Component) :=
  reading.component.map fun source =>
    (reading.item.name,
      { id := reading.item.name, file := reading.item.name, props := source.props })

/-- Something decoded, or the report of a file that could not be. -/
inductive Attempt (α : Type) where
  | done (value : α)
  | skipped (report : String)

/-- What was decoded. -/
def Attempt.value? {α : Type} : Attempt α → Option α
  | .done value => some value
  | .skipped _ => none

/-- The report of a file that could not be decoded. -/
def Attempt.report? {α : Type} : Attempt α → Option String
  | .done _ => none
  | .skipped report => some report

/-- Apply the policy to a file that may be no document. -/
def decodeUnder {α : Type} (policy : Policy) (item : Item) (result : Except Failure α) :
    Logged (Attempt α) :=
  match result, policy with
  | .ok value, _ => return .done value
  | .error (.document _ fault), .report => do
    Logged.note .warning part ("Skipping " ++ item.name ++ ": " ++ fault.message)
    return .skipped ("Failed to decode " ++ item.name ++ ": " ++ fault.message)
  | .error failure, _ => Logged.lift (.error failure)

/-- What the source of a Markdown page tells. -/
def markdownOf (item : Item) : Except Failure Source.MarkdownSource := do
  (Source.markdownPage (← Disk.decodeText item.content)).mapError (.ofYaml (some item.place))

/-- The page of an item. -/
def page (policy : Policy) (trace : Log.Level) (reading : Read) : Logged (Attempt Page) := do
  let item := reading.item
  let route := String.ofList (Path.route item.key)
  match reading.component with
  | some source =>
    Logged.note trace part ("page astro " ++ item.name ++ " -> " ++ route)
    return .done {
      id := item.name
      file := item.name
      route := route
      components := (Path.componentFiles source.tags).map String.ofList
      fields := source.props
      sourceType := some FieldSource.component.name }
  | none =>
    match ← decodeUnder policy item (markdownOf item) with
    | .skipped report => return .skipped report
    | .done source =>
      Logged.note trace part ("page markdown " ++ item.name ++ " -> " ++ route)
      return .done {
        id := item.name
        file := item.name
        route := route
        components := []
        fields := source.fields
        sourceType := some FieldSource.markdown.name }

/-- The document of a dataset. -/
def documentOf (item : Item) : Except Failure Value := do
  (Yaml.load .decoded (← Disk.decodeText item.content)).mapError (.ofYaml (some item.place))

/-- The dataset of an item. -/
def dataset (policy : Policy) (trace : Log.Level) (item : Item) : Logged (Attempt Dataset) := do
  match ← decodeUnder policy item (documentOf item) with
  | .skipped report => return .skipped report
  | .done data =>
    let id := String.ofList (Path.datasetName item.key)
    Logged.note trace part ("dataset yaml " ++ item.name ++ " -> " ++ id)
    return .done { id := id, file := item.name, data := data, hash := Sha256.digest item.content }

/-! ### The result -/

/-- What a scan results in: the manifest, the build, and the reports of what is
wrong. -/
structure Result where
  manifest : Manifest
  build : Build
  errors : List String

/-- The milliseconds of a time that is given in microseconds, by way of seconds
as a double. -/
def milliseconds (micros : Int) : Int :=
  let seconds := Double.ofRatio (micros < 0) micros.natAbs 1000000
  ((seconds.mul (Double.ofNat 1000)).truncate?).getD 0

/-- The fingerprints of items. -/
def fingerprints (items : List Item) : List (String × String) :=
  items.map fun item => (item.name, Sha256.digest item.content)

/-- What the items of a project amount to, and the reports of those left out. -/
def assemble (policy : Policy) (trace : Log.Level) (generatedAt : Int) (project : Project)
    (items : List Item) : Logged (Build × List String) := do
  let readings ← items.mapM (read trace)
  let pages ← (readings.filter fun reading => Path.isPage reading.item.key).mapM
    (page policy trace)
  let datasets ← (items.filter fun item =>
    Path.isDataset item.key && Path.isUnderData item.key).mapM (dataset policy trace)
  let build := {
    generatedAt := generatedAt
    project := project
    pages := pages.filterMap Attempt.value?
    components := readings.filterMap Read.entry?
    datasets := datasets.filterMap Attempt.value? }
  return (build, pages.filterMap Attempt.report? ++ datasets.filterMap Attempt.report?)

/-- The final record of a scan. -/
def summary (result : Result) : String :=
  "Scanned " ++ result.build.project.name ++ ": "
    ++ toString result.build.pages.length ++ " page(s), "
    ++ toString result.build.components.length ++ " component(s), "
    ++ toString result.build.datasets.length ++ " dataset(s), "
    ++ toString result.errors.length ++ " error(s)"

/-- What is asked of a scan.  Settings that are not given are read from the
project, a place for results that is not given is the one in the settings. -/
structure Request where
  root : String
  out : Option Place := none
  settings : Option Settings := none
  verify : Option Bool := none
  verbose : Bool := false
  micros : Int

/-- Scan the folder at a root. -/
def scanFolder (disk folder : Tree) (root out : Place) (settings : Settings)
    (request : Request) : Logged Result := do
  let items := itemsOf root (Disk.walk (filter root out settings) folder)
  let generatedAt := milliseconds request.micros
  let project : Project :=
    { root := String.ofList (Path.normalize root.text.toList)
      name := String.ofList (Path.projectName root.text.toList) }
  let (build, undecoded) ←
    assemble settings.policy (traceLevel request.verbose) generatedAt project items
  let defects ← Logged.lift ((defectReports build.toValue).mapError .number)
  let missing ←
    if request.verify.getD settings.verify then
      Logged.lift (missingReferencesAt disk root build.toValue)
    else pure []
  let result : Result := {
    manifest := { generatedAt := generatedAt, project := project, files := fingerprints items }
    build := build
    errors := undecoded ++ defects ++ missing }
  Logged.note .info part (summary result)
  return result

/-- Scan a project. -/
def run (around : Surroundings) (disk : Tree) (request : Request) : Logged Result := do
  let root ← Logged.lift (around.locate request.root)
  if !(← Logged.lift ((Disk.present disk root).mapError .disk)) then
    Logged.lift (.error (.rootMissing request.root))
  else if !(← Logged.lift ((Disk.isFolder disk root).mapError .disk)) then
    Logged.lift (.error (.rootNotFolder request.root))
  else
    let settings ←
      match request.settings with
      | some settings => pure settings
      | none => Logged.lift (Settings.load around disk root)
    let out ←
      match request.out with
      | some out => Logged.lift (do around.resolve (← around.expand out))
      | none => Logged.lift (settings.outPlace around)
    let folder ← Logged.lift ((Disk.findFolder disk root).mapError .disk)
    scanFolder disk folder root out settings request

end ContentCatalog.Scan
