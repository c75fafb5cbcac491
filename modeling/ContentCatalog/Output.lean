import ContentCatalog.Scan
import ContentCatalog.Disk.Change
import ContentCatalog.Json.Printer

/-!
# Results on a disk

A scan's results are written as JSON files into one folder: the manifest, the
build and, if something was wrong, the reports.  A file of reports left over from
an earlier scan is removed.  The persisted build can be read back.

Where the writing stops depends on what the results are written to.  The program
writes to a disk that stops nothing.
-/

namespace ContentCatalog

/-- A sound disk, with the failures of a scan. -/
def Disk.Medium.disk : Disk.Medium Failure :=
  .sound .disk

namespace Output

/-- The names of the files. -/
def manifestFile : String := "manifest.json"

/-- The name of the file with the build. -/
def buildFile : String := "build.json"

/-- The name of the file with the reports. -/
def errorsFile : String := "errors.json"

/-- The part of the program that leaves the records. -/
def part : String := "output"

/-- The places of the files that were written. -/
structure Written where
  manifest : Place
  build : Place
  errors : Option Place

/-- The record of the reports. -/
def errorsRecord (errors : List String) : Value :=
  .record [("errors", .list (errors.map fun message => .record [("message", .text message)]))]

section Writing

variable {ε : Type} (medium : Disk.Medium ε) (unwritten : Json.WriteFault → ε)

/-- Write a value as JSON, folders made as needed. -/
def writeValue (place : Place) (value : Value) : Disk.Action ε Unit := do
  Disk.ensureFolder medium place.parent
  match Json.write value with
  | .ok text => Disk.writeFile medium place text.toUTF8
  | .error fault => throw (unwritten fault)

/-- Write the manifest and the build. -/
def writeCatalog (result : Scan.Result) (out : Place) : Disk.Action ε Unit := do
  writeValue medium unwritten (out.child manifestFile) result.manifest.toValue
  writeValue medium unwritten (out.child buildFile) result.build.toValue

/-- Write the reports, or remove those left over. -/
def writeErrors (result : Scan.Result) (out : Place) : Disk.Action ε Unit :=
  if result.errors.isEmpty then Disk.removeFile medium (out.child errorsFile)
  else writeValue medium unwritten (out.child errorsFile) (errorsRecord result.errors)

/-- The record that files were written. -/
def wroteRecord (files : String) : Log.Record :=
  ⟨.debug, Log.channel (some part), "Wrote " ++ files⟩

/-- Write the results of a scan into a folder, and tell of it.  The disk is changed
as far as the writing came. -/
def writeOn (result : Scan.Result) (out : Place) (disk : Disk.State) :
    Disk.State × List Log.Record × Except ε Written :=
  match (writeCatalog medium unwritten result out).run.run disk with
  | (.error failure, disk) => (disk, [], .error failure)
  | (.ok _, disk) =>
    let manifest := out.child manifestFile
    let build := out.child buildFile
    let wrote := wroteRecord (manifest.text ++ " and " ++ build.text)
    match (writeErrors medium unwritten result out).run.run disk with
    | (.error failure, disk) => (disk, [wrote], .error failure)
    | (.ok _, disk) =>
      if result.errors.isEmpty then (disk, [wrote], .ok ⟨manifest, build, none⟩)
      else
        let errors := out.child errorsFile
        (disk, [wrote, wroteRecord errors.text], .ok ⟨manifest, build, some errors⟩)

end Writing

/-- Write the results of a scan into a folder of a sound disk. -/
def write (result : Scan.Result) (out : Place) (disk : Disk.State) :
    Disk.State × Logged Written :=
  let (disk, records, outcome) := writeOn .disk .output result out disk
  (disk, ⟨records, outcome⟩)

/-- The record of the build in a folder of results. -/
def readBuild (disk : Tree) (out : Place) : Except Failure Value := do
  let chars ← Disk.readText disk (out.child buildFile)
  let document ← (Json.read chars).mapError .json
  return document.toValue

end Output

end ContentCatalog
