import ContentCatalog.CommandLine.Arguments
import ContentCatalog.Output

/-!
# Runs of the command line

A run reads the settings of a project, then scans it and writes the results, or
validates results written before.  It ends with an exit code, or with a failure
that the command line has no words for.
-/

namespace ContentCatalog.CommandLine

/-- How a run ends. -/
inductive Ending where
  | exit (code : Nat)
  | failed (failure : Failure)

/-- What a run leaves: its ending, what it printed, and the disk. -/
structure Outcome where
  ending : Ending
  out : String := ""
  err : String := ""
  disk : Disk.State

/-- The code of a run that could not do its work. -/
def failureCode : Nat := 1

/-- The code of a run that found something wrong. -/
def invalidCode : Nat := 2

/-- Lines with their ends. -/
def lines (texts : List String) : String :=
  String.join (texts.map (· ++ "\n"))

/-- A list of reports under a heading. -/
def listing (heading : String) (reports : List String) : String :=
  lines (heading :: reports.map ("- " ++ ·))

/-- The path of a place as seen from where one stands, if it lies there. -/
def seenFrom (here place : Place) : String :=
  ((here.relativeTo? place).getD place).text

/-- The words for a failure of a scan, if the command line has some. -/
def scanWords? (command : Command) (failure : Failure) : Option String :=
  let named := programName ++ " " ++ command.name ++ " failed: " ++ failure.message ++ "\n"
  match failure with
  | .disk (.refused .notFound _) => some (failure.message ++ "\n")
  | .disk (.refused .notFolder _) => some (failure.message ++ "\n")
  | .rootMissing _ => some (failure.message ++ "\n")
  | .rootNotFolder _ => some (failure.message ++ "\n")
  | .document .. => some named
  | .encoding _ => some named
  | .disk (.refused _ _) => some (named ++ "Run with --verbose for more details.\n")
  | _ => none

/-- The words for a failure of reading the persisted build, if the command line
has some. -/
def validateWords? (here out : Place) (failure : Failure) : Option String :=
  match failure with
  | .disk (.refused .notFound _) =>
    some (Output.buildFile ++ " not found in " ++ seenFrom here out ++ ". Run: " ++ programName
      ++ " " ++ Command.scan.name ++ "\n")
  | .disk (.refused _ _) => none
  | _ => some (Output.buildFile ++ " is not valid JSON: " ++ failure.message ++ "\n")

/-- Scan the project and write the results. -/
def runScan (around : Surroundings) (disk : Disk.State) (micros : Int) (arguments : Arguments)
    (root out : Place) (settings : Settings) : Outcome :=
  let given := arguments.given
  let least := Log.threshold given.verbose given.quiet
  let scanned := Scan.run around disk.tree {
    root := root.text
    out := some out
    settings := some settings
    verify := if given.verify then some true else none
    verbose := given.verbose
    micros := micros }
  let stopped (failure : Failure) (records : List Log.Record) (disk : Disk.State) : Outcome :=
    let console := Log.console least records
    match scanWords? arguments.command failure with
    | some words => { ending := .exit failureCode, err := console ++ words, disk := disk }
    | none => { ending := .failed failure, err := console, disk := disk }
  match scanned.result with
  | .error failure => stopped failure scanned.records disk
  | .ok result =>
    let (disk, wrote) := Output.write result out disk
    let records := scanned.records ++ wrote.records
    match wrote.result with
    | .error failure => stopped failure records disk
    | .ok places =>
      let console := Log.console least records
      match places.errors with
      | some errors =>
        let heading := "Scan completed with " ++ toString result.errors.length
          ++ " error(s); see " ++ errors.text
        { ending := .exit invalidCode
          err := console ++ listing heading result.errors
          disk := disk }
      | none =>
        { ending := .exit 0
          out := "Scan OK. Output: " ++ seenFrom around.here out ++ "\n"
          err := console
          disk := disk }

/-- Validate the results that were written before. -/
def runValidate (around : Surroundings) (disk : Disk.State) (out : Place) : Outcome :=
  match Output.readBuild disk.tree out with
  | .error failure =>
    match validateWords? around.here out failure with
    | some words => { ending := .exit invalidCode, err := words, disk := disk }
    | none => { ending := .failed failure, disk := disk }
  | .ok record =>
    match defectReports record with
    | .error fault => { ending := .failed (.number fault), disk := disk }
    | .ok [] => { ending := .exit 0, out := "Build is valid.\n", disk := disk }
    | .ok reports =>
      let heading := "Invalid build (" ++ toString reports.length ++ " error(s))"
      { ending := .exit invalidCode, err := listing heading reports, disk := disk }

/-- The path that an option gives; an empty one counts as not given. -/
def pathGiven (path : Option String) : Option String :=
  path.filter (· != "")

/-- The root that arguments ask for. -/
def rootPlace (around : Surroundings) (given : Given) : Except Failure Place :=
  around.locate ((pathGiven given.root).getD ".")

/-- The root, the settings and the place of the results that arguments ask for. -/
def prepare (around : Surroundings) (disk : Tree) (given : Given) :
    Except Failure (Place × Settings × Place) := do
  let root ← rootPlace around given
  let settings ← Settings.load around disk root
  let out ←
    match pathGiven given.out with
    | some path => around.locate path
    | none => settings.outPlace around
  return (root, settings, out)

/-- Run a line of arguments at a time in microseconds. -/
def run (around : Surroundings) (disk : Disk.State) (micros : Int) (line : List String) :
    Outcome :=
  match read line with
  | .error (.help grammar) => { ending := .exit 0, out := (Stop.help grammar).text, disk := disk }
  | .error stop => { ending := .exit invalidCode, err := stop.text, disk := disk }
  | .ok arguments =>
    match prepare around disk.tree arguments.given with
    | .error failure =>
      match failure with
      | .settingsShape | .settingsText .. =>
        { ending := .exit failureCode, err := failure.message ++ "\n", disk := disk }
      | _ => { ending := .failed failure, disk := disk }
    | .ok (root, settings, out) =>
      match arguments.command with
      | .validate => runValidate around disk out
      | _ => runScan around disk micros arguments root out settings

/-! ### What a run looks at -/

/-- The place that decides where else a run looks: the settings of the root. -/
def settingsPlaces (around : Surroundings) (line : List String) : List Place :=
  match read line with
  | .error _ => []
  | .ok arguments =>
    match rootPlace around arguments.given with
    | .error _ => []
    | .ok root => [root.child settingsFile]

/-- The places that a run looks at.  The disk needs to hold the settings only. -/
def places (around : Surroundings) (disk : Tree) (line : List String) : List Place :=
  match read line with
  | .error _ => []
  | .ok arguments =>
    match prepare around disk arguments.given with
    | .error _ => settingsPlaces around line
    | .ok (root, _, out) =>
      match arguments.command with
      | .validate => [root.child settingsFile, out.child Output.buildFile]
      | _ => [root, out]

end ContentCatalog.CommandLine
