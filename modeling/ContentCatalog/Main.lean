import ContentCatalog.CommandLine.Run
import Std.Time.DateTime.Timestamp

/-!
# The program

The command line over a real disk.  The places that a run looks at are read into
a tree, the run is carried out on the tree, and its changes are then made on the
disk.

* `read` : the part of a disk that lies at or on the way to given places;
* `make` : one change of the disk.
-/

namespace ContentCatalog.Program

/-- The names that lead to something of interest.  If `whole` is set, everything
below counts, else only that it is there. -/
structure Interest where
  names : List String
  whole : Bool

/-- What has to be known about a disk to follow a place: the end of the place, and
the folders that double dots lead back from. -/
def interests (place : Place) : List Interest :=
  let turns := (List.range place.parts.length).filter fun n => place.parts[n]? == some ".."
  ⟨Place.withoutDots place.parts, true⟩
    :: turns.map fun n => ⟨Place.withoutDots (place.parts.take n), false⟩

/-- The interests below a name.  An interest in everything ends at folders that no
scan enters. -/
def below (name : String) (wanted : List Interest) : List Interest :=
  wanted.filterMap fun interest =>
    match interest.names with
    | [] => if interest.whole && !Disk.closedFolders.contains name then some interest else none
    | first :: rest => if first = name then some { interest with names := rest } else none

/-- Some interest is in everything here. -/
def wantsAll (wanted : List Interest) : Bool :=
  wanted.any fun interest => interest.names.isEmpty && interest.whole

/-- The part of a disk below an entry that is of interest.  A link to a folder is
followed on the way only. -/
partial def read (entry : IO.FS.DirEntry) (wanted : List Interest) : IO Tree := do
  let path := entry.path
  if !(← path.isDir) then
    if (← path.metadata).type == .file then return .file (← IO.FS.readBinFile path)
    else return .file ByteArray.empty
  else if wantsAll wanted && (← path.symlinkMetadata).type == .symlink then return .folder []
  else
    let mut entries : List (String × Tree) := []
    for next in ← path.readDir do
      let inside := below next.fileName wanted
      if (wantsAll wanted || !inside.isEmpty) && (← next.path.pathExists) then
        entries := (next.fileName, ← read next inside) :: entries
    return .folder entries

/-- The part of the disk that is needed for the given places. -/
def readPlaces (places : List Place) : IO Tree :=
  read ⟨"/", "."⟩ (places.flatMap interests)

/-- Make a change. -/
def make : Disk.Change → IO Unit
  | .made folder => IO.FS.createDir folder.text
  | .written file content => IO.FS.writeBinFile file.text content
  | .removed file => IO.FS.removeFile file.text

/-- Where the program stands. -/
def surroundings : IO Surroundings := do
  let here ← IO.currentDir
  let home ← IO.getEnv "HOME"
  return { here := Place.ofText here.toString, home := Place.ofText (home.getD "/") }

/-- The time in microseconds. -/
def now : IO Int := do
  return (← Std.Time.Timestamp.now).toNanosecondsSinceUnixEpoch.val / 1000

/-- Run a line of arguments, and give the exit code. -/
def run (line : List String) : IO UInt32 := do
  let around ← surroundings
  let settings ← readPlaces (CommandLine.settingsPlaces around line)
  let disk ← readPlaces (CommandLine.places around settings line)
  let outcome := CommandLine.run around { tree := disk } (← now) line
  outcome.disk.changes.forM make
  IO.print outcome.out
  IO.eprint outcome.err
  match outcome.ending with
  | .exit code => return UInt32.ofNat code
  | .failed failure =>
    IO.eprintln failure.message
    return UInt32.ofNat CommandLine.failureCode

end ContentCatalog.Program

/-- The entry point. -/
def main (line : List String) : IO UInt32 :=
  ContentCatalog.Program.run line
