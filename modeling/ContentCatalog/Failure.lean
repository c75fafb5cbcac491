import ContentCatalog.Disk.Tree
import ContentCatalog.Yaml.Fault
import ContentCatalog.Json.Reader
import ContentCatalog.Log

/-!
# Failures

Why a scan, a validation or the writing of results comes to no end.  Failures are
causes; their words are in `Failure.message`.  `Logged` is a computation that
may fail and that leaves log records whether it fails or not.

* `Logged.result_bind` : whether a computation fails, and what it gives, does not
  depend on the records.
-/

namespace ContentCatalog

/-- Why an operation failed. -/
inductive Failure where
  | disk (fault : Disk.Fault)
  | encoding (fault : Text.Utf8.Fault)
  /-- A page or dataset that cannot be decoded, and its place if it has one. -/
  | document (place : Option Place) (fault : Yaml.Fault)
  /-- A document with a scalar that is no value of its kind. -/
  | defect (defect : Yaml.Defect)
  | number (fault : Number.Fault)
  /-- Settings that are no mapping. -/
  | settingsShape
  /-- Settings that cannot be decoded, in a file of this name. -/
  | settingsText (file : String) (fault : Yaml.Fault)
  | json (fault : Json.ReadFault)
  | output (fault : Json.WriteFault)
  | rootMissing (given : String)
  | rootNotFolder (given : String)
  | unknownHome

/-- The name of the file with the settings of a project. -/
def settingsFile : String := ".frontmatter.yml"

/-- The report of a failure. -/
def Failure.message : Failure → String
  | .disk fault => fault.message
  | .encoding fault => fault.message
  | .document none fault => fault.message
  | .document (some place) fault => place.text ++ ": " ++ fault.message
  | .defect cause => cause.message
  | .number fault => fault.message
  | .settingsShape => settingsFile ++ " must contain a mapping at the root"
  | .settingsText file fault => "Failed to parse " ++ file ++ ": " ++ fault.message
  | .json fault => fault.message
  | .output fault => fault.message
  | .rootMissing given => "Project root not found: " ++ given
  | .rootNotFolder given => "Project root is not a directory: " ++ given
  | .unknownHome => "Could not determine home directory."

/-- The failure of a document at a place. -/
def Failure.ofYaml (place : Option Place) : Yaml.Failure → Failure
  | .fault fault => .document place fault
  | .defect cause => .defect cause

/-- The outcome of a computation with the records that it leaves. -/
structure Logged (α : Type) where
  records : List Log.Record
  result : Except Failure α

namespace Logged

/-- The outcome that leaves no record. -/
def lift {α : Type} (result : Except Failure α) : Logged α :=
  ⟨[], result⟩

/-- A second computation after a first one that succeeded. -/
def andThen {α β : Type} (first : Logged α) (second : α → Logged β) : Logged β :=
  match first.result with
  | .ok a => ⟨first.records ++ (second a).records, (second a).result⟩
  | .error failure => ⟨first.records, .error failure⟩

instance : Monad Logged where
  pure a := ⟨[], .ok a⟩
  bind := andThen

/-- Leave a record. -/
def note (level : Log.Level) (part message : String) : Logged Unit :=
  ⟨[⟨level, Log.channel (some part), message⟩], .ok ()⟩

/-- Whether two computations in a row fail does not depend on the records of the first. -/
theorem result_bind {α β : Type} (first : Logged α) (second : α → Logged β) :
    (first >>= second).result = first.result >>= fun a => (second a).result := by
  show (andThen first second).result = _
  rw [andThen]
  cases first.result <;> rfl

end Logged

end ContentCatalog
