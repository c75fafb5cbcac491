/-!
# Log records

What a scan tells while it works.  Records are kept whole; which of them are
shown, and how, is decided by whoever shows them.
-/

namespace ContentCatalog.Log

/-- How urgent a record is. -/
inductive Level where
  | debug
  | info
  | warning
  | error
  | critical
  deriving DecidableEq, Repr

/-- The rank of a level. -/
def Level.rank : Level → Nat
  | .debug => 10
  | .info => 20
  | .warning => 30
  | .error => 40
  | .critical => 50

/-- The name of a level. -/
def Level.name : Level → String
  | .debug => "DEBUG"
  | .info => "INFO"
  | .warning => "WARNING"
  | .error => "ERROR"
  | .critical => "CRITICAL"

/-- The level of a name. -/
def Level.ofName? (name : String) : Option Level :=
  [Level.debug, .info, .warning, .error, .critical].find? fun level => level.name == name

/-- The name that all channels have in common. -/
def rootChannel : String := "frontmatter"

/-- The channel of a part of the program; no part means the common channel. -/
def channel (part : Option String) : String :=
  match part with
  | none => rootChannel
  | some "" => rootChannel
  | some part => rootChannel ++ "." ++ part

/-- A record. -/
structure Record where
  level : Level
  channel : String
  message : String
  deriving DecidableEq, Repr

/-- The least level that is shown: everything if `verbose` is set, and only what
is urgent if just `quiet` is. -/
def threshold (verbose quiet : Bool) : Level :=
  if verbose then .debug else if quiet then .warning else .info

/-- The records that are shown from a level on. -/
def shown (least : Level) (records : List Record) : List Record :=
  records.filter fun record => least.rank ≤ record.level.rank

/-- A record as the console shows it, with its line end. -/
def Record.consoleLine (record : Record) : String :=
  "[" ++ rootChannel ++ "] " ++ record.level.name ++ " " ++ record.message ++ "\n"

/-- A record as a log file holds it, behind the time of day. -/
def Record.fileLine (record : Record) : String :=
  record.level.name ++ " " ++ record.channel ++ ": " ++ record.message

/-- What the console shows of the records. -/
def console (least : Level) (records : List Record) : String :=
  String.join ((shown least records).map Record.consoleLine)

end ContentCatalog.Log
