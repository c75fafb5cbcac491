import ContentCatalog.Text.Pieces
import ContentCatalog.Text.Digit
import ContentCatalog.Text.Quoted

/-!
# Arguments

The arguments of the command line: options that work before and after the
command, and the command itself.  A long option may be cut short as long as no
other begins the same; its value may follow behind an equals sign.  Short flags
may be joined.  What is no option of the grammar at hand is handed on, and only
at the end reported.
-/

namespace ContentCatalog.CommandLine

open Text

/-! ### Grammars -/

/-- What an option does. -/
inductive Effect where
  | help
  | root
  | out
  | verbose
  | quiet
  | verify
  deriving DecidableEq, Repr

/-- The option is followed by a value. -/
def Effect.takesValue : Effect → Bool
  | .root => true
  | .out => true
  | _ => false

/-- The label of an option in reports: all of its names. -/
def Effect.label : Effect → String
  | .help => "-h/--help"
  | .root => "--root"
  | .out => "--out"
  | .verbose => "-v/--verbose"
  | .quiet => "-q/--quiet"
  | .verify => "--verify-components"

/-- The commands. -/
inductive Command where
  | scan
  | validate
  | export
  deriving DecidableEq, Repr

/-- The name of a command. -/
def Command.name : Command → String
  | .scan => "scan"
  | .validate => "validate"
  | .export => "export"

/-- All commands. -/
def commands : List Command := [.scan, .validate, .export]

/-- The name of the program. -/
def programName : String := "frontmatter"

/-- What a line of arguments may consist of: the name under which it is reported,
its summary, and the names of its options. -/
structure Grammar where
  program : String
  usage : String
  names : List (String × Effect)

/-- The names of the options that every command has. -/
def commonNames : List (String × Effect) := [
  ("-h", .help), ("--help", .help), ("--root", .root), ("--out", .out),
  ("-v", .verbose), ("--verbose", .verbose), ("-q", .quiet), ("--quiet", .quiet)]

/-- The summary of the options that every command has. -/
def commonUsage : String := "[-h] [--root ROOT] [--out OUT] [-v] [-q]"

/-- The grammar in front of the command. -/
def Grammar.top : Grammar where
  program := programName
  usage := "usage: " ++ programName ++ " " ++ commonUsage
    ++ "\n                   \x7bscan,validate,export\x7d ...\n"
  names := commonNames

/-- The grammar behind a command. -/
def Grammar.of (command : Command) : Grammar :=
  let program := programName ++ " " ++ command.name
  let usage := "usage: " ++ program ++ " " ++ commonUsage
  match command with
  | .validate => ⟨program, usage ++ "\n", commonNames⟩
  | _ =>
    let indent := String.ofList (List.replicate (8 + program.length) ' ')
    ⟨program, usage ++ "\n" ++ indent ++ "[--verify-components]\n",
      commonNames ++ [("--verify-components", .verify)]⟩

/-- The option of a name. -/
def Grammar.option? (grammar : Grammar) (name : List Char) : Option Effect :=
  (grammar.names.find? fun entry => entry.1.toList == name).map (·.2)

/-! ### Single arguments -/

/-- What is wrong with a line of arguments. -/
inductive UsageFault where
  | ambiguous (written : String) (candidates : List String)
  | valueMissing (option : Effect)
  | valueIgnored (option : Effect) (value : String)
  | unknownCommand (written : String)
  | commandMissing
  | unrecognized (arguments : List String)
  deriving DecidableEq, Repr

/-- The report of a fault. -/
def UsageFault.message : UsageFault → String
  | .ambiguous written candidates =>
    "ambiguous option: " ++ written ++ " could match " ++ ", ".intercalate candidates
  | .valueMissing option => "argument " ++ option.label ++ ": expected one argument"
  | .valueIgnored option value =>
    "argument " ++ option.label ++ ": ignored explicit argument " ++ quotedText value
  | .unknownCommand written =>
    "argument command: invalid choice: " ++ quotedText written ++ " (choose from "
      ++ ", ".intercalate (commands.map fun command => quotedText command.name) ++ ")"
  | .commandMissing => "the following arguments are required: command"
  | .unrecognized arguments => "unrecognized arguments: " ++ " ".intercalate arguments

/-- A value that is attached to an option, by an equals sign or directly. -/
structure Attached where
  byEquals : Bool
  value : List Char

/-- What an argument is taken for. -/
inductive Token where
  | operand (written : String)
  /-- The two dashes behind which everything is an operand. -/
  | mark
  | option (effect : Effect) (isShort : Bool) (attached : Option Attached) (written : String)
  | unknown (written : String)

/-- The argument of a token. -/
def Token.written : Token → String
  | .operand written => written
  | .mark => "--"
  | .option _ _ _ written => written
  | .unknown written => written

/-- A name with one dash. -/
def isShortName (name : String) : Bool :=
  !startsWith ['-', '-'] name.toList

/-- The options that an argument can stand for, by their names: a long one begins
with the argument, a short one is its beginning. -/
def candidates (grammar : Grammar) (written : List Char) :
    List (String × Effect × Option Attached) :=
  if startsWith ['-', '-'] written then
    let start := written.takeWhile (· != '=')
    let attached := (cut? ['='] written).map fun (_, value) => (⟨true, value⟩ : Attached)
    (grammar.names.filter fun entry => startsWith start entry.1.toList).map fun entry =>
      (entry.1, entry.2, attached)
  else
    (grammar.names.filter fun entry => entry.1.toList == written.take 2).map fun entry =>
      (entry.1, entry.2, some ⟨false, written.drop 2⟩)

/-- The argument is a negative number. -/
def isNegativeNumber (written : List Char) : Bool :=
  match (beforeEnd? ['\n'] written).getD written with
  | '-' :: rest =>
    match cut? ['.'] rest with
    | some (whole, fraction) => whole.all isDigit && !fraction.isEmpty && fraction.all isDigit
    | none => !rest.isEmpty && rest.all isDigit
  | _ => false

/-- The option that an argument names outright, alone or in front of an equals
sign. -/
def named? (grammar : Grammar) (written : String) : Option Token :=
  let chars := written.toList
  match grammar.option? chars with
  | some effect => some (.option effect (isShortName written) none written)
  | none =>
    (cut? ['='] chars).bind fun (name, value) =>
      (grammar.option? name).map fun effect =>
        .option effect (isShortName (String.ofList name)) (some ⟨true, value⟩) written

/-- What an argument is taken for. -/
def classify (grammar : Grammar) (written : String) : Except UsageFault Token :=
  match written.toList with
  | '-' :: second :: rest =>
    match named? grammar written with
    | some token => .ok token
    | none =>
      match candidates grammar ('-' :: second :: rest) with
      | [(name, effect, attached)] => .ok (.option effect (isShortName name) attached written)
      | [] =>
        if isNegativeNumber written.toList || written.toList.contains ' ' then
          .ok (.operand written)
        else .ok (.unknown written)
      | several => .error (.ambiguous written (several.map (·.1)))
  | _ => .ok (.operand written)

/-- What the arguments are taken for; behind two dashes all are operands. -/
def tokens (grammar : Grammar) : List String → Except UsageFault (List Token)
  | [] => .ok []
  | "--" :: rest => .ok (.mark :: rest.map .operand)
  | written :: rest => do
    let token ← classify grammar written
    let others ← tokens grammar rest
    return token :: others

/-! ### Options -/

/-- What options have set. -/
structure Given where
  root : Option String := none
  out : Option String := none
  verbose : Bool := false
  quiet : Bool := false
  verify : Bool := false
  deriving DecidableEq, Repr

/-- Apply an option, with its value if it takes one. -/
def Given.apply (given : Given) (value : String) : Effect → Given
  | .help => given
  | .root => { given with root := some value }
  | .out => { given with out := some value }
  | .verbose => { given with verbose := true }
  | .quiet => { given with quiet := true }
  | .verify => { given with verify := true }

/-- What was set before and is not set again stays. -/
def Given.over (later earlier : Given) : Given where
  root := later.root.or earlier.root
  out := later.out.or earlier.out
  verbose := later.verbose || earlier.verbose
  quiet := later.quiet || earlier.quiet
  verify := later.verify || earlier.verify

/-- Why the reading of arguments ends early. -/
inductive Stop where
  | fault (grammar : Grammar) (cause : UsageFault)
  | help (grammar : Grammar)

/-- The flags that are joined to a flag, and what is left if one of them is no
flag of the grammar. -/
def joinedFlags (grammar : Grammar) (flag : Effect) (byEquals : Bool) :
    List Char → Except UsageFault (List Effect × Option String)
  | [] => .ok ([], none)
  | c :: rest =>
    if byEquals || c == '-' then .error (.valueIgnored flag (String.ofList (c :: rest)))
    else
      match grammar.option? ['-', c] with
      | none => .ok ([], some (String.ofList ('-' :: c :: rest)))
      | some next =>
        match rest with
        | ['='] => .error (.valueIgnored next "")
        | '=' :: value => .error (.valueIgnored next (String.ofList value))
        | rest => do
          let (others, left) ← joinedFlags grammar next false rest
          return (next :: others, left)

/-- What an option with its attached value amounts to: the options that are
applied, with their value, and what is left over. -/
def attachedUses (grammar : Grammar) (effect : Effect) (isShort : Bool) (attached : Attached) :
    Except UsageFault (List (Effect × String) × Option String) :=
  if effect.takesValue then .ok ([(effect, String.ofList attached.value)], none)
  else if isShort && !attached.value.isEmpty then do
    let (others, left) ← joinedFlags grammar effect attached.byEquals attached.value
    return ((effect :: others).map (·, ""), left)
  else .error (.valueIgnored effect (String.ofList attached.value))

/-- Apply options one after the other; help ends the reading. -/
def applyAll (grammar : Grammar) (given : Given) : List (Effect × String) → Except Stop Given
  | [] => .ok given
  | (.help, _) :: _ => .error (.help grammar)
  | (effect, value) :: rest => applyAll grammar (given.apply value effect) rest

/-- The state of the reading: what is set, and the arguments left over. -/
structure Progress where
  given : Given := {}
  left : List String := []

/-- Apply an option with the tokens behind it. -/
def applyOption (grammar : Grammar) (progress : Progress) (effect : Effect) (isShort : Bool)
    (attached : Option Attached) (rest : List Token) : Except Stop (Progress × List Token) :=
  let applied (uses : List (Effect × String)) (left : Option String) (rest : List Token) :=
    (applyAll grammar progress.given uses).map fun given =>
      (({ given := given, left := progress.left ++ left.toList } : Progress), rest)
  match attached with
  | some attached =>
    match attachedUses grammar effect isShort attached with
    | .ok (uses, left) => applied uses left rest
    | .error cause => .error (.fault grammar cause)
  | none =>
    if effect.takesValue then
      match rest with
      | .operand value :: rest => applied [(effect, value)] none rest
      | _ => .error (.fault grammar (.valueMissing effect))
    else applied [(effect, "")] none rest

/-- Read options up to the first operand.  Every step takes a token at least, so
the number of tokens is fuel enough. -/
def readOptions (grammar : Grammar) : (fuel : Nat) → Progress → List Token →
    Except Stop (Progress × List Token)
  | 0, progress, rest => .ok (progress, rest)
  | fuel + 1, progress, tokens =>
    match tokens with
    | .option effect isShort attached _ :: rest => do
      let (progress, rest) ← applyOption grammar progress effect isShort attached rest
      readOptions grammar fuel progress rest
    | .unknown written :: rest =>
      readOptions grammar fuel { progress with left := progress.left ++ [written] } rest
    | rest => .ok (progress, rest)

/-- Read all options; operands are left over. -/
def readAll (grammar : Grammar) : (fuel : Nat) → Progress → List Token → Except Stop Progress
  | 0, progress, _ => .ok progress
  | fuel + 1, progress, tokens => do
    let (progress, rest) ← readOptions grammar tokens.length progress tokens
    match rest with
    | [] => return progress
    | token :: rest =>
      readAll grammar fuel { progress with left := progress.left ++ [token.written] } rest

/-! ### Lines -/

/-- A line of arguments that was understood. -/
structure Arguments where
  command : Command
  given : Given
  deriving DecidableEq, Repr

/-- The tokens of arguments in a grammar. -/
def tokensOf (grammar : Grammar) (arguments : List String) : Except Stop (List Token) :=
  (tokens grammar arguments).mapError (.fault grammar)

/-- The operands from the command on; two dashes in front of an operand stand in
the command's place. -/
def commandLine? : List Token → Option (List String)
  | .operand written :: rest => some (written :: rest.map Token.written)
  | .mark :: .operand written :: rest => some ("--" :: written :: rest.map Token.written)
  | _ => none

/-- Understand a line of arguments. -/
def read (arguments : List String) : Except Stop Arguments := do
  let top := Grammar.top
  let line ← tokensOf top arguments
  let (before, rest) ← readOptions top (line.length + 1) {} line
  match commandLine? rest with
  | none => throw (.fault top .commandMissing)
  | some [] => throw (.fault top .commandMissing)
  | some (written :: behind) =>
    match commands.find? fun command => command.name == written with
    | none => throw (.fault top (.unknownCommand written))
    | some command =>
      let grammar := Grammar.of command
      let line ← tokensOf grammar behind
      let after ← readAll grammar (line.length + 1) {} line
      let left := before.left ++ after.left
      if left.isEmpty then return ⟨command, after.given.over before.given⟩
      else throw (.fault top (.unrecognized left))

/-- What is printed when the reading ends early. -/
def Stop.text : Stop → String
  | .fault grammar cause =>
    grammar.usage ++ grammar.program ++ ": error: " ++ cause.message ++ "\n"
  | .help grammar => grammar.usage

end ContentCatalog.CommandLine
