/-
# Arguments of the command line

A command is a word with options and positional arguments.  Options begin with two dashes and are
written out; one that takes a value finds it after an equals sign or in the next argument, whatever
that looks like.  Options stand anywhere among the arguments of their command, but a bare pair of
dashes ends them.  Where an option is repeated the last one counts.  Asking for help wins over
everything that is not an error of form.  Where a command is expected and an option stands, it is read
as an option, also after a bare pair of dashes.
-/
import EmbeddedSql.Files.Path
import EmbeddedSql.Number.Integer

namespace EmbeddedSql

/-- What is wrong with the arguments. -/
inductive UsageError where
  | noArguments
  | missingCommand
  | unknownCommand (name : String)
  | unknownOption (name : String)
  | unexpectedValue (option : String)
  | missingValue (option : String)
  | missingPaths
  | extraArguments (arguments : List String)
  | notAnInteger (option value : String)
  | notAPath (value : String)
deriving DecidableEq, Repr

def UsageError.message : UsageError → String
  | noArguments | missingCommand => "Missing command."
  | unknownCommand name => "No such command " ++ name ++ "."
  | unknownOption name => "No such option: " ++ name
  | unexpectedValue option => "Option " ++ option ++ " does not take a value."
  | missingValue option => "Option " ++ option ++ " requires an argument."
  | missingPaths => "Missing argument PATHS..."
  | extraArguments arguments => "Got unexpected extra arguments " ++ " ".intercalate arguments
  | notAnInteger option value => "Invalid value for " ++ option ++ ": " ++ value
  | notAPath value => "Invalid path: " ++ value

/-- An option is a flag or takes a value. -/
inductive OptionForm where
  | flag
  | value
deriving DecidableEq, Repr

/-- Options with their values, in the order in which they were given, and positional arguments. -/
structure ParsedArguments where
  options : List (String × String)
  positional : List String
deriving DecidableEq, Repr

namespace ParsedArguments

def has (p : ParsedArguments) (option : String) : Bool := p.options.any (·.1 == option)

/-- The value of an option, the last one if it was repeated. -/
def value? (p : ParsedArguments) (option : String) : Option String :=
  (p.options.reverse.find? (·.1 == option)).map (·.2)

end ParsedArguments

/-- An argument cut at its first equals sign. -/
def cutAtEquals (argument : String) : String × Option String :=
  let name := argument.toList.takeWhile (· != '=')
  match argument.toList.drop name.length with
  | [] => (argument, none)
  | _ :: value => (String.ofList name, some (String.ofList value))

/-- Does an argument look like an option? -/
def isOptionLike (argument : String) : Bool :=
  argument.toList.head? == some '-' && argument != "-"

/-- Read arguments by the forms of the options.  With `interspersed` options may follow positional
arguments; without it the first positional argument ends them. -/
def parseArguments (forms : List (String × OptionForm)) (interspersed : Bool) :
    List String → Except UsageError ParsedArguments
  | [] => .ok ⟨[], []⟩
  | argument :: rest =>
    if argument = "--" then .ok ⟨[], rest⟩
    else if isOptionLike argument then
      let (name, attached) := cutAtEquals argument
      match forms.lookup name, attached, rest with
      | none, _, _ => .error (.unknownOption name)
      | some .flag, some _, _ => .error (.unexpectedValue name)
      | some .flag, none, rest => do
        let p ← parseArguments forms interspersed rest
        return { p with options := (name, "") :: p.options }
      | some .value, some v, rest => do
        let p ← parseArguments forms interspersed rest
        return { p with options := (name, v) :: p.options }
      | some .value, none, [] => .error (.missingValue name)
      | some .value, none, v :: rest => do
        let p ← parseArguments forms interspersed rest
        return { p with options := (name, v) :: p.options }
    else if interspersed then do
      let p ← parseArguments forms interspersed rest
      return { p with positional := argument :: p.positional }
    else .ok ⟨[], argument :: rest⟩

/-! ## Commands -/

/-- What a scan is asked to do. -/
structure ScanRequest where
  paths : List Path
  asJson : Bool
  workers : Option Int
  rulesPath : Option Path
  useStore : Bool
  showSource : Bool
deriving DecidableEq, Repr

inductive Command where
  | help
  | scan (request : ScanRequest)
  | rules (path : Option Path)
  | history (limit : Int)
deriving DecidableEq, Repr

namespace Command

/-- What is shown to those who ask for help. -/
def usage : String :=
  "Find SQL statements embedded in Java source.\n\n" ++
  "sql-extract scan [--json] [--workers N] [--rules FILE] [--db|--no-db] [--source] PATHS...\n" ++
  "sql-extract rules [--rules FILE]\n" ++
  "sql-extract history [--limit N]"

/-- The integer that an option gives, if it is there. -/
def integer? (p : ParsedArguments) (option : String) : Except UsageError (Option Int) :=
  match p.value? option with
  | none => .ok none
  | some v =>
    match readInteger v with
    | some n => .ok (some n)
    | none => .error (.notAnInteger option v)

/-- The path that an argument writes. -/
def path (argument : String) : Except UsageError Path :=
  let path := Path.parse argument
  if path.holdsNul then .error (.notAPath argument) else .ok path

/-- The path that an option gives, if it is there. -/
def path? (p : ParsedArguments) (option : String) : Except UsageError (Option Path) :=
  match p.value? option with
  | none => .ok none
  | some v => (path v).map some

/-- Read the options of a command, unless help is asked for. -/
def withArguments (forms : List (String × OptionForm)) (arguments : List String)
    (use : ParsedArguments → Except UsageError Command) : Except UsageError Command := do
  let p ← parseArguments (("--help", .flag) :: forms) true arguments
  if p.has "--help" then return help
  use p

/-- Which of `--db` and `--no-db` was given last? -/
def usesStore (p : ParsedArguments) : Bool :=
  match p.options.reverse.find? fun (name, _) => name == "--db" || name == "--no-db" with
  | some (name, _) => name == "--db"
  | none => true

def parseScan (arguments : List String) : Except UsageError Command :=
  withArguments
    [("--json", .flag), ("--workers", .value), ("--rules", .value), ("--db", .flag),
      ("--no-db", .flag), ("--source", .flag)]
    arguments fun p => do
      let workers ← integer? p "--workers"
      let rulesPath ← path? p "--rules"
      if p.positional = [] then .error .missingPaths
      else
        let paths ← p.positional.mapM path
        return scan
          { paths
            asJson := p.has "--json"
            workers
            rulesPath
            useStore := usesStore p
            showSource := p.has "--source" }

def parseRules (arguments : List String) : Except UsageError Command :=
  withArguments [("--rules", .value)] arguments fun p =>
    if p.positional = [] then (path? p "--rules").map rules
    else .error (.extraArguments p.positional)

def parseHistory (arguments : List String) : Except UsageError Command :=
  withArguments [("--limit", .value)] arguments fun p => do
    let limit ← integer? p "--limit"
    if p.positional = [] then return history (limit.getD 10)
    else .error (.extraArguments p.positional)

/-- Read options that stand before a command. -/
def parseFront (arguments : List String) : Except UsageError ParsedArguments :=
  parseArguments [("--help", .flag)] false arguments

/-- Read the arguments of the program. -/
def parse (arguments : List String) : Except UsageError Command :=
  if arguments = [] then .error .noArguments
  else do
    let p ← parseFront arguments
    if p.has "--help" then return help
    match p.positional with
    | [] => .error .missingCommand
    | "scan" :: rest => parseScan rest
    | "rules" :: rest => parseRules rest
    | "history" :: rest => parseHistory rest
    | name :: rest =>
      if (← parseFront (name :: rest)).has "--help" then return help
      .error (.unknownCommand name)

end Command

end EmbeddedSql
