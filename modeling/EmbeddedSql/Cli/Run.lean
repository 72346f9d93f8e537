/-
# The commands

Besides scanning there are two commands: one shows the rules that are in force, the other the runs
that the store knows.  `runCommand` carries out any of them; arguments that are not in order end it
before anything is done.
-/
import EmbeddedSql.Cli.Scan

namespace EmbeddedSql

/-- Show the rules that are in force. -/
def rulesCommand (config : Config) (path : Option Path) (disk : Disk) : Outcome :=
  match loadRulesOr disk (path.getD config.rulesPath) with
  | .error outcome => outcome
  | .ok rules => ⟨0, [.verbatim (Text.ofString rules.dump)], [], disk, none⟩

/-- The row of a run. -/
def runRow (run : Run) : List Text :=
  [Text.ofString run.startedAt, escapeMarkup (Text.ofString run.root),
    Text.ofString run.status.name, Text.ofString (toString run.fileCount),
    Text.ofString (toString run.findingCount), Text.ofString (toString run.errorCount)]

/-- How runs are printed. -/
def printRuns (runs : List Run) : Printed :=
  if runs = [] then .markup (Text.ofString "[dim]No scan runs recorded.[/dim]")
  else
    .table (Text.ofString "Scan History") ["Started", "Root", "Status", "Files", "SQL", "Errors"]
      (runs.map runRow)

/-- Show the latest runs of the store, newest first. -/
def showRuns (config : Config) (limit : Int) (disk : Disk) : Outcome :=
  match openStore disk config.storePath with
  | .error e => .ofFault disk [] (.store e)
  | .ok c =>
    let disk := disk.write config.storePath (.store c.store)
    match c.ask (·.listRuns limit) with
    | .error e => .ofFault disk [] (.store e)
    | .ok runs => ⟨0, [printRuns runs], [], disk, none⟩

/-- Show the latest runs if there is a store. -/
def historyCommand (config : Config) (limit : Int) (disk : Disk) : Outcome :=
  match disk.holds config.storePath with
  | .error e => .ofFault disk [] (.tooLong e)
  | .ok true => showRuns config limit disk
  | .ok false =>
    .ofMarkup disk 1 (Text.ofString
      "[red]Database not found.[/red] Run sql-extract scan first to create it.")

/-- Carry out a command. -/
def runCommand (config : Config) (workerFault : Option String) (occasion : Occasion)
    (disk : Disk) : Command → Outcome
  | .help => ⟨0, [], [], disk, none⟩
  | .scan request => scanCommand config workerFault occasion request disk
  | .rules path => rulesCommand config path disk
  | .history limit => historyCommand config limit disk

/-- Carry out what arguments ask for. -/
def runArguments (config : Config) (workerFault : Option String) (occasion : Occasion)
    (arguments : List String) (disk : Disk) : Except UsageError Outcome :=
  (Command.parse arguments).map (runCommand config workerFault occasion disk)

end EmbeddedSql
