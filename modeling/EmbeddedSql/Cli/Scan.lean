/-
# The scan command

A scan collects the files below its paths, loads the rules, and scans the files; results that the
store holds for unchanged files are used again.  Each result goes to the journal and to the store, and
the run is finished with the counts.  What is printed comes last, so a command that ends with a fault
prints nothing.
-/
import EmbeddedSql.Cli.Arguments
import EmbeddedSql.Cli.Outcome

namespace EmbeddedSql

/-! ## Files -/

/-- The paths at which there is nothing. -/
def missingPaths (disk : Disk) (paths : List Path) : Except PathTooLong (List Path) :=
  paths.filterM fun path => return !(← disk.holds path)

/-- The files below paths in the order of the paths, each once, with `room` for nested calls. -/
def collectFiles (disk : Disk) (glob : String) (paths : List Path) (room : Option Nat := none) :
    Except FindError (List String) :=
  (paths.mapM fun path => disk.findFiles path glob room).map fun found => found.flatten.eraseDups

/-- Make a directory and those above it. -/
def ensureDirectory (disk : Disk) (path : Path) : Except DirectoryError Disk :=
  let made := disk.makeDirectory path
  if made.isDirectoryAt path then .ok made else .error ⟨path⟩

/-- The base directory and the directory of the journal. -/
def ensureDirectories (config : Config) (disk : Disk) : Except DirectoryError Disk := do
  let disk ← ensureDirectory disk config.baseDir
  ensureDirectory disk config.logDir

/-- The bytes of a file; none if it is not there. -/
def bytesOf : Option (Node Store) → Bytes
  | some (.file bytes) => bytes
  | _ => []

/-- Open the journal of a day to add to it. -/
def openJournal (config : Config) (day : String) (disk : Disk) : Except JournalError Unit :=
  let path := config.journalPath day
  if disk.isDirectoryAt path then .error ⟨path⟩ else .ok ()

/-- Add lines to the journal of a day, which has been opened: in its place there is a file, or nothing. -/
def appendJournal (config : Config) (day : String) (lines : List String) (disk : Disk) : Disk :=
  if lines = [] then disk
  else
    let added := Utf8.encode (String.join (lines.map (· ++ "\n"))).toList
    disk.alter (fun old => some (.file (bytesOf old ++ added))) (config.journalPath day).settled

/-! ## Results -/

/-- The results that the store holds for files as they are now, and how many there are. -/
def seedCache (disk : Disk) (store : Store) (files : List String) : ResultCache × Nat :=
  files.foldl (fun (cache, hits) file =>
    match disk.readSource (.parse file) with
    | .error _ => (cache, hits)
    | .ok source =>
      match store.cached? file (contentHash source) with
      | some r => (cache.put r, hits + 1)
      | none => (cache, hits)) (.empty, 0)

/-- What a scan found, with the counts that are reported. -/
structure ScanReport where
  results : List ScanResult
  cacheHits : Nat

namespace ScanReport

def candidateCount (r : ScanReport) : Nat := (r.results.flatMap (·.candidates)).length

def errorCount (r : ScanReport) : Nat := r.results.countP (!·.isOk)

/-- The counts as data of an event. -/
def context (r : ScanReport) : List (Text × Json) :=
  [("files", .int r.results.length), ("candidates", .int r.candidateCount),
    ("errors", .int r.errorCount), ("cache_hits", .int r.cacheHits)]

/-- What is printed last: how many files, statements and errors there were. -/
def summary (r : ScanReport) : Text :=
  Text.ofString ("\nScanned " ++ toString r.results.length ++ " files: "
    ++ toString r.candidateCount ++ " SQL statements, " ++ toString r.errorCount ++ " errors")

end ScanReport

/-! ## The work -/

/-- Write results to the journal and to the store, one after the other. -/
def recordResults (now : String) (runId : Option String) (j : Journal) :
    List ScanResult → Journal × Except StoreError Unit
  | [] => (j, .ok ())
  | r :: rest =>
    let j := j.record now (.ofResult runId r)
    match j.connection with
    | none => recordResults now runId j rest
    | some c =>
      match c.save runId r with
      | .error e => (j, .error e)
      | .ok c => recordResults now runId { j with connection := some c } rest

/-- The event that ends the work of a run. -/
def runEvent (runId : Option String) (context : List (Text × Json)) (failure : Option String) :
    Occurrence :=
  ⟨runId, some "scan.run", some 0, Occurrence.timedData context failure⟩

/-- Scan files and record the results, and then that the run has come to its end, well or not.  As that is
recorded in any case, the work fails for the journal if `opening` it does, whatever else it comes to. -/
def scanAndRecord (settings : Settings) (workers : Workers) (now : String) (disk : Disk)
    (opening : Except JournalError Unit) (runId : Option String) (cache : Option ResultCache)
    (cacheHits : Nat) (files : List String) (j : Journal) : Journal × Except Fault ScanReport :=
  match opening with
  | .error e => (j, .error (.journal e))
  | .ok () =>
    match scanFiles settings workers cache disk files with
    | .error e => (j.record now (runEvent runId [] (some e.message)), .error (.scan e))
    | .ok (results, _) =>
      match recordResults now runId j results with
      | (j, .error e) => (j.record now (runEvent runId [] (some e.message)), .error (.store e))
      | (j, .ok ()) =>
        let report : ScanReport := ⟨results, cacheHits⟩
        (j.record now (runEvent runId report.context none), .ok report)

/-- The status of a run that has come to its end. -/
def ScanReport.status (r : ScanReport) : RunStatus := if r.errorCount = 0 then .done else .error

/-- The root of a run is the list of its paths. -/
def rootText (paths : List Path) : String := ", ".intercalate (paths.map Path.toText)

/-- A run with a store: it is created, what the store holds is used again, and it is finished unless
there is a fault. -/
def scanWithStore (config : Config) (settings : Settings) (workers : Workers) (occasion : Occasion)
    (disk : Disk) (paths : List Path) (files : List String) (c : Connection) :
    Journal × Except Fault ScanReport :=
  let opened : Journal := ⟨[], some c, []⟩
  match c.update (·.createRun occasion.now occasion.freshId (some (rootText paths))) with
  | .error e => (opened, .error (.store e))
  | .ok (run, c) =>
    let seed := if config.useCache then seedCache disk c.store files else (.empty, 0)
    let cache := if config.useCache then some seed.1 else none
    let j : Journal := { opened with connection := some c }
    let opening := openJournal config occasion.day disk
    match scanAndRecord settings workers occasion.now disk opening (some run.id) cache seed.2 files j with
    | (j, .error e) => (j, .error e)
    | (j, .ok report) =>
      match j.connection with
      | none => (j, .ok report)
      | some c =>
        match c.update (·.finishRun occasion.now run.id report.status) with
        | .error e => (j, .error (.store e))
        | .ok (_, c) => ({ j with connection := some c }, .ok report)

/-- A run without a store. -/
def scanWithoutStore (config : Config) (settings : Settings) (workers : Workers)
    (occasion : Occasion) (disk : Disk) (files : List String) : Journal × Except Fault ScanReport :=
  let cache := if config.useCache then some ResultCache.empty else none
  let opening := openJournal config occasion.day disk
  scanAndRecord settings workers occasion.now disk opening none cache 0 files ⟨[], none, []⟩

/-! ## Printing -/

/-- One row of the table of a file. -/
def candidateRow (showSource : Bool) (c : Candidate) : List Text :=
  let lines := toString c.startLine ++ "-" ++ toString c.endLine
  let row := [Text.ofString lines, Text.ofString c.origin.name, Text.ofString c.disposition.name,
    escapeMarkup (List.intercalate (Text.ofString "\n\n") c.statements)]
  if showSource then row ++ [escapeMarkup (Text.ofString c.content)] else row

def candidateColumns (showSource : Bool) : List String :=
  ["Lines", "Origin", "Disposition", "SQL"] ++ if showSource then ["Source"] else []

/-- How the result of a file is printed: what went wrong, that there is nothing, or a table. -/
def printResult (showSource : Bool) (r : ScanResult) : Printed :=
  let file := escapeMarkup (Text.ofString r.filePath)
  match r.error with
  | some e =>
    .markup (Text.ofString "[red]" ++ file ++ Text.ofString ": " ++ escapeMarkup (Text.ofString e)
      ++ Text.ofString "[/red]")
  | none =>
    if r.candidates = [] then
      .markup (Text.ofString "[dim]" ++ file ++ Text.ofString ": no SQL found[/dim]")
    else
      .table file (candidateColumns showSource) (r.candidates.map (candidateRow showSource))

/-- Everything that a scan prints. -/
def printReport (request : ScanRequest) (report : ScanReport) : List Printed :=
  if request.asJson then
    [.verbatim (Text.ofString (Json.arr (report.results.map ScanResult.toJson)).toPage)]
  else report.results.map (printResult request.showSource) ++ [.markup report.summary]

/-! ## The command -/

/-- The disk after a run: the store and the journal are written. -/
def writeBack (config : Config) (occasion : Occasion) (j : Journal) (disk : Disk) : Disk :=
  let disk := match j.connection with
    | some c => disk.write config.storePath (.store c.store)
    | none => disk
  appendJournal config occasion.day j.lines disk

/-- The outcome of a run. -/
def scanOutcome (config : Config) (occasion : Occasion) (request : ScanRequest) (disk : Disk) :
    Journal × Except Fault ScanReport → Outcome
  | (j, .error e) => .ofFault (writeBack config occasion j disk) j.lines e
  | (j, .ok report) =>
    { exitCode := if report.errorCount = 0 then 0 else 1
      printed := printReport request report
      journal := j.lines
      disk := writeBack config occasion j disk
      fault := none }

/-- Scan the files below paths at each of which there is something, by the rules. -/
def scanByRules (config : Config) (workerFault : Option String) (occasion : Occasion)
    (request : ScanRequest) (rules : RuleSet) (disk : Disk) : Outcome :=
  let settings := config.settings rules
  let workers : Workers := ⟨request.workers.getD config.workers, workerFault⟩
  match collectFiles disk config.fileGlob request.paths with
  | .error e => .ofFault disk [] (.find e)
  | .ok files =>
    match ensureDirectories config disk with
    | .error e => .ofFault disk [] (.directory e)
    | .ok disk =>
      if request.useStore then
        match openStore disk config.storePath with
        | .error e => .ofFault disk [] (.store e)
        | .ok c =>
          scanOutcome config occasion request disk
            (scanWithStore config settings workers occasion disk request.paths files c)
      else
        scanOutcome config occasion request disk
          (scanWithoutStore config settings workers occasion disk files)

/-- Scan files for embedded statements. -/
def scanCommand (config : Config) (workerFault : Option String) (occasion : Occasion)
    (request : ScanRequest) (disk : Disk) : Outcome :=
  match missingPaths disk request.paths with
  | .error e => .ofFault disk [] (.tooLong e)
  | .ok [] =>
    match loadRulesOr disk (request.rulesPath.getD config.rulesPath) with
    | .error outcome => outcome
    | .ok rules => scanByRules config workerFault occasion request rules disk
  | .ok missing =>
    .ofMarkup disk 2
      (Text.ofString "[red]Path not found:[/red] " ++ escapeMarkup (Text.ofString (rootText missing)))

end EmbeddedSql
