/-
# The store

The store keeps runs, scanned files, findings and events in the order in which they came, on top of
a database schema that is brought up to date when the store is opened.  Saving a result replaces what
was stored for the same path and content, in one piece: it is saved as a whole, or the store stays
as it was.
-/
import EmbeddedSql.Store.Migration
import EmbeddedSql.Store.Record

namespace EmbeddedSql

/-- What the store refuses. -/
inductive StoreError where
  | closed
  | noRun
  | unknownStatus (name : String)
  | unknownRun
  | runMissing
  | endBeforeStart
  | hugeNumber
  | loneSurrogate (text : Text)
  | notADatabase
  | cannotOpen
  | schema (e : SchemaError)
deriving DecidableEq

/-- How many lone surrogates stand in a row from the first one on, with the place of that one. -/
def surrogateRun (t : Text) : Nat × List CodePoint :=
  let isHalf : CodePoint → Bool := fun p => match p with
    | .surrogate _ => true
    | .char _ => false
  let before := t.takeWhile fun p => !isHalf p
  (before.length, (t.drop before.length).takeWhile isHalf)

/-- The message for a text that cannot be encoded. -/
def surrogateMessage (t : Text) : String :=
  let place :=
    match surrogateRun t with
    | (n, [p]) =>
      "character '\\u" ++ String.ofList (Quoted.hex 4 p.val) ++ "' in position " ++ toString n
    | (n, run) => "characters in position " ++ toString n ++ "-" ++ toString (n + run.length - 1)
  "'utf-8' codec can't encode " ++ place ++ ": surrogates not allowed"

def StoreError.message : StoreError → String
  | closed => "Cannot operate on a closed database."
  | noRun => ""
  | unknownStatus name => quoted name ++ " is not a valid RunStatus"
  | unknownRun => "FOREIGN KEY constraint failed"
  | runMissing => "NOT NULL constraint failed: scanned_files.run_id"
  | endBeforeStart => "CHECK constraint failed: end_line >= start_line"
  | hugeNumber => "Python int too large to convert to SQLite INTEGER"
  | loneSurrogate text => surrogateMessage text
  | notADatabase => "file is not a database"
  | cannotOpen => "unable to open database file"
  | schema e => e.message

structure Store where
  schema : Database
  runs : List Run
  files : List ScannedFile
  findings : List Finding
  events : List Event
deriving DecidableEq, Repr

/-- Integers of 64 bits. -/
def isWord64 (n : Int) : Bool := -9223372036854775808 ≤ n && n < 9223372036854775808

namespace Store

/-- A store without anything in it. -/
def empty : Store := ⟨.empty, [], [], [], []⟩

/-- Bring the schema up to date. -/
def migrate (s : Store) : Store × Except StoreError (List Int) :=
  let (schema, applied) := s.schema.migrate
  ({ s with schema }, match applied with
    | .ok versions => .ok versions
    | .error e => .error (.schema e))

/-! ## Runs -/

def run? (s : Store) (id : String) : Option Run := s.runs.find? (·.id == id)

/-- Start a run, unless there is one of this identity.  A run needs a root. -/
def createRun (s : Store) (now id : String) (root : Option String) :
    Except StoreError (Run × Store) :=
  match s.run? id, root with
  | some run, _ => .ok (run, s)
  | none, none => .error .noRun
  | none, some root =>
    let run : Run := ⟨id, root, now, none, .running, 0, 0, 0⟩
    .ok (run, { s with runs := s.runs ++ [run] })

/-- A run with the counts of what the store holds under it. -/
def countRun (s : Store) (run : Run) : Run :=
  let files := s.files.filter (·.runId == run.id)
  { run with
    fileCount := files.length
    findingCount := s.findings.countP (·.runId == run.id)
    errorCount := files.countP (·.error.isSome) }

/-- Finish a run: it gets a status and the counts of the moment. -/
def finishRun (s : Store) (now id : String) (status : RunStatus) :
    Except StoreError (Run × Store) :=
  let finish (run : Run) : Run := { s.countRun run with endedAt := some now, status }
  let s := { s with runs := s.runs.map fun run => if run.id == id then finish run else run }
  match s.run? id with
  | some run => .ok (run, s)
  | none => .error .noRun

/-- The latest runs, newest first; a negative limit asks for all. -/
def listRuns (s : Store) (limit : Int) : Except StoreError (List Run) :=
  if !isWord64 limit then .error .hugeNumber
  else if limit < 0 then .ok s.runs.reverse
  else .ok (s.runs.reverse.take limit.toNat)

/-! ## Results -/

/-- A candidate as a finding. -/
def findingOf (runId filePath contentHash : String) (ordinal : Nat) (c : Candidate) :
    Except StoreError Finding :=
  if !isWord64 c.startLine || !isWord64 c.endLine then .error .hugeNumber
  else
    match c.text.toString? with
    | none => .error (.loneSurrogate c.text)
    | some text =>
      if c.endLine < c.startLine then .error .endBeforeStart
      else
        .ok
          { runId, filePath, contentHash, ordinal
            startLine := c.startLine
            endLine := c.endLine
            origin := c.origin
            disposition := c.disposition
            text
            statements := encodeStatements c.statements
            content := c.content }

/-- Candidates as findings, numbered from `ordinal` on. -/
def findingsOf (runId filePath contentHash : String) (ordinal : Nat) :
    List Candidate → Except StoreError (List Finding)
  | [] => .ok []
  | c :: rest => do
    let f ← findingOf runId filePath contentHash ordinal c
    let fs ← findingsOf runId filePath contentHash (ordinal + 1) rest
    return f :: fs

/-- Save the result of a file under a run, in place of what is stored for the same path and content.
A result without a content digest is passed over. -/
def save (s : Store) (runId : Option String) (r : ScanResult) : Except StoreError Store :=
  match r.contentHash, runId with
  | none, _ => .ok s
  | some _, none => .error .runMissing
  | some hash, some runId =>
    match s.run? runId with
    | none => .error .unknownRun
    | some _ => do
      let added ← findingsOf runId r.filePath hash 0 r.candidates
      let other (filePath contentHash : String) : Bool :=
        !(filePath == r.filePath && contentHash == hash)
      return { s with
        files := s.files.filter (fun f => other f.filePath f.contentHash)
          ++ [⟨r.filePath, hash, runId, r.error⟩]
        findings := s.findings.filter (fun f => other f.filePath f.contentHash) ++ added }

def scannedFile? (s : Store) (filePath contentHash : String) : Option ScannedFile :=
  s.files.find? fun f => f.filePath == filePath && f.contentHash == contentHash

/-- What findings are asked for: those of a run, of a path, of a content, or of several of these. -/
structure FindingQuery where
  runId : Option String
  filePath : Option String
  contentHash : Option String

/-- Does a value agree with one that is asked for, if one is? -/
def agrees (asked : Option String) (value : String) : Bool :=
  match asked with
  | none => true
  | some s => value == s

def FindingQuery.selects (q : FindingQuery) (f : Finding) : Bool :=
  agrees q.runId f.runId && agrees q.filePath f.filePath && agrees q.contentHash f.contentHash

/-- The findings that are asked for, by path and in their order within a file.  Of one place, those of a
run come as they were saved, and those of all runs by their content. -/
def listFindings (s : Store) (q : FindingQuery) : List Finding :=
  (s.findings.filter q.selects).mergeSort (Finding.precedes q.runId.isNone)

/-- The stored result for a path and a content, if there is one without an error. -/
def cached? (s : Store) (filePath contentHash : String) : Option ScanResult :=
  match s.scannedFile? filePath contentHash with
  | none => none
  | some f =>
    if f.error.isSome then none
    else
      let found := s.listFindings ⟨none, some filePath, some contentHash⟩
      some ⟨filePath, found.map Finding.toCandidate, some contentHash, none⟩

/-! ## Events -/

/-- Store an event.  It needs a type, data that is JSON in the strict sense, and a duration of 64 bits;
missing data is an empty object. -/
def logEvent? (s : Store) (runId eventType : Option String) (data : Json) (duration : Option Int) :
    Option Store :=
  let data := if data.isVoid then .obj [] else data
  match eventType with
  | none => none
  | some eventType =>
    if data.isStrict && duration.all isWord64 then
      some { s with events := s.events ++ [⟨runId, eventType, data.toLine, duration⟩] }
    else none

/-- The events of a type, of a run, or of both. -/
def queryEvents (s : Store) (eventType runId : Option String) : List Event :=
  s.events.filter fun e =>
    agrees eventType e.eventType && (runId.isNone || e.runId == runId)

end Store

end EmbeddedSql
