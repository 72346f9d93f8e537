/-
# Records of the store

A run is one scan of many files.  A scanned file is a path and a content digest, with the run that
scanned it last; its findings are its candidates, numbered in order.  Events tell what happened when.
-/
import EmbeddedSql.Json.Parser
import EmbeddedSql.Json.Printer
import EmbeddedSql.Scan.Result

namespace EmbeddedSql

inductive RunStatus where
  | running
  | done
  | error
deriving DecidableEq, Repr

namespace RunStatus

def name : RunStatus → String
  | running => "running"
  | done => "done"
  | error => "error"

def ofName? (s : String) : Option RunStatus := [running, done, error].find? fun r => r.name == s

@[simp]
theorem ofName?_name (r : RunStatus) : ofName? r.name = some r := by cases r <;> decide

end RunStatus

/-- A scan of many files.  The counts are those of the moment at which it was last finished. -/
structure Run where
  id : String
  root : String
  startedAt : String
  endedAt : Option String
  status : RunStatus
  fileCount : Nat
  findingCount : Nat
  errorCount : Nat
deriving DecidableEq, Repr

structure ScannedFile where
  filePath : String
  contentHash : String
  runId : String
  error : Option String
deriving DecidableEq, Repr

/-- A candidate as it is stored.  The statements are kept as a JSON array. -/
structure Finding where
  runId : String
  filePath : String
  contentHash : String
  ordinal : Nat
  startLine : Int
  endLine : Int
  origin : Origin
  disposition : Disposition
  text : String
  statements : String
  content : String
deriving DecidableEq, Repr

structure Event where
  runId : Option String
  eventType : String
  data : String
  duration : Option Int
deriving DecidableEq, Repr

/-! ## Statements as JSON -/

/-- Statements as the text of a JSON array. -/
def encodeStatements (statements : List Text) : String := (Json.arr (statements.map .str)).toLine

/-- The strings of a JSON array. -/
def Json.strings : Json → List Text
  | .arr items => items.filterMap fun item => match item with
    | .str t => some t
    | _ => none
  | _ => []

/-- The statements in the text of a JSON array. -/
def decodeStatements (text : String) : List Text :=
  match Json.read text.toList with
  | .ok v => v.strings
  | .error _ => []

namespace Finding

/-- A finding as a candidate again. -/
def toCandidate (f : Finding) : Candidate :=
  .ofParts (Text.ofString f.text) f.startLine f.endLine f.origin f.disposition
    (decodeStatements f.statements) f.content

/-- Findings come by path, and in their order within a file; where one path has several contents, these
may decide between findings of the same place. -/
def precedes (byContent : Bool) (f g : Finding) : Bool :=
  f.filePath < g.filePath || (f.filePath == g.filePath &&
    (f.ordinal < g.ordinal || (f.ordinal == g.ordinal &&
      (!byContent || f.contentHash ≤ g.contentHash))))

end Finding

end EmbeddedSql
