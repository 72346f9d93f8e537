/-
# The journal

What happens is written to a journal, one line of JSON for each event, and then stored as an event if
there is a store.  The journal is what counts: an event that the store does not take is in the journal
all the same, and only a warning is given.

A timed event stands for a stretch of work.  Its data begin with a status, which tells whether the
work failed, and go on with what the work had to say.
-/
import EmbeddedSql.Store.Connection

namespace EmbeddedSql

/-- Something that happened. -/
structure Occurrence where
  runId : Option String
  eventType : Option String
  duration : Option Int
  data : Json

namespace Occurrence

/-- An event as a member of the journal. -/
def toJson (now : String) (e : Occurrence) : Json :=
  .obj [("timestamp", .ofString now), ("run_id", .ofOption Json.ofString e.runId),
    ("event_type", .ofOption Json.ofString e.eventType), ("duration_ms", .ofOption .int e.duration),
    ("data", e.data)]

/-- The event of a file that was scanned. -/
def ofResult (runId : Option String) (r : ScanResult) : Occurrence where
  runId
  eventType := some "scan.file"
  duration := none
  data := .obj
    [("file_path", .ofString r.filePath), ("content_hash", .ofOption Json.ofString r.contentHash),
      ("candidates", .int r.candidates.length), ("statements", .int r.statementCount),
      ("error", .ofOption Json.ofString r.error)]

/-- What the data of a timed event begin with. -/
def started : List (Text × Json) := [("status", .ofString "started")]

/-- What the data come to once the work has ended, with the reason if it failed. -/
def finished (context : List (Text × Json)) : Option String → List (Text × Json)
  | none => Json.putMember "status" (.ofString "success") context
  | some reason =>
    Json.putMember "error" (.ofString reason) (Json.putMember "status" (.ofString "error") context)

/-- The data of a timed event: what the work had to say, and how it ended. -/
def timedData (context : List (Text × Json)) (failure : Option String) : Json :=
  let context := context.foldl (fun acc (key, value) => Json.putMember key value acc) started
  .obj (finished context failure)

end Occurrence

/-- The journal with the store that events go to, if there is one, and the warnings given. -/
structure Journal where
  lines : List String
  connection : Option Connection
  warnings : List String

namespace Journal

/-- The warning for an event that the store did not take. -/
def warning (eventType : Option String) : String :=
  "WARNING: Failed to log event " ++ eventType.getD "None"

/-- Write an event to the journal, and store it if that is possible. -/
def record (j : Journal) (now : String) (e : Occurrence) : Journal :=
  let lines := j.lines ++ [(e.toJson now).toLine]
  match j.connection with
  | none => { j with lines }
  | some c =>
    match c.logEvent? e.runId e.eventType e.data e.duration with
    | some c => { j with lines, connection := some c }
    | none => { j with lines, warnings := j.warnings ++ [warning e.eventType] }

theorem lines_record (j : Journal) (now : String) (e : Occurrence) :
    (j.record now e).lines = j.lines ++ [(e.toJson now).toLine] := by
  unfold record
  dsimp only
  split
  · rfl
  · split <;> rfl

end Journal

end EmbeddedSql
