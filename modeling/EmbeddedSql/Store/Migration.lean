/-
# Migrations

The schema has versions, and each version is reached from the one before by a list of changes.  A
database says which version it has; bringing it up to date makes the changes of every later version
in turn.  The changes of a version are made together with the new number or not at all, so a fault
leaves the database as the last complete version has it.
-/
import EmbeddedSql.Store.Database

namespace EmbeddedSql

/-- The changes that lead to a version. -/
structure Migration where
  version : Int
  changes : List SchemaChange
deriving DecidableEq, Repr

/-- A column without a standard value. -/
def bare (name : String) : Column := ⟨name, .null⟩

/-- The first version: runs, scanned files, findings and events. -/
def firstVersion : Migration where
  version := 1
  changes :=
    [.createTable "scan_runs"
        [bare "id", bare "root", bare "started_at", bare "ended_at", ⟨"status", .text "running"⟩,
          ⟨"file_count", .int 0⟩, ⟨"finding_count", .int 0⟩, ⟨"error_count", .int 0⟩],
      .createTable "scanned_files"
        (["file_path", "content_hash", "run_id", "error", "scanned_at"].map bare),
      .createTable "findings"
        (["id", "run_id", "file_path", "content_hash", "ordinal", "start_line", "end_line",
          "origin", "disposition", "text"].map bare),
      .createTable "event_log"
        [bare "id", bare "run_id", bare "event_type", ⟨"data", .text "\x7b\x7d"⟩,
          bare "duration_ms", bare "created_at"],
      .createIndex ⟨"idx_findings_file", "findings", ["file_path", "content_hash"]⟩,
      .createIndex ⟨"idx_findings_run", "findings", ["run_id"]⟩,
      .createIndex ⟨"idx_log_run", "event_log", ["run_id"]⟩,
      .createIndex ⟨"idx_log_type", "event_log", ["event_type"]⟩]

/-- The second version: findings list their statements and hold their source lines. -/
def secondVersion : Migration where
  version := 2
  changes :=
    [.addColumn "findings" ⟨"statements", .text "[]"⟩, .addColumn "findings" ⟨"content", .text ""⟩]

/-- All versions, in order. -/
def migrations : List Migration := [firstVersion, secondVersion]

namespace Database

/-- Make the changes of one version, and take its number. -/
def advance (db : Database) (m : Migration) : Except SchemaError Database :=
  (db.changeAll m.changes).map fun db => { db with version := m.version }

/-- Bring a database through those of the versions that are later than its own.  Gives the database
and the versions that were reached, or the fault that stopped it and how far it came. -/
def migrateBy (db : Database) : List Migration → Database × Except SchemaError (List Int)
  | [] => (db, .ok [])
  | m :: rest =>
    if m.version ≤ db.version then migrateBy db rest
    else
      match db.advance m with
      | .error e => (db, .error e)
      | .ok db =>
        let (db, applied) := migrateBy db rest
        (db, applied.map (m.version :: ·))

/-- Bring a database up to date. -/
def migrate (db : Database) : Database × Except SchemaError (List Int) := db.migrateBy migrations

end Database

end EmbeddedSql
