/-
# Archives

Between two uses a store is kept as an archive: a JSON object with the version of the schema and, for
each kind of record, the array of its records, oldest first.  A record is the array of its values.
Only archives of the present version are read.  The main statement is that a store whose schema is up
to date is read back from its archive as it was.
-/
import EmbeddedSql.Store.Basic

namespace EmbeddedSql

/-! ## Values -/

namespace Json

def string? : Json → Option String
  | .str t => t.toString?
  | _ => none

def int? : Json → Option Int
  | .int n => some n
  | _ => none

def nat? : Json → Option Nat
  | .int (.ofNat n) => some n
  | _ => none

variable {α : Type}

/-- Null stands for a value that is missing. -/
def optional? (read : Json → Option α) : Json → Option (Option α)
  | .null => some none
  | v => (read v).map some

/-- The items of an array, if all of them can be read. -/
def items? (read : Json → Option α) : Json → Option (List α)
  | .arr items => items.mapM read
  | _ => none

@[simp]
theorem string?_ofString (s : String) : (ofString s).string? = some s := by
  simp [ofString, string?]

@[simp]
theorem nat?_int (n : Nat) : (Json.int n).nat? = some n := rfl

@[simp]
theorem int?_int (n : Int) : (Json.int n).int? = some n := rfl

@[simp]
theorem optional?_string (s : Option String) : (ofOption ofString s).optional? string? = some s := by
  cases s with
  | none => rfl
  | some s => simp [ofOption, optional?, ofString, string?]

@[simp]
theorem optional?_int (n : Option Int) : (ofOption .int n).optional? int? = some n := by
  cases n <;> rfl

/-- An array of values is read back if every value is. -/
theorem items?_map {write : α → Json} {read : Json → Option α} (h : ∀ a, read (write a) = some a)
    (xs : List α) : (Json.arr (xs.map write)).items? read = some xs := by
  induction xs with
  | nil => rfl
  | cons x xs ih =>
    simp only [items?] at ih
    simp [items?, h, ih]

end Json

/-! ## Records -/

namespace Run

def toJson (r : Run) : Json :=
  .arr [.ofString r.id, .ofString r.root, .ofString r.startedAt,
    .ofOption Json.ofString r.endedAt, .ofString r.status.name, .int r.fileCount,
    .int r.findingCount, .int r.errorCount]

def ofJson? : Json → Option Run
  | .arr [id, root, startedAt, endedAt, status, fileCount, findingCount, errorCount] => do
    return {
      id := ← id.string?
      root := ← root.string?
      startedAt := ← startedAt.string?
      endedAt := ← endedAt.optional? Json.string?
      status := ← status.string?.bind RunStatus.ofName?
      fileCount := ← fileCount.nat?
      findingCount := ← findingCount.nat?
      errorCount := ← errorCount.nat? }
  | _ => none

theorem ofJson?_toJson (r : Run) : ofJson? r.toJson = some r := by
  simp [toJson, ofJson?]

end Run

namespace ScannedFile

def toJson (f : ScannedFile) : Json :=
  .arr [.ofString f.filePath, .ofString f.contentHash, .ofString f.runId,
    .ofOption Json.ofString f.error]

def ofJson? : Json → Option ScannedFile
  | .arr [filePath, contentHash, runId, error] => do
    return ⟨← filePath.string?, ← contentHash.string?, ← runId.string?,
      ← error.optional? Json.string?⟩
  | _ => none

theorem ofJson?_toJson (f : ScannedFile) : ofJson? f.toJson = some f := by
  simp [toJson, ofJson?]

end ScannedFile

namespace Finding

def toJson (f : Finding) : Json :=
  .arr [.ofString f.runId, .ofString f.filePath, .ofString f.contentHash, .int f.ordinal,
    .int f.startLine, .int f.endLine, .ofString f.origin.name, .ofString f.disposition.name,
    .ofString f.text, .ofString f.statements, .ofString f.content]

def ofJson? : Json → Option Finding
  | .arr [runId, filePath, contentHash, ordinal, startLine, endLine, origin, disposition, text,
      statements, content] => do
    return {
      runId := ← runId.string?
      filePath := ← filePath.string?
      contentHash := ← contentHash.string?
      ordinal := ← ordinal.nat?
      startLine := ← startLine.int?
      endLine := ← endLine.int?
      origin := ← origin.string?.bind Origin.ofName?
      disposition := ← disposition.string?.bind Disposition.ofName?
      text := ← text.string?
      statements := ← statements.string?
      content := ← content.string? }
  | _ => none

theorem ofJson?_toJson (f : Finding) : ofJson? f.toJson = some f := by
  simp [toJson, ofJson?]

end Finding

namespace Event

def toJson (e : Event) : Json :=
  .arr [.ofOption Json.ofString e.runId, .ofString e.eventType, .ofString e.data,
    .ofOption .int e.duration]

def ofJson? : Json → Option Event
  | .arr [runId, eventType, data, duration] => do
    return ⟨← runId.optional? Json.string?, ← eventType.string?, ← data.string?,
      ← duration.optional? Json.int?⟩
  | _ => none

theorem ofJson?_toJson (e : Event) : ofJson? e.toJson = some e := by
  simp [toJson, ofJson?]

end Event

/-! ## Stores -/

namespace Store

/-- The schema of the present version. -/
def presentSchema : Database := Database.empty.migrate.1

/-- A store as an archive. -/
def toJson (s : Store) : Json :=
  .obj [("version", .int s.schema.version), ("runs", .arr (s.runs.map Run.toJson)),
    ("files", .arr (s.files.map ScannedFile.toJson)),
    ("findings", .arr (s.findings.map Finding.toJson)),
    ("events", .arr (s.events.map Event.toJson))]

/-- The store that an archive of the present version describes. -/
def ofJson? : Json → Option Store
  | .obj [(_, .int version), (_, runs), (_, files), (_, findings), (_, events)] =>
    if version = presentSchema.version then do
      return {
        schema := presentSchema
        runs := ← runs.items? Run.ofJson?
        files := ← files.items? ScannedFile.ofJson?
        findings := ← findings.items? Finding.ofJson?
        events := ← events.items? Event.ofJson? }
    else none
  | _ => none

/-- A store whose schema is up to date is read back from its archive. -/
theorem ofJson?_toJson {s : Store} (h : s.schema = presentSchema) : ofJson? s.toJson = some s := by
  obtain ⟨schema, runs, files, findings, events⟩ := s
  simp only at h
  subst h
  simp [toJson, ofJson?, Json.items?_map Run.ofJson?_toJson,
    Json.items?_map ScannedFile.ofJson?_toJson, Json.items?_map Finding.ofJson?_toJson,
    Json.items?_map Event.ofJson?_toJson]

/-- The text in which a store is kept. -/
def archive (s : Store) : String := s.toJson.toLine

/-- The store that is kept in a text. -/
def ofArchive? (text : List Char) : Option Store :=
  match Json.read text with
  | .ok v => ofJson? v
  | .error _ => none

end Store

end EmbeddedSql
