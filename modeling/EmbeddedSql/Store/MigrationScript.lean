/-
# Scripts of the migrations

The changes of a version are written down as a script.  It is cut into statements, each of which makes
one change of the schema:

| statement | change |
| :-- | :-- |
| `CREATE TABLE IF NOT EXISTS t (..)` | `createTable` |
| `CREATE INDEX IF NOT EXISTS i ON t (..)` | `createIndex` |
| `ALTER TABLE t ADD COLUMN c ..` | `addColumn` |

Of a column its name and its standard value are read.  A standard value that has to be worked out for
each row counts as none.
-/
import EmbeddedSql.Store.Migration
import EmbeddedSql.Store.Script

namespace EmbeddedSql

/-- A version with the script that leads to it. -/
structure MigrationScript where
  version : Int
  text : String
deriving DecidableEq, Repr

def firstScript : MigrationScript where
  version := 1
  text := "
        CREATE TABLE IF NOT EXISTS scan_runs (
            id TEXT PRIMARY KEY,
            root TEXT NOT NULL,
            started_at TEXT NOT NULL DEFAULT (datetime('now')),
            ended_at TEXT,
            status TEXT NOT NULL DEFAULT 'running',
            file_count INTEGER NOT NULL DEFAULT 0,
            finding_count INTEGER NOT NULL DEFAULT 0,
            error_count INTEGER NOT NULL DEFAULT 0
        );

        CREATE TABLE IF NOT EXISTS scanned_files (
            file_path TEXT NOT NULL,
            content_hash TEXT NOT NULL,
            run_id TEXT NOT NULL REFERENCES scan_runs(id),
            error TEXT,
            scanned_at TEXT NOT NULL DEFAULT (datetime('now')),
            PRIMARY KEY (file_path, content_hash)
        );

        CREATE TABLE IF NOT EXISTS findings (
            id TEXT PRIMARY KEY,
            run_id TEXT NOT NULL REFERENCES scan_runs(id),
            file_path TEXT NOT NULL,
            content_hash TEXT NOT NULL,
            ordinal INTEGER NOT NULL,
            start_line INTEGER NOT NULL,
            end_line INTEGER NOT NULL CHECK(end_line >= start_line),
            origin TEXT NOT NULL,
            disposition TEXT NOT NULL,
            text TEXT NOT NULL
        );

        CREATE TABLE IF NOT EXISTS event_log (
            id TEXT PRIMARY KEY,
            run_id TEXT,
            event_type TEXT NOT NULL,
            data TEXT NOT NULL DEFAULT '\x7b\x7d' CHECK(json_valid(data)),
            duration_ms INTEGER,
            created_at TEXT NOT NULL DEFAULT (datetime('now'))
        );

        CREATE INDEX IF NOT EXISTS idx_findings_file ON findings(file_path, content_hash);
        CREATE INDEX IF NOT EXISTS idx_findings_run ON findings(run_id);
        CREATE INDEX IF NOT EXISTS idx_log_run ON event_log(run_id);
        CREATE INDEX IF NOT EXISTS idx_log_type ON event_log(event_type);
        "

def secondScript : MigrationScript where
  version := 2
  text := "
        ALTER TABLE findings ADD COLUMN statements TEXT NOT NULL DEFAULT '[]'
            CHECK(json_valid(statements));
        ALTER TABLE findings ADD COLUMN content TEXT NOT NULL DEFAULT '';
        "

/-- All scripts, in order. -/
def migrationScripts : List MigrationScript := [firstScript, secondScript]

/-! ## Reading statements -/

/-- A part of a statement: a word, a text in quotes, or a mark. -/
inductive SqlToken where
  | word (letters : List Char)
  | quoted (text : List Char)
  | mark (c : Char)
deriving DecidableEq, Repr

namespace SqlToken

/-- A word that has come to its end, if there is one. -/
def ended (letters : List Char) : List SqlToken := if letters.isEmpty then [] else [word letters]

/-- The tokens of a statement, where `open?` is the text in quotes that has begun, if one has, and
`letters` is what there is of a word. -/
def read (open? : Option (List Char)) (letters : List Char) : List Char → List SqlToken
  | [] => ended letters
  | c :: rest =>
    match open? with
    | some text =>
      if c == '\'' then quoted text :: read none [] rest else read (some (text ++ [c])) [] rest
    | none =>
      if Script.isScriptWordChar c then read none (letters ++ [c]) rest
      else
        ended letters ++
          (if c == '\'' then read (some []) [] rest
          else if isBlank c then read none [] rest
          else mark c :: read none [] rest)

/-- Is this the word? -/
def isWord (text : String) : SqlToken → Bool
  | word letters => letters == text.toList
  | _ => false

/-- The parts between commas up to the parenthesis that closes them, `depth` parentheses further in;
`part` is what there is of the first one. -/
def parts (depth : Nat) (part : List SqlToken) : List SqlToken → List (List SqlToken)
  | [] => [part]
  | t :: rest =>
    if t = mark '(' then parts (depth + 1) (part ++ [t]) rest
    else if t = mark ')' then
      if depth = 0 then [part] else parts (depth - 1) (part ++ [t]) rest
    else if t = mark ',' ∧ depth = 0 then part :: parts depth [] rest
    else parts depth (part ++ [t]) rest

/-- The standard value that a definition names. -/
def standard : List SqlToken → Cell
  | [] => .null
  | t :: rest =>
    if t.isWord "DEFAULT" then
      match rest with
      | quoted text :: _ => .text (String.ofList text)
      | word digits :: _ => .int (digits.foldl (fun n d => 10 * n + (d.toNat - '0'.toNat)) 0 : Nat)
      | _ => .null
    else standard rest

/-- The column that a definition in a table defines, unless it is a key. -/
def column? : List SqlToken → Option Column
  | word name :: rest =>
    if name = "PRIMARY".toList then none else some ⟨String.ofList name, standard rest⟩
  | _ => none

/-- The name that a part is. -/
def name? : List SqlToken → Option String
  | [word name] => some (String.ofList name)
  | _ => none

/-- The change that the tokens of a statement stand for. -/
def change? : List SqlToken → Option SchemaChange
  | verb :: kind :: first :: second :: third :: word name :: rest =>
    if verb.isWord "CREATE" && kind.isWord "TABLE" && first.isWord "IF" && second.isWord "NOT"
        && third.isWord "EXISTS" then
      some (.createTable (String.ofList name) ((parts 0 [] (rest.drop 1)).filterMap column?))
    else if verb.isWord "CREATE" && kind.isWord "INDEX" && first.isWord "IF" && second.isWord "NOT"
        && third.isWord "EXISTS" then
      match rest with
      | _ :: word table :: rest =>
        some (.createIndex ⟨String.ofList name, String.ofList table,
          (parts 0 [] (rest.drop 1)).filterMap name?⟩)
      | _ => none
    else if verb.isWord "ALTER" && kind.isWord "TABLE" && second.isWord "ADD"
        && third.isWord "COLUMN" then
      match first with
      | word table => (column? (word name :: rest)).map (.addColumn (String.ofList table))
      | _ => none
    else none
  | _ => none

end SqlToken

/-- The change that a statement makes, by its characters. -/
def readChange? (statement : List Char) : Option SchemaChange :=
  SqlToken.change? (SqlToken.read none [] statement)

namespace MigrationScript

/-- The migration that a script writes down, if it can be cut and all of its statements can be read. -/
def migration? (script : MigrationScript) : Option Migration :=
  (statementsOf script.text).toOption.bind fun statements =>
    (statements.mapM fun statement => readChange? statement.toList).map (⟨script.version, ·⟩)

/-- It is found by the characters of the script.  They are asked for in this way because those of a
literal can be read off it, where working them out with `toList` takes long. -/
theorem migration?_eq_some {script : MigrationScript} {changes : List SchemaChange}
    (h : ∃ cs, script.text = String.ofList cs ∧ cs.contains '\x00' = false ∧
      (Script.cutLines [] (Script.linesFrom [] cs)).mapM readChange? = some changes) :
    script.migration? = some ⟨script.version, changes⟩ := by
  obtain ⟨cs, htext, hnull, hchanges⟩ := h
  have hstatements : statementsOf script.text =
      .ok ((Script.cutLines [] (Script.linesFrom [] cs)).map String.ofList) := by
    simp only [statementsOf, htext, String.toList_ofList, hnull, Bool.false_eq_true, if_false]
  have hread : ((Script.cutLines [] (Script.linesFrom [] cs)).map String.ofList).mapM
      (fun statement => readChange? statement.toList) = some changes := by
    simp only [List.mapM_map, Function.comp_def, String.toList_ofList, hchanges]
  rw [migration?, hstatements]
  show Option.map _ (List.mapM _ _) = _
  rw [hread, Option.map_some]

end MigrationScript

set_option maxRecDepth 10000 in
/-- The scripts write down the migrations. -/
theorem migration?_migrationScripts :
    migrationScripts.map MigrationScript.migration? = migrations.map some := by
  have hfirst : firstScript.migration? = some firstVersion :=
    MigrationScript.migration?_eq_some ⟨_, rfl, by decide +kernel, by decide +kernel⟩
  have hsecond : secondScript.migration? = some secondVersion :=
    MigrationScript.migration?_eq_some ⟨_, rfl, by decide +kernel, by decide +kernel⟩
  rw [migrationScripts, migrations, List.map_cons, List.map_cons, hfirst, hsecond]
  rfl

end EmbeddedSql
