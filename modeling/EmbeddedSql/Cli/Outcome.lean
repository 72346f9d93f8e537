/-
# What a command comes to

A command prints texts and tables, leaves a file tree behind, and ends with an exit code; some faults
it does not handle but ends with.  The stores of the tree are files like any other.

A console without colors shows texts without their markup, and a table as its title, its headers and
one line for each row.
-/
import EmbeddedSql.Cli.Markup
import EmbeddedSql.Cli.Occasion
import EmbeddedSql.Config
import EmbeddedSql.Files.Discovery
import EmbeddedSql.Journal.Basic
import EmbeddedSql.Rules.File
import EmbeddedSql.Scan.Files

namespace EmbeddedSql

/-- Something printed: a text with markup, a text as it is, or a table with markup in its cells. -/
inductive Printed where
  | markup (t : Text)
  | verbatim (t : Text)
  | table (title : Text) (columns : List String) (rows : List (List Text))
deriving DecidableEq, Repr

/-! ## A plain console -/

/-- A text as a string; the replacement character stands for a lone surrogate. -/
def Text.legible (t : Text) : String :=
  String.ofList (t.map fun p => match p with
    | .char c => c
    | .surrogate _ => '\uFFFD')

namespace Printed

/-- One line of a table. -/
def rowText (cells : List String) : String := " | ".intercalate cells

/-- What a plain console shows. -/
def toText : Printed → String
  | markup t => (plainMarkup t).legible
  | verbatim t => t.legible
  | table title columns rows =>
    let lines := rows.map fun row => rowText (row.map fun cell => (plainMarkup cell).legible)
    "\n".intercalate ((plainMarkup title).legible :: rowText columns :: lines)

end Printed

/-! ## Faults -/

/-- Why a directory cannot be made: a file is in its place. -/
structure DirectoryError where
  path : Path
deriving DecidableEq, Repr

def DirectoryError.message (e : DirectoryError) : String :=
  "[Errno 17] File exists: " ++ quoted e.path.toText

/-- Why a journal cannot be opened: a directory is in its place. -/
structure JournalError where
  path : Path
deriving DecidableEq, Repr

def JournalError.message (e : JournalError) : String :=
  "[Errno 21] Is a directory: " ++ quoted e.path.toText

/-- Faults that a command ends with. -/
inductive Fault where
  | tooLong (e : PathTooLong)
  | find (e : FindError)
  | scan (e : ScanError)
  | store (e : StoreError)
  | rules (path : Path) (e : RuleFileError)
  | directory (e : DirectoryError)
  | journal (e : JournalError)

def Fault.message : Fault → String
  | tooLong e => e.message
  | find e => e.message
  | scan e => e.message
  | store e => e.message
  | rules path e => e.message path
  | directory e => e.message
  | journal e => e.message

/-! ## Outcomes -/

/-- A file tree with stores in it. -/
abbrev Disk := Node Store

structure Outcome where
  exitCode : Nat
  printed : List Printed
  /-- The lines that were added to the journal. -/
  journal : List String
  disk : Disk
  fault : Option Fault

namespace Outcome

/-- End with an exit code after printing one text with markup. -/
def ofMarkup (disk : Disk) (exitCode : Nat) (t : Text) : Outcome :=
  ⟨exitCode, [.markup t], [], disk, none⟩

/-- End with a fault. -/
def ofFault (disk : Disk) (journal : List String) (fault : Fault) : Outcome :=
  ⟨1, [], journal, disk, some fault⟩

end Outcome

/-- The rules of the file at a path, or how the command ends without them. -/
def loadRulesOr (disk : Disk) (path : Path) : Except Outcome RuleSet :=
  match loadRules disk path with
  | .ok rules => .ok rules
  | .error (.refused reason) =>
    .error (.ofMarkup disk 2
      (Text.ofString "[red]Rules error:[/red] " ++ escapeText (reason.message path)))
  | .error e => .error (.ofFault disk [] (.rules path e))
where
  escapeText (s : String) : Text := escapeMarkup (Text.ofString s)

/-- Open the store at a path, a new one if nothing is there.  A file of a single byte counts as empty. -/
def openStore (disk : Disk) (path : Path) : Except StoreError Connection :=
  match disk.lookUp path with
  | .ok (.store s) => Connection.connect s
  | .ok (.file []) | .ok (.file [_]) | .error .missing => Connection.connect .empty
  | .ok (.file _) => .error .notADatabase
  | .ok (.directory _) | .error _ => .error .cannotOpen

end EmbeddedSql
