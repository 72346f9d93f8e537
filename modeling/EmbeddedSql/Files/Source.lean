/-
# Reading source files

Source files are read as UTF-8, each stretch of bytes that is no UTF-8 as one replacement character,
and every kind of line end becomes a newline.
-/
import EmbeddedSql.Files.Tree
import EmbeddedSql.Text.Quoted

namespace EmbeddedSql

/-- Why a file cannot be read. -/
inductive ReadError where
  | missing
  | notADirectory
  | isADirectory
  | nameTooLong
  | holdsNul
deriving DecidableEq, Repr

namespace ReadError

def ofLookup : LookupError → ReadError
  | .missing => missing
  | .notADirectory => notADirectory
  | .nameTooLong => nameTooLong
  | .holdsNul => holdsNul

/-- What an error means, with its number if the file system found it. -/
def reason : ReadError → String
  | missing => "[Errno 2] No such file or directory"
  | notADirectory => "[Errno 20] Not a directory"
  | isADirectory => "[Errno 21] Is a directory"
  | nameTooLong => "[Errno 36] File name too long"
  | holdsNul => "embedded null byte"

/-- The message names the path, unless that is no path at all. -/
def message (e : ReadError) (path : Path) : String :=
  match e with
  | holdsNul => e.reason
  | _ => e.reason ++ ": " ++ quoted path.toText

end ReadError

def PathTooLong.message (e : PathTooLong) : String := ReadError.nameTooLong.message e.path

variable {σ : Type}

namespace Node

/-- The bytes of the file at a path.  A store has none to show. -/
def readBytes (tree : Node σ) (path : Path) : Except ReadError Bytes :=
  match tree.lookUp path with
  | .ok (.file bytes) => .ok bytes
  | .ok (.store _) => .ok []
  | .ok (.directory _) => .error .isADirectory
  | .error e => .error (.ofLookup e)

/-- The source text of the file at a path. -/
def readSource (tree : Node σ) (path : Path) : Except ReadError String :=
  (tree.readBytes path).map fun bytes => String.ofList (unifyLineEnds (Utf8.decodeLossy bytes))

end Node

end EmbeddedSql
