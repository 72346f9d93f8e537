/-
# The result of scanning a file

A scan gives the merged candidates of one file with the digest of its content, or says why there are
none.  `Settings` is what scans are run with.

Results are kept in memory by file path and content digest.  A file that changes has another key, so
nothing has to be thrown away; a key that has a result keeps it.
-/
import EmbeddedSql.Candidate.Merge
import EmbeddedSql.Flow.Placeholder
import EmbeddedSql.Rules.Basic

namespace EmbeddedSql

/-- What a scan is run with: the rules, the text between merged statements, and the template for
unknown values, with what it can show of the interpreter's objects. -/
structure Settings where
  rules : RuleSet
  separator : Text
  placeholder : String
  objects : Placeholder.Objects := .hidden

namespace Settings

def standard : Settings where
  rules := .standard
  separator := standardSeparator
  placeholder := standardPlaceholder

/-- The template for unknown values. -/
def template (settings : Settings) : Template := ⟨settings.placeholder, settings.objects⟩

end Settings

structure ScanResult where
  filePath : String
  candidates : List Candidate
  contentHash : Option String
  error : Option String
deriving DecidableEq

namespace ScanResult

def isOk (r : ScanResult) : Bool := r.error.isNone

/-- The result for a file that could not be scanned at all. -/
def failed (filePath error : String) : ScanResult := ⟨filePath, [], none, some error⟩

/-- A result as an entry of a report. -/
def toJson (r : ScanResult) : Json :=
  .obj [("file_path", .ofString r.filePath),
    ("sql_paragraphs", .arr (r.candidates.map Candidate.toJson)),
    ("error", .ofOption Json.ofString r.error)]

/-- The number of statements, counting each one that was merged. -/
def statementCount (r : ScanResult) : Nat :=
  (r.candidates.flatMap (·.statements)).length

end ScanResult

/-! ## Results kept in memory -/

/-- Results by file path and content digest, in the order in which they came. -/
abbrev ResultCache := List ((String × String) × ScanResult)

namespace ResultCache

def empty : ResultCache := []

def get? (cache : ResultCache) (filePath contentHash : String) : Option ScanResult :=
  cache.lookup (filePath, contentHash)

/-- Keep a result that has a digest and no error, unless its key is taken. -/
def put (cache : ResultCache) (r : ScanResult) : ResultCache :=
  match r.contentHash with
  | none => cache
  | some hash =>
    if r.isOk && (cache.get? r.filePath hash).isNone then cache ++ [((r.filePath, hash), r)]
    else cache

def size (cache : ResultCache) : Nat := cache.length

end ResultCache

end EmbeddedSql
