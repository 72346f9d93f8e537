/-
# Merging candidates

Candidates whose line ranges overlap or touch become one.  They are taken in the order of their first
lines, ties in the order of detection, and each is joined to the run before it or starts a new one;
since the end of a run only grows, one sweep is enough.

A statement that is repeated on *overlapping* lines is the same statement seen twice and is kept
once.  The same text on lines that merely touch is another statement and stays.
-/
import EmbeddedSql.Candidate.Basic

namespace EmbeddedSql

/-- The text between merged statements. -/
def standardSeparator : Text := "\n-- merged --\n"

namespace Candidate

/-- Does `next`, which starts no earlier, overlap or follow directly? -/
def touches (current next : Candidate) : Bool := next.startLine ≤ current.endLine + 1

/-- Statements after adding those of a later candidate, which `overlaps` or not. -/
def addStatements (overlaps : Bool) (statements : List Text) : List Text → List Text
  | [] => statements
  | s :: rest =>
    if overlaps && statements.contains s then addStatements overlaps statements rest
    else addStatements overlaps (statements ++ [s]) rest

theorem addStatements_ne_nil {overlaps : Bool} {statements more : List Text}
    (h : statements ≠ []) : addStatements overlaps statements more ≠ [] := by
  induction more generalizing statements with
  | nil => exact h
  | cons s rest ih =>
    unfold addStatements
    split
    · exact ih h
    · exact ih (by simp)

/-- Both candidates as one.  Origin and disposition are those of the earlier one; the source lines
have to be attached anew. -/
def join (separator : Text) (current next : Candidate) : Candidate :=
  let overlaps := next.startLine ≤ current.endLine
  let statements := addStatements overlaps current.statements next.statements
  { text := List.intercalate separator statements
    startLine := min current.startLine next.startLine
    endLine := max current.endLine next.endLine
    origin := current.origin
    disposition := current.disposition
    statements
    content := ""
    statements_ne_nil := addStatements_ne_nil current.statements_ne_nil }

/-- One sweep over candidates in the order of their first lines; `current` is the run so far. -/
def sweep (separator : Text) (current : Candidate) : List Candidate → List Candidate
  | [] => [current]
  | next :: rest =>
    if current.touches next then sweep separator (current.join separator next) rest
    else current :: sweep separator next rest

end Candidate

/-- The order of the sweep. -/
def sortByStart (candidates : List Candidate) : List Candidate :=
  candidates.mergeSort fun a b => a.startLine ≤ b.startLine

/-- The candidates, each run of overlapping or touching ones as one. -/
def mergeCandidates (separator : Text) (candidates : List Candidate) : List Candidate :=
  match sortByStart candidates with
  | [] => []
  | first :: rest => Candidate.sweep separator first rest

end EmbeddedSql
