/-
# Candidates

A candidate is a report that a stretch of source lines holds SQL: the statement texts it stands for,
never none, one text that shows them all, and in the end the source lines themselves.
-/
import EmbeddedSql.Json.Basic

namespace EmbeddedSql

/-- How the text of a candidate came about. -/
inductive Origin where
  | literal
  | concatenation
  | builderAppend
  | methodArgument
deriving DecidableEq, Repr

namespace Origin

def name : Origin → String
  | literal => "literal"
  | concatenation => "concatenation"
  | builderAppend => "builder_append"
  | methodArgument => "method_argument"

def ofName? (s : String) : Option Origin :=
  [literal, concatenation, builderAppend, methodArgument].find? fun o => o.name == s

@[simp]
theorem ofName?_name (o : Origin) : ofName? o.name = some o := by cases o <;> decide

end Origin

/-- Found where it stands, or held by a variable. -/
inductive Disposition where
  | detected
  | assigned
deriving DecidableEq, Repr

namespace Disposition

def name : Disposition → String
  | detected => "detected"
  | assigned => "assigned"

def ofName? (s : String) : Option Disposition :=
  [detected, assigned].find? fun d => d.name == s

@[simp]
theorem ofName?_name (d : Disposition) : ofName? d.name = some d := by cases d <;> decide

end Disposition

structure Candidate where
  text : Text
  startLine : Int
  endLine : Int
  origin : Origin
  disposition : Disposition
  statements : List Text
  content : String
  statements_ne_nil : statements ≠ []
deriving DecidableEq

namespace Candidate

/-- The statements of a candidate: its own text where none are listed. -/
def statementsOr (text : Text) : List Text → List Text
  | [] => [text]
  | s :: rest => s :: rest

theorem statementsOr_ne_nil (text : Text) (statements : List Text) :
    statementsOr text statements ≠ [] := by
  cases statements <;> simp [statementsOr]

theorem statementsOr_of_ne_nil {text : Text} {statements : List Text} (h : statements ≠ []) :
    statementsOr text statements = statements := by
  cases statements with
  | nil => exact absurd rfl h
  | cons s rest => rfl

/-- A candidate with the given statements, or with its text as the only one. -/
def ofParts (text : Text) (startLine endLine : Int) (origin : Origin) (disposition : Disposition)
    (statements : List Text) (content : String) : Candidate :=
  ⟨text, startLine, endLine, origin, disposition, statementsOr text statements, content,
    statementsOr_ne_nil text statements⟩

/-- A fresh candidate: one statement, no source lines yet. -/
def fresh (text : Text) (startLine endLine : Int) (origin : Origin) (disposition : Disposition) :
    Candidate :=
  ofParts text startLine endLine origin disposition [] ""

/-- A candidate as a member of a report. -/
def toJson (c : Candidate) : Json :=
  .obj [("line_start", .int c.startLine), ("line_end", .int c.endLine),
    ("origin", .ofString c.origin.name), ("disposition", .ofString c.disposition.name),
    ("text", .str c.text), ("sql_statements", .arr (c.statements.map .str)),
    ("content", .ofString c.content)]

end Candidate

end EmbeddedSql
