/-
# Straight-line code

A small language of strings: plain variables are declared, assigned and added to, builders are
constructed, appended to and emptied, and every value is a sum of string literals, names and
`toString` calls.  It is written as Java statements (`Statement.lexemes`), on lines that may be broken
anywhere.

`interpret` says what such code computes, without tokens or places but for the lines: each variable
has an *accumulation*, a list of known texts and unknown values, and accumulations that are replaced
or emptied are kept apart in the order in which they ended.  Each of them that looks like a statement
is one candidate.
-/
import EmbeddedSql.Flow.Run

namespace EmbeddedSql.StraightLine

/-! ## Syntax -/

/-- The kind and the text of a token. -/
abbrev Lexeme := TokenKind × String

/-- What of a token does not depend on where it stands. -/
def lexeme (t : Token) : Lexeme := (t.kind, t.text)

def word (text : String) : Lexeme := (.identifier, text)

def punct (text : String) : Lexeme := (.punctuation, text)

def op (text : String) : Lexeme := (.operator, text)

/-- A string literal by its source text, a name, or the text of a builder. -/
inductive Operand where
  | literal (text : String)
  | name (x : String)
  | toText (x : String)

/-- Operands joined by `+`. -/
inductive Expr where
  | one (o : Operand)
  | plus (o : Operand) (rest : Expr)

/-- A statement: `String x = e;`, `x = e;`, `x += e;`, `StringBuilder b = new StringBuilder(e);` and
`b = new StringBuilder(e);` with or without `e`, `b.append(e).append(e)…;`, `b.setLength(0);`. -/
inductive Statement where
  | declare (x : String) (e : Expr)
  | assign (x : String) (e : Expr)
  | grow (x : String) (e : Expr)
  | build (b : String) (e : Option Expr)
  | rebuild (b : String) (e : Option Expr)
  | append (b : String) (e : Expr) (more : List Expr)
  | empty (b : String)

def Operand.lexemes : Operand → List Lexeme
  | literal text => [(.stringLiteral, text)]
  | name x => [word x]
  | toText x => [word x, punct ".", word "toString", punct "(", punct ")"]

def Expr.lexemes : Expr → List Lexeme
  | one o => o.lexemes
  | plus o rest => o.lexemes ++ op "+" :: rest.lexemes

/-- `new StringBuilder(e)`. -/
def construction (e : Option Expr) : List Lexeme :=
  [word "new", word "StringBuilder", punct "("] ++ (e.map Expr.lexemes).getD [] ++ [punct ")"]

/-- `.append(e)`. -/
def link (e : Expr) : List Lexeme :=
  [punct ".", word "append", punct "("] ++ e.lexemes ++ [punct ")"]

namespace Statement

/-- A statement without its semicolon. -/
def body : Statement → List Lexeme
  | declare x e => [word "String", word x, op "="] ++ e.lexemes
  | assign x e => [word x, op "="] ++ e.lexemes
  | grow x e => [word x, op "+="] ++ e.lexemes
  | build b e => [word "StringBuilder", word b, op "="] ++ construction e
  | rebuild b e => [word b, op "="] ++ construction e
  | append b e more => word b :: (e :: more).flatMap link
  | empty b => [word b, punct ".", word "setLength", punct "(", (.other, "0"), punct ")"]

def lexemes (st : Statement) : List Lexeme := st.body ++ [punct ";"]

end Statement

/-! ## Types -/

/-- Can the operand be read?  Its literal denotes something, its name is no keyword. -/
def Operand.Readable : Operand → Prop
  | literal text => ∃ v, Literal.value text = .ok v
  | name x | toText x => x ∉ "new" :: Brackets.nonOperandWords

def Expr.Readable : Expr → Prop
  | one o => o.Readable
  | plus o rest => o.Readable ∧ rest.Readable

/-- The kinds of the variables that are known. -/
abbrev Kinds := String → Option VariableKind

def Kinds.set (kinds : Kinds) (x : String) (kind : VariableKind) : Kinds :=
  fun y => if y = x then some kind else kinds y

namespace Statement

/-- Its variable is known with the right kind, if it has to be, and its values can be read. -/
def WellTyped (kinds : Kinds) : Statement → Prop
  | declare _ e => e.Readable
  | assign x e | grow x e => kinds x = some .plain ∧ e.Readable
  | build _ e => ∀ v ∈ e, v.Readable
  | rebuild b e => kinds b = some .builder ∧ ∀ v ∈ e, v.Readable
  | append b e more => kinds b = some .builder ∧ ∀ v ∈ e :: more, v.Readable
  | empty b => kinds b = some .builder

/-- The kinds after a statement. -/
def kindsAfter (kinds : Kinds) : Statement → Kinds
  | declare x _ => kinds.set x .plain
  | build b _ => kinds.set b .builder
  | _ => kinds

end Statement

/-- Every variable is declared with a value before it is used, and used as what it is. -/
def WellTyped (kinds : Kinds) : List Statement → Prop
  | [] => True
  | st :: rest => st.WellTyped kinds ∧ WellTyped (st.kindsAfter kinds) rest

/-! ## Meaning -/

/-- A part of a value: a known text, or an expression by its source. -/
inductive Part where
  | known (text : Text)
  | unknown (source : String)
deriving DecidableEq, Repr

/-- What has been accumulated under a name, and on which lines. -/
structure Accumulation where
  name : String
  kind : VariableKind
  parts : List Part
  firstLine : Nat
  lastLine : Nat
deriving DecidableEq, Repr

/-- The accumulations that go on, in the order in which their names were bound, and those that came
to an end. -/
structure Memory where
  live : List Accumulation
  closed : List Accumulation
deriving DecidableEq, Repr

namespace Memory

/-- What is accumulated under a name, or else the unknown value with this source. -/
def parts (m : Memory) (x source : String) : List Part :=
  match m.live.find? (·.name == x) with
  | some a => a.parts
  | none => [.unknown source]

/-- Bind a name anew. -/
def bind (m : Memory) (a : Accumulation) : Memory where
  live := m.live.filter (·.name != a.name) ++ [a]
  closed := m.closed ++ m.live.filter (·.name == a.name)

/-- Begin anew under a name that stays bound. -/
def restart (m : Memory) (a : Accumulation) : Memory where
  live := m.live.map fun old => if old.name = a.name then a else old
  closed := m.closed ++ m.live.filter (·.name == a.name)

/-- Go on under a name, up to a line. -/
def advance (m : Memory) (x : String) (parts : List Part → List Part) (line : Nat) : Memory where
  live := m.live.map fun a =>
    if a.name = x then { a with parts := parts a.parts, lastLine := max a.lastLine line } else a
  closed := m.closed

end Memory

def Operand.eval (m : Memory) : Operand → List Part
  | literal text =>
    match Literal.value text with
    | .ok v => [.known v]
    | .error _ => []
  | name x => m.parts x x
  | toText x => m.parts x (x ++ ".toString()")

def Expr.eval (m : Memory) : Expr → List Part
  | one o => o.eval m
  | plus o rest => o.eval m ++ rest.eval m

/-- Is the value the variable itself with more added to it? -/
def Expr.continues (x : String) : Expr → Bool
  | plus (.name y) _ => y == x
  | _ => false

/-! ## Lines -/

def startLineAt (tokens : List Token) (i : Nat) : Nat := (tokens[i]?.map (·.startLine)).getD 0

def endLineAt (tokens : List Token) (i : Nat) : Nat := (tokens[i]?.map (·.endLine)).getD 0

namespace Statement

/-- Append values in turn, the first of whose links begins at place `i`. -/
def execLinks (tokens : List Token) (b : String) (m : Memory) (i : Nat) : List Expr → Memory
  | [] => m
  | e :: more =>
    let m := m.advance b (· ++ e.eval m) (endLineAt tokens (i + 2 + e.lexemes.length))
    execLinks tokens b m (i + (link e).length) more

/-- The statement that begins at place `i`. -/
def exec (tokens : List Token) (i : Nat) (m : Memory) (st : Statement) : Memory :=
  let first := startLineAt tokens i
  let last := endLineAt tokens (i + st.body.length - 1)
  match st with
  | declare x e => m.bind ⟨x, .plain, e.eval m, first, max first last⟩
  | assign x e =>
    if e.continues x then m.advance x (fun _ => e.eval m) last
    else m.bind ⟨x, .plain, e.eval m, first, max first last⟩
  | grow x e => m.advance x (· ++ e.eval m) last
  | build b e | rebuild b e =>
    m.bind ⟨b, .builder, (e.map (Expr.eval m)).getD [], first, max first last⟩
  | append b e more => execLinks tokens b m (i + 1) (e :: more)
  | empty b =>
    let line := startLineAt tokens (i + 2)
    m.restart ⟨b, .builder, [], line, line⟩

end Statement

/-- The statements from place `i` on. -/
def interpret (tokens : List Token) (i : Nat) (m : Memory) : List Statement → Memory
  | [] => m
  | st :: rest => interpret tokens (i + st.lexemes.length) (st.exec tokens i m) rest

/-! ## Candidates -/

namespace Part

def literalText : Part → Text
  | known text => text
  | unknown _ => []

/-- An unknown value is shown in braces after a dollar sign. -/
def shown : Part → Text
  | known text => text
  | unknown source => Text.ofString ("$\x7b" ++ source ++ "\x7d")

end Part

namespace Accumulation

def origin (a : Accumulation) : Origin :=
  match a.kind with
  | .builder => .builderAppend
  | .plain => if a.parts.length = 1 then .literal else .concatenation

/-- The candidate of an accumulation whose known texts start with a keyword. -/
def candidate? (a : Accumulation) : Option Candidate :=
  if RuleSet.standard.isSql (a.parts.flatMap Part.literalText) then
    some (.fresh (a.parts.flatMap Part.shown) a.firstLine a.lastLine a.origin .assigned)
  else none

end Accumulation

/-- The candidates of all accumulations: those that came to an end before, then the others. -/
def Memory.candidates (m : Memory) : List Candidate :=
  (m.closed ++ m.live).filterMap Accumulation.candidate?

end EmbeddedSql.StraightLine
