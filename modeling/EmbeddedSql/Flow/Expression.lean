/-
# Reading string expressions

An expression is a list of operands joined by `+`, read from left to right until something else
comes.  An operand gives fragments: a literal its value, a name that is tracked the fragments of its
variable at that point, everything else one unknown value with its source text.  Which literal tokens
went into an expression is kept, so that they are not read again on their own.

Reading depends on the arena but does not change it.  Every operand takes at least one token, which
is part of its type and bounds the reading; the one thing that can fail is the value of a literal.
-/
import EmbeddedSql.Flow.Variable
import EmbeddedSql.Scope.Basic
import EmbeddedSql.Token.Literal

namespace EmbeddedSql

/-- A literal that denotes nothing. -/
structure BadLiteral where
  text : String
  reason : LiteralError
deriving DecidableEq, Repr

/-- What can stop the analysis of a scope. -/
inductive FlowError where
  | literal (e : BadLiteral)
  | template (e : TemplateError)
  | noToken (place : Nat)
  | tooDeep
deriving DecidableEq, Repr

def FlowError.message : FlowError → String
  | literal e => e.reason.message
  | template e => e.message
  | noToken _ => "list index out of range"
  | tooDeep => "maximum recursion depth exceeded while calling a Python object"

/-- An expression: its fragments, the places of its literal tokens, and the place after it. -/
structure Expression where
  fragments : List Fragment
  literals : List Nat
  stop : Nat
deriving DecidableEq, Repr

/-- An operand that begins at `start`. -/
structure Operand (start : Nat) where
  fragments : List Fragment
  literals : List Nat
  stop : Nat
  start_lt_stop : start < stop

namespace Operand

/-- The same operand with more before it, such as a cast. -/
def widen {i j : Nat} (h : i ≤ j) (operand : Operand j) : Operand i :=
  ⟨operand.fragments, operand.literals, operand.stop, Nat.lt_of_le_of_lt h operand.start_lt_stop⟩

/-- A single fragment without literal tokens. -/
def single {start : Nat} (fragment : Fragment) (stop : Nat) (h : start < stop) : Operand start :=
  ⟨[fragment], [], stop, h⟩

end Operand

/-- The value of a literal token. -/
def Token.value (t : Token) : Except FlowError Text :=
  match Literal.value t.text with
  | .ok v => .ok v
  | .error e => .error (.literal ⟨t.text, e⟩)

/-- Does the token show a number?  Only tokens of no other kind are asked. -/
def Token.showsNumber (t : Token) : Bool :=
  match t.text.toList with
  | [] => false
  | c :: _ => isDigit c || c == '.'

namespace Brackets

/-- Words that end a chain of operands instead of starting an operand. -/
def nonOperandWords : List String :=
  ["return", "throw", "case", "default", "instanceof", "else", "if", "for", "while", "do",
    "switch", "try", "catch", "finally", "assert", "break", "continue", "yield"]

/-- Is this one of the tokens that can make up a type in a cast? -/
def isTypeToken (t : Token) : Bool :=
  t.isIdent || t.isPunct "." || t.isPunct "[" || t.isPunct "]"

/-- Can the token follow a cast? -/
def followsCast (t : Token) : Bool := t.isString || t.isIdent || t.isPunct "("

/-- Is the group from `start` to `stop` a cast of what comes after it? -/
def isCast (b : Brackets) (start stop : Nat) : Bool :=
  (b.token? (stop + 1)).any followsCast && (b.slice (start + 1) stop).all isTypeToken

/-- Is `.toString()` all that stands between places `i` and `stop`? -/
def isToString (b : Brackets) (i stop : Nat) : Bool :=
  stop == i + 4 && b.isPunct i "." && b.isWord (i + 1) "toString" && b.isPunct (i + 2) "("
    && b.isPunct (i + 3) ")"

/-- The operand at `start` as an unknown value. -/
def unknown (b : Brackets) {start : Nat} (line stop : Nat) (h : start < stop) : Operand start :=
  .single (.unknown (b.sourceText start stop) line) stop h

/-- A name and what follows it.  A tracked name, bare or with `.toString()`, gives its variable's
fragments. -/
def reference (b : Brackets) (arena : Arena) (i : Nat) (t : Token) : Operand i :=
  let stop := b.skipPostfix (i + 1)
  have h : i < stop := b.le_skipPostfix (i + 1)
  match if b.afterDot i then none else arena.get? t.text with
  | some v =>
    if stop == i + 1 || b.isToString (i + 1) stop then ⟨v.fragments, [], stop, h⟩
    else b.unknown t.startLine stop h
  | none => b.unknown t.startLine stop h

mutual
/-- The operands from place `i` on that are joined by `+`.  A `+` with nothing after it still belongs
to the expression. -/
def expression (b : Brackets) (arena : Arena) (i : Nat) : Except FlowError Expression := do
  match ← operand b arena i with
  | none => return ⟨[], [], i⟩
  | some first =>
    if h : b.isOp first.stop "+" = true then
      have : first.stop < b.size := lt_size_of_any h
      let rest ← expression b arena (first.stop + 1)
      return ⟨first.fragments ++ rest.fragments, first.literals ++ rest.literals, rest.stop⟩
    else return ⟨first.fragments, first.literals, first.stop⟩
termination_by 3 * (b.size - i) + 2
decreasing_by
  · omega
  · have := first.start_lt_stop
    omega

/-- The operand at place `i`, if one begins there. -/
def operand (b : Brackets) (arena : Arena) (i : Nat) : Except FlowError (Option (Operand i)) :=
  if h : i < b.size then
    let t := b.tokens[i]
    match t.kind with
    | .stringLiteral =>
      t.value.map fun v =>
        some ⟨[.literal v t.startLine], [i], b.skipPostfix (i + 1), b.le_skipPostfix (i + 1)⟩
    | .other =>
      if t.isCharLiteral then
        t.value.map fun v => some (.single (.literal v t.startLine) (i + 1) i.lt_succ_self)
      else if t.showsNumber then
        .ok (some (.single (.literal t.text t.startLine) (i + 1) i.lt_succ_self))
      else .ok none
    | .punctuation => if t.text == "(" then (group b arena i h).map some else .ok none
    | .identifier =>
      if nonOperandWords.contains t.text then .ok none
      else if t.text == "new" then
        .ok (some (b.unknown t.startLine (b.skipNew i) (b.lt_skipNew i)))
      else .ok (some (b.reference arena i t))
    | _ => .ok none
  else .ok none
termination_by 3 * (b.size - i) + 1
decreasing_by omega

/-- The operand in parentheses at place `i`.  A cast has the value of what comes after it; otherwise
the group has the value of the expression that fills it, if one does. -/
def group (b : Brackets) (arena : Arena) (i : Nat) (h : i < b.size) :
    Except FlowError (Operand i) :=
  let line := b.tokens[i].startLine
  match hc : b.closer? i with
  | none => return b.unknown line b.size h
  | some close => do
    have hi : i < close := lt_of_closer? hc
    match ← (if b.isCast i close then operand b arena (close + 1) else .ok none) with
    | some cast => return cast.widen (Nat.le_succ_of_le (Nat.le_of_lt hi))
    | none =>
      let inner ← expression b arena (i + 1)
      let stop := b.skipPostfix (close + 1)
      have hs : i < stop := Nat.lt_of_lt_of_le (by omega) (b.le_skipPostfix (close + 1))
      if inner.stop = close ∧ inner.fragments ≠ [] then
        return ⟨inner.fragments, inner.literals, stop, hs⟩
      else return b.unknown line stop hs
termination_by 3 * (b.size - i)
decreasing_by
  · omega
  · omega
end

theorem group_of_unclosed {b : Brackets} {i : Nat} (arena : Arena) (h : i < b.size)
    (hc : b.closer? i = none) :
    b.group arena i h = .ok (b.unknown b.tokens[i].startLine b.size h) := by
  rw [group]
  split
  · rfl
  · next hc' => rw [hc] at hc'; cases hc'

theorem group_of_closed {b : Brackets} {i close : Nat} (arena : Arena) (h : i < b.size)
    (hc : b.closer? i = some close) (hi : i < close) (hs : i < b.skipPostfix (close + 1)) :
    b.group arena i h = (do
      match ← (if b.isCast i close then b.operand arena (close + 1) else .ok none) with
      | some cast => return cast.widen (Nat.le_succ_of_le (Nat.le_of_lt hi))
      | none =>
        let inner ← b.expression arena (i + 1)
        if inner.stop = close ∧ inner.fragments ≠ [] then
          return ⟨inner.fragments, inner.literals, b.skipPostfix (close + 1), hs⟩
        else return b.unknown b.tokens[i].startLine (b.skipPostfix (close + 1)) hs) := by
  rw [group]
  split
  · next hc' => rw [hc] at hc'; cases hc'
  · next close' hc' =>
    obtain rfl : close = close' := by rw [hc] at hc'; cases hc'; rfl
    rfl

/-! ## Nested calls

Reading expressions, operands and groups, a reader calls another while it is called itself: an expression
an operand, an operand a group, and a group the operand of a cast or the expression that fills it.  With
`room` for that many calls at a time, reading stops where one more would be needed.  What a reader calls
besides comes back without reading on, and is not counted. -/

/-- The operands from place `i` on that are joined by `+`, as `operand` reads them. -/
def operandsBy (b : Brackets) (operand : (i : Nat) → Except FlowError (Option (Operand i))) (i : Nat) :
    Except FlowError Expression :=
  if _ : i < b.size then do
    match ← operand i with
    | none => return ⟨[], [], i⟩
    | some first =>
      if b.isOp first.stop "+" then
        have := first.start_lt_stop
        let rest ← operandsBy b operand (first.stop + 1)
        return ⟨first.fragments ++ rest.fragments, first.literals ++ rest.literals, rest.stop⟩
      else return ⟨first.fragments, first.literals, first.stop⟩
  else return ⟨[], [], i⟩
termination_by b.size - i

/-- The operand in parentheses at place `i`, as `operand` reads what is cast and `expression` what fills it. -/
def groupBy (b : Brackets) (operand : (i : Nat) → Except FlowError (Option (Operand i)))
    (expression : Nat → Except FlowError Expression) (i : Nat) (h : i < b.size) :
    Except FlowError (Operand i) :=
  let line := b.tokens[i].startLine
  match hc : b.closer? i with
  | none => return b.unknown line b.size h
  | some close => do
    have hi : i < close := lt_of_closer? hc
    match ← (if b.isCast i close then operand (close + 1) else .ok none) with
    | some cast => return cast.widen (Nat.le_succ_of_le (Nat.le_of_lt hi))
    | none =>
      let inner ← expression (i + 1)
      let stop := b.skipPostfix (close + 1)
      have hs : i < stop := Nat.lt_of_lt_of_le (by omega) (b.le_skipPostfix (close + 1))
      if inner.stop = close ∧ inner.fragments ≠ [] then
        return ⟨inner.fragments, inner.literals, stop, hs⟩
      else return b.unknown line stop hs

mutual
/-- The operands from place `i` on that are joined by `+`, with room for so many calls. -/
def expressionWithin (b : Brackets) (arena : Arena) (room : Nat) (i : Nat) : Except FlowError Expression :=
  match room with
  | 0 => .error .tooDeep
  | room + 1 => b.operandsBy (operandWithin b arena room) i

/-- The operand at place `i`, with room for so many calls.  Only one in parentheses needs more than its own. -/
def operandWithin (b : Brackets) (arena : Arena) (room : Nat) (i : Nat) :
    Except FlowError (Option (Operand i)) :=
  match room with
  | 0 => .error .tooDeep
  | room + 1 =>
    if h : b.isPunct i "(" = true then (groupWithin b arena room i (lt_size_of_any h)).map some
    else b.operand arena i

/-- The operand in parentheses at place `i`, with room for so many calls. -/
def groupWithin (b : Brackets) (arena : Arena) (room : Nat) (i : Nat) (h : i < b.size) :
    Except FlowError (Operand i) :=
  match room with
  | 0 => .error .tooDeep
  | room + 1 => b.groupBy (operandWithin b arena room) (expressionWithin b arena room) i h
end

end Brackets

end EmbeddedSql
