/-
# Expressions that stand on their own

Code that belongs to no recognized statement is read token by token.  A string literal that has not
been read yet begins an expression; together with the names before it that are joined to it by `+` it
is reported at once if it looks like a statement, unless the nearest classified call around it is
output or input.  The name of a tracked variable under an executing call reports the variable.
-/
import EmbeddedSql.Flow.State

namespace EmbeddedSql

namespace Brackets

/-- Where an expression begins that has its first literal at `start`: names joined to it by `+` are
pulled in, but not from before place `lower`, and no members or keywords. -/
def pullIn (b : Brackets) (lower start : Nat) : Nat :=
  if h : lower + 2 ≤ start then
    if b.isOp (start - 1) "+" && b.isIdent (start - 2)
        && !b.isWordIn (start - 2) nonOperandWords && !b.afterDot (start - 2) then
      pullIn b lower (start - 2)
    else start
  else start
termination_by start

end Brackets

namespace FlowContext

/-- How a free-standing expression at place `i` came about. -/
def looseOrigin (cx : FlowContext) (i : Nat) (fragments : List Fragment) : Origin :=
  match cx.scope.framesAt i with
  | ⟨_, _, some _, _⟩ :: _ => .methodArgument
  | _ => if fragments.length = 1 then .literal else .concatenation

/-- The candidates that a free-standing expression gives, which begins at `start`, has its first
literal at `i` and ends before `stop`: one or none. -/
def looseCandidates (cx : FlowContext) (start i stop : Nat) (fragments : List Fragment) :
    Except FlowError (List Candidate) :=
  if cx.rules.isStatement fragments then do
    let text ← cx.render fragments
    let first ← cx.fetch start
    let last ← cx.lastLine start stop
    return [.fresh text first.startLine last (cx.looseOrigin i fragments) .detected]
  else .ok []

/-- Read the free-standing expression whose first literal is at `i`; gives the place after it. -/
def looseExpression (cx : FlowContext) (s : FlowState) (lower i : Nat) :
    Except FlowError (FlowState × Nat) := do
  let start := cx.scope.pullIn lower i
  let e ← cx.expression s.arena start
  let s := s.commit e
  let stop := max e.stop (i + 1)
  if (cx.scope.callClassAt i).isIgnored then return (s, stop)
  let found ← cx.looseCandidates start i stop e.fragments
  return ({ s with candidates := s.candidates ++ found }, stop)

/-- Read the token at place `i` as one that belongs to no statement; gives the place to go on at. -/
def looseToken (cx : FlowContext) (s : FlowState) (lower i : Nat) :
    Except FlowError (FlowState × Nat) :=
  match cx.scope.token? i with
  | none => .error (.noToken i)
  | some t =>
    if t.isString && !s.committed.contains i then cx.looseExpression s lower i
    else if t.isIdent && !cx.scope.afterDot i && cx.scope.underSink i then
      (cx.reportNamed s t.text).map (·, i + 1)
    else .ok (s, i + 1)

/-- Read the tokens from place `i` up to `stop` in this way, in a stretch that begins at `lower`. -/
def scanFrom (cx : FlowContext) (s : FlowState) (lower i stop : Nat) :
    Except FlowError FlowState := do
  if _ : i < min stop cx.scope.size then
    let (s, next) ← cx.looseToken s lower i
    scanFrom cx s lower (max next (i + 1)) stop
  else return s
termination_by min stop cx.scope.size - i

/-- Read the tokens from `start` up to `stop` as ones that belong to no statement. -/
def scanLoose (cx : FlowContext) (s : FlowState) (start stop : Nat) : Except FlowError FlowState :=
  cx.scanFrom s start start stop

end FlowContext

end EmbeddedSql
