/-
# The state of following variables

What is known at a point of a scope: the variables and their accumulations, the kinds of declared
names, the candidates found so far, and which literal tokens have been read as part of an expression.
Accumulations that came to an end are kept with the state in which they were closed.

A variable is *reported* when it is used by an executing call, and once more when its accumulation
ends and has grown since.  Reporting gives a candidate if the fragments look like a statement.
-/
import EmbeddedSql.Candidate.Basic
import EmbeddedSql.Flow.Expression

namespace EmbeddedSql

structure FlowState where
  arena : Arena
  declared : List (String × VariableKind)
  candidates : List Candidate
  committed : List Nat
  closed : List Variable

/-- What does not change while a scope is followed. -/
structure FlowContext where
  scope : Scope
  rules : RuleSet
  placeholder : Template
  /-- How many calls there is room for in reading an expression; none stands for any number. -/
  room : Option Nat := none

/-- The expression at place `i`. -/
def FlowContext.expression (cx : FlowContext) (arena : Arena) (i : Nat) : Except FlowError Expression :=
  match cx.room with
  | none => cx.scope.expression arena i
  | some room => cx.scope.expressionWithin arena room i

namespace Variable

/-- How the text of a variable came about. -/
def origin (v : Variable) : Origin :=
  match v.kind with
  | .builder => .builderAppend
  | .plain => if v.fragments.length = 1 then .literal else .concatenation

end Variable

namespace FlowState

/-- Nothing is known before the first token. -/
def start : FlowState := ⟨[], [], [], [], []⟩

/-- The literal tokens of an expression have been read. -/
def commit (s : FlowState) (e : Expression) : FlowState :=
  { s with committed := s.committed ++ e.literals }

def declaredKind? (s : FlowState) (name : String) : Option VariableKind :=
  (s.declared.find? (·.1 == name)).map (·.2)

/-- Declare a name, whatever was declared under it. -/
def declareKind (s : FlowState) (name : String) (kind : VariableKind) : FlowState :=
  { s with declared := (name, kind) :: s.declared.filter (·.1 != name) }

/-- Bind a variable, in the place of its namesake if there is one. -/
def bind (s : FlowState) (v : Variable) : FlowState :=
  { s with arena := s.arena.put v }

/-- Change the variable of this name, if it is tracked. -/
def modify (s : FlowState) (name : String) (change : Variable → Variable) : FlowState :=
  match s.arena.get? name with
  | some v => s.bind (change v)
  | none => s

end FlowState

namespace FlowContext

/-- The token at a place that has to exist. -/
def fetch (cx : FlowContext) (i : Nat) : Except FlowError Token :=
  match cx.scope.token? i with
  | some t => .ok t
  | none => .error (.noToken i)

/-- The last line of the tokens from `start` up to `stop`, or of the token at `start` if there are
none. -/
def lastLine (cx : FlowContext) (start stop : Nat) : Except FlowError Nat :=
  (cx.fetch (if start < stop then stop - 1 else min start (cx.scope.size - 1))).map (·.endLine)

/-- The text of fragments. -/
def render (cx : FlowContext) (fragments : List Fragment) : Except FlowError Text :=
  match Fragment.renderAll cx.placeholder fragments with
  | .ok t => .ok t
  | .error e => .error (.template e)

/-- The candidates that reporting a variable gives: one or none. -/
def reportOf (cx : FlowContext) (v : Variable) : Except FlowError (List Candidate) :=
  if cx.rules.isStatement v.fragments then
    match cx.render v.fragments with
    | .error e => .error e
    | .ok text => .ok [.fresh text v.firstLine v.lastLine v.origin .assigned]
  else .ok []

/-- Report a variable of the arena. -/
def report (cx : FlowContext) (s : FlowState) (v : Variable) : Except FlowError FlowState :=
  (cx.reportOf v).map fun found =>
    { s with arena := s.arena.put v.markReported, candidates := s.candidates ++ found }

/-- Report the variable of this name, if it is tracked. -/
def reportNamed (cx : FlowContext) (s : FlowState) (name : String) : Except FlowError FlowState :=
  match s.arena.get? name with
  | some v => cx.report s v
  | none => .ok s

/-- End an accumulation: report it if it has grown since it was last reported. -/
def close (cx : FlowContext) (s : FlowState) (v : Variable) : Except FlowError FlowState :=
  (if v.isUnreported then cx.reportOf v else .ok []).map fun found =>
    { s with candidates := s.candidates ++ found, closed := s.closed ++ [v.markReported] }

/-- Forget a name: its accumulation ends and it is no longer declared. -/
def discard (cx : FlowContext) (s : FlowState) (name : String) : Except FlowError FlowState :=
  let rest : FlowState :=
    { s with
      arena := s.arena.erase name
      declared := s.declared.filter (·.1 != name) }
  match s.arena.get? name with
  | some v => cx.close rest v
  | none => .ok rest

/-- Empty a builder: its accumulation ends and a new one begins on `line`. -/
def reset (cx : FlowContext) (s : FlowState) (name : String) (line : Nat) :
    Except FlowError FlowState :=
  match s.arena.get? name with
  | none => .ok s
  | some v => (cx.close s v).map (·.bind ⟨name, .builder, line, line, [], none⟩)

/-- Declare a name without a value. -/
def declare (cx : FlowContext) (s : FlowState) (name : String) (kind : VariableKind) :
    Except FlowError FlowState :=
  (cx.discard s name).map (·.declareKind name kind)

/-- Begin a new accumulation under a name. -/
def rebind (cx : FlowContext) (s : FlowState) (v : Variable) : Except FlowError FlowState :=
  (cx.discard s v.name).map fun s => (s.bind v).declareKind v.name v.kind

/-- Report the variables in turn that have grown since they were last reported. -/
def flush (cx : FlowContext) (s : FlowState) : List Variable → Except FlowError FlowState
  | [] => .ok s
  | v :: rest =>
    if v.isUnreported then do
      let s ← cx.report s v
      flush cx s rest
    else flush cx s rest

end FlowContext

end EmbeddedSql
