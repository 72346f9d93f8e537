/-
# Following the variables of a scope

The tokens of a scope are taken in order.  At each place the statement handlers are tried; where none
applies the token is read loosely.  Every step goes forward, and what it does depends on the state at
its place: a reference sees a variable as it is there.  At the end, variables that have grown since
they were last reported are reported once more.
-/
import EmbeddedSql.Flow.Statement

namespace EmbeddedSql

namespace FlowContext

def ofTokens (rules : RuleSet) (classifier : Classifier) (placeholder : Template)
    (tokens : List Token) (room : Option Nat := none) : FlowContext :=
  ⟨.ofTokens classifier tokens, rules, placeholder, room⟩

/-- One step from place `i`: the state after it, and the next place. -/
def step (cx : FlowContext) (s : FlowState) (i : Nat) : Except FlowError (FlowState × Nat) := do
  if let some (s, next) ← cx.declaration? s i then return (s, max next (i + 1))
  if let some (s, next) ← cx.assignment? s i then return (s, max next (i + 1))
  if let some (s, next) ← cx.builderStatement? s i then return (s, max next (i + 1))
  cx.looseToken s 0 i

/-- All steps from place `i` on, without the final reports. -/
def steps (cx : FlowContext) (s : FlowState) (i : Nat) : Except FlowError FlowState := do
  if _ : i < cx.scope.size then
    let (s, next) ← cx.step s i
    steps cx s (max next (i + 1))
  else return s
termination_by cx.scope.size - i

/-- Follow the whole scope. -/
def run (cx : FlowContext) : Except FlowError FlowState := do
  let s ← cx.steps .start 0
  cx.flush s s.arena

end FlowContext

end EmbeddedSql
