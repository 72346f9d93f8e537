/-
# The passage of a run over its tokens

A run passes over its tokens in small steps.  At each juncture there are the state of the variables, the
place where the run is and a log of the expressions that have been read for good, whose literals are
committed (`Juncture`).  The run is at one of three kinds of place:

| place | what happens there |
| :-- | :-- |
| `at` | everything before the place is done with |
| `valued` | an expression has been read as the value of a variable, but its tokens not loosely yet |
| `scanning` | a stretch of code is read loosely, token by token |

A step reads a value, reads one token loosely, does something to a variable (`Operation`) or goes on to
another place.  What is read loosely is a *stretch*: the inside of a bracket group, or the rest of a
statement from some place on or from the end of an expression.  So the steps say what the handlers have
in common, and where in the code they do it.

What one step keeps is kept by a whole run.
-/
import EmbeddedSql.Proofs.Flow.Accumulations

namespace EmbeddedSql

/-- An expression that has been read: as the value of a variable, or as a free-standing one that was found
by the literal at `anchor` and gave these candidates. -/
inductive Uptake where
  | value (start : Nat) (e : Expression)
  | loose (anchor start : Nat) (e : Expression) (found : List Candidate)
deriving DecidableEq

namespace Uptake

def expression : Uptake → Expression
  | value _ e => e
  | loose _ _ e _ => e

def literals (u : Uptake) : List Nat := u.expression.literals

/-- The candidates of a free-standing expression. -/
def found : Uptake → List Candidate
  | value _ _ => []
  | loose _ _ _ found => found

end Uptake

/-- Where a run is. -/
inductive Place where
  | at (i : Nat)
  | valued (start : Nat) (e : Expression)
  | scanning (value : Option Expression) (lower i stop : Nat)

/-- A juncture of a run. -/
structure Juncture where
  state : FlowState
  place : Place
  log : List Uptake

namespace FlowState

/-- If the name is tracked, it is a builder. -/
def IsBuilder (s : FlowState) (name : String) : Prop :=
  ∀ v, s.arena.get? name = some v → v.kind = .builder

end FlowState

namespace FlowContext

/-- The literal pieces are from values that have been read. -/
def Recorded (log : List Uptake) (fragments : List Fragment) : Prop :=
  ∀ f ∈ fragments, f.isLiteral = true → ∃ start e, Uptake.value start e ∈ log ∧ f ∈ e.fragments

/-- What is done to variables. -/
inductive Operation (cx : FlowContext) (log : List Uptake) (s : FlowState) : FlowState → Prop
  | report {s' : FlowState} (name : String) : cx.reportNamed s name = .ok s' → Operation cx log s s'
  | discard {s' : FlowState} (name : String) : cx.discard s name = .ok s' → Operation cx log s s'
  | declare {s' : FlowState} (name : String) (kind : VariableKind) :
      cx.declare s name kind = .ok s' → Operation cx log s s'
  | rebind {s' : FlowState} {name : String} {kind : VariableKind} {first last : Nat}
      {fragments : List Fragment} : cx.StartsOn first → cx.EndsOn last → cx.Sourced s fragments →
      Recorded log fragments →
      cx.rebind s ⟨name, kind, first, max first last, fragments, none⟩ = .ok s' →
      Operation cx log s s'
  | extend (name : String) {fragments : List Fragment} {line : Nat} : cx.EndsOn line →
      cx.Sourced s fragments → Recorded log fragments →
      Operation cx log s (s.modify name (·.extend fragments line))
  | regrow {name : String} {rhs line : Nat} {e : Expression} :
      cx.scope.expression s.arena rhs = .ok e → (s.arena.get? name).any (·.kind == .plain) = true →
      cx.scope.isWord rhs name = true → cx.scope.isOp (rhs + 1) "+" = true →
      cx.scope.afterDot rhs = false → cx.EndsOn line → Recorded log e.fragments →
      Operation cx log s (s.modify name (·.regrow e.fragments line))
  | reset {s' : FlowState} {name : String} {line : Nat} : s.IsBuilder name → cx.StartsOn line →
      cx.reset s name line = .ok s' → Operation cx log s s'

/-- Code that is read loosely in one go. -/
inductive Stretch (cx : FlowContext) : Nat → Nat → Prop
  | group {o close : Nat} : cx.scope.closer? o = some close → Stretch cx (o + 1) close
  | unclosed {o : Nat} : cx.scope.isPunct o "(" = true → cx.scope.closer? o = none →
      Stretch cx (o + 1) (cx.scope.size - 1)
  | statement (i : Nat) {stops : List String} : (∀ text ∈ stops, text = ";" ∨ text = ",") →
      Stretch cx i (cx.scope.skipToStop stops i)
  | value {i : Nat} {arena : Arena} {e : Expression} {stops : List String} :
      (∀ text ∈ stops, text = ";" ∨ text = ",") → cx.scope.expression arena i = .ok e →
      Stretch cx i (cx.scope.skipToStop stops e.stop)

/-- What a free-standing expression gives. -/
inductive Gives (cx : FlowContext) (anchor start : Nat) (e : Expression) : List Candidate → Prop
  | ignored : (cx.scope.callClassAt anchor).isIgnored = true → Gives cx anchor start e []
  | heeded {found : List Candidate} : (cx.scope.callClassAt anchor).isIgnored = false →
      cx.looseCandidates start anchor (max e.stop (anchor + 1)) e.fragments = .ok found →
      Gives cx anchor start e found

/-- The token at place `i` is read loosely: the state and the log after it, and the place to go on at. -/
inductive ReadsLoosely (cx : FlowContext) (s : FlowState) (log : List Uptake) (lower i : Nat) :
    FlowState → List Uptake → Nat → Prop
  | expression {e : Expression} {found : List Candidate} : cx.scope.isString i = true →
      i ∉ s.committed → cx.scope.expression s.arena (cx.scope.pullIn lower i) = .ok e →
      cx.Gives i (cx.scope.pullIn lower i) e found →
      ReadsLoosely cx s log lower i { s.commit e with candidates := s.candidates ++ found }
        (log ++ [.loose i (cx.scope.pullIn lower i) e found]) (max e.stop (i + 1))
  | mention {s' : FlowState} (name : String) : cx.reportNamed s name = .ok s' →
      ReadsLoosely cx s log lower i s' log (i + 1)
  | nothing : ReadsLoosely cx s log lower i s log (i + 1)

/-- One step of a run. -/
inductive Passes (cx : FlowContext) : Juncture → Juncture → Prop
  | forward {s : FlowState} {i j : Nat} {log : List Uptake} : i ≤ j →
      Passes cx ⟨s, .at i, log⟩ ⟨s, .at j, log⟩
  | value {s : FlowState} {i : Nat} {e : Expression} {log : List Uptake} :
      cx.scope.expression s.arena i = .ok e →
      Passes cx ⟨s, .at i, log⟩ ⟨s.commit e, .valued i e, log ++ [.value i e]⟩
  | operate {s s' : FlowState} {place : Place} {log : List Uptake} : cx.Operation log s s' →
      Passes cx ⟨s, place, log⟩ ⟨s', place, log⟩
  | scan {s : FlowState} {lower stop : Nat} {log : List Uptake} : cx.Stretch lower stop →
      Passes cx ⟨s, .at lower, log⟩ ⟨s, .scanning none lower lower stop, log⟩
  | rescan {s : FlowState} {lower stop : Nat} {e : Expression} {log : List Uptake} :
      cx.Stretch lower stop → e.stop ≤ stop →
      Passes cx ⟨s, .valued lower e, log⟩ ⟨s, .scanning (some e) lower lower stop, log⟩
  | read {s s' : FlowState} {value : Option Expression} {lower i stop next : Nat}
      {log log' : List Uptake} : i < stop → cx.ReadsLoosely s log lower i s' log' next →
      Passes cx ⟨s, .scanning value lower i stop, log⟩
        ⟨s', .scanning value lower (max next (i + 1)) stop, log'⟩
  | leave {s : FlowState} {value : Option Expression} {lower i stop : Nat} {log : List Uptake} :
      min stop cx.scope.size ≤ i → Passes cx ⟨s, .scanning value lower i stop, log⟩ ⟨s, .at stop, log⟩
  | loose {s s' : FlowState} {i next : Nat} {log log' : List Uptake} :
      cx.ReadsLoosely s log 0 i s' log' next → Passes cx ⟨s, .at i, log⟩ ⟨s', .at next, log'⟩

/-- Steps one after the other. -/
abbrev PassesOn (cx : FlowContext) : Juncture → Juncture → Prop := Relation.ReflTransGen cx.Passes

/-- A run begins before the first token and with nothing known. -/
def firstJuncture : Juncture := ⟨.start, .at 0, []⟩

/-- A juncture that occurs in a run. -/
def Occurs (cx : FlowContext) (m : Juncture) : Prop := cx.PassesOn firstJuncture m

variable {cx : FlowContext} {s s' : FlowState} {log log' : List Uptake} {m m' : Juncture}
  {fragments : List Fragment}

/-! ## Steps are moves -/

theorem Recorded.append (h : Recorded log fragments) (more : List Uptake) :
    Recorded (log ++ more) fragments := by
  intro f hf hliteral
  obtain ⟨start, e, hlog, hfe⟩ := h f hf hliteral
  exact ⟨start, e, List.mem_append_left _ hlog, hfe⟩

theorem Operation.follows (h : cx.Operation log s s') : cx.Follows s s' := by
  cases h with
  | report name h => exact reportNamed_moves s name s' h
  | discard name h => exact discard_moves s name s' h
  | declare name kind h => exact declare_moves s name kind s' h
  | rebind hfirst hlast hsourced _ h => exact rebind_moves s _ _ hsourced hfirst hlast s' h
  | extend name hline hsourced _ => exact extend_moves s trivial hsourced hline
  | regrow he hplain hword hplus hdot hline _ =>
      exact modify_regrow_moves trivial he hplain hword hplus hdot hline
  | reset _ hline h => exact reset_moves s _ hline s' h

theorem ReadsLoosely.follows {lower i next : Nat} (h : cx.ReadsLoosely s log lower i s' log' next) :
    cx.Follows s s' := by
  cases h with
  | @expression e found _ _ he hgives =>
      have hle := pullIn_le cx.scope.toBrackets lower i
      refine .head (.commit he) ?_
      cases hgives with
      | ignored _ =>
          rw [List.append_nil]
          exact .refl
      | heeded _ hfound => exact .single (.found (by omega) (sourced_commit he) hfound)
  | mention name h => exact reportNamed_moves s name s' h
  | nothing => exact .refl

theorem Passes.follows (h : cx.Passes m m') : cx.Follows m.state m'.state := by
  cases h with
  | forward _ => exact .refl
  | value he => exact .single (.commit he)
  | operate h => exact h.follows
  | scan _ => exact .refl
  | rescan _ _ => exact .refl
  | read _ h => exact h.follows
  | leave _ => exact .refl
  | loose h => exact h.follows

theorem PassesOn.follows (h : cx.PassesOn m m') : cx.Follows m.state m'.state := by
  induction h with
  | refl => exact .refl
  | tail _ hstep ih => exact ih.trans hstep.follows

/-- What every step keeps holds at every juncture of a run. -/
theorem Occurs.invariant {I : Juncture → Prop} (h : cx.Occurs m) (hfirst : I firstJuncture)
    (hstep : ∀ m m', I m → cx.Passes m m' → I m') : I m := by
  induction h with
  | refl => exact hfirst
  | tail _ hpass ih => exact hstep _ _ ih hpass

end FlowContext

end EmbeddedSql
