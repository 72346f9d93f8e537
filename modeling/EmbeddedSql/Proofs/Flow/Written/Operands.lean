/-
# Operands and what is read behind them

An expression is its first operand with the rest of the expression behind it, if a plus sign follows
(`expression_of_operand`).  So it can be read in pieces: what has been read up to a place is put before what
is read on from there (`readOn`), and pieces may be put together in any order (`map_readOn`).

An operand in parentheses that is no cast depends on the expression inside of them (`operand_group`): the group
gives the fragments of this expression if it ends at the closing parenthesis and gives some at all, and is an
unknown value otherwise.
-/
import EmbeddedSql.Proofs.Flow.Agreement
import EmbeddedSql.Proofs.Flow.Written.Groups

namespace EmbeddedSql

/-- An expression with more of it behind. -/
def Expression.append (e rest : Expression) : Expression :=
  ⟨e.fragments ++ rest.fragments, e.literals ++ rest.literals, rest.stop⟩

theorem Expression.append_assoc (e₁ e₂ e₃ : Expression) :
    (e₁.append e₂).append e₃ = e₁.append (e₂.append e₃) := by
  rw [append, append, append, append, List.append_assoc, List.append_assoc]

namespace Brackets

variable {b : Brackets} {arena : Arena} {i : Nat} {e : Expression}

/-- What has been read, and what is read on behind a plus sign. -/
def readOn (b : Brackets) (arena : Arena) (e : Expression) : Except FlowError Expression :=
  if b.isOp e.stop "+" = true then (b.expression arena (e.stop + 1)).map e.append else .ok e

theorem readOn_of_not (h : b.isOp e.stop "+" = false) : b.readOn arena e = .ok e :=
  if_neg (by rw [h]; exact Bool.false_ne_true)

theorem readOn_of_plus (h : b.isOp e.stop "+" = true) :
    b.readOn arena e = (b.expression arena (e.stop + 1)).map e.append :=
  if_pos h

theorem map_readOn (e e' : Expression) :
    (b.readOn arena e').map e.append = b.readOn arena (e.append e') := by
  rw [readOn, readOn]
  show _ = if b.isOp e'.stop "+" = true then (b.expression arena (e'.stop + 1)).map _ else _
  split
  · cases b.expression arena (e'.stop + 1) with
    | error err => rfl
    | ok rest => exact congrArg Except.ok (Expression.append_assoc e e' rest).symm
  · rfl

theorem expression_of_operand {o : Operand i} (h : b.operand arena i = .ok (some o)) :
    b.expression arena i = b.readOn arena o.toExpression := by
  rw [expression, h, readOn]
  show (if h : b.isOp o.stop "+" = true then _ else _) = if b.isOp o.stop "+" = true then _ else _
  split
  · show _ = (b.expression arena (o.stop + 1)).map _
    cases b.expression arena (o.stop + 1) with
    | error err => rfl
    | ok rest => rfl
  · rfl

/-- A group that closes at `close` is no cast of anything. -/
def NoCast (b : Brackets) (arena : Arena) (i close : Nat) : Prop :=
  b.isCast i close = true → b.operand arena (close + 1) = .ok none

end Brackets

namespace Written

open StraightLine

variable {b : Brackets} {arena : Arena} {i : Nat}

/-- The group from place `i` to `close` as an operand: the expression in it if that fills it and gives
fragments, and else an unknown value. -/
def grouped (b : Brackets) {i : Nat} (close line : Nat) (h : i < b.skipPostfix (close + 1))
    (inner : Expression) : EmbeddedSql.Operand i :=
  if inner.stop = close ∧ inner.fragments ≠ [] then
    ⟨inner.fragments, inner.literals, b.skipPostfix (close + 1), h⟩
  else b.unknown line (b.skipPostfix (close + 1)) h

theorem stop_grouped {close line : Nat} {h : i < b.skipPostfix (close + 1)} (inner : Expression) :
    (grouped b close line h inner).stop = b.skipPostfix (close + 1) := by
  rw [grouped]
  split
  · rfl
  · rfl

theorem operand_group (arena : Arena) {inside : List Lexeme} (h : Paired inside)
    (hr : Reads b i (group .paren inside)) (hcast : b.NoCast arena i (i + 1 + inside.length)) :
    ∃ line hstop, b.operand arena i = (b.expression arena (i + 1)).map fun inner =>
      some (grouped b (i + 1 + inside.length) line hstop inner) := by
  have hopening := (reads_group hr).1
  have hi : i < b.size := hopening.lt_size
  have hl := hopening.lexeme_getElem hi
  have hkind : b.tokens[i].kind = .punctuation := congrArg Prod.fst hl
  have htext : b.tokens[i].text = "(" := congrArg Prod.snd hl
  have hstop : i < b.skipPostfix (i + 1 + inside.length + 1) :=
    Nat.lt_of_lt_of_le (by omega) (b.le_skipPostfix _)
  have hnone : (if b.isCast i (i + 1 + inside.length) then b.operand arena (i + 1 + inside.length + 1)
      else .ok none) = .ok none := by
    split
    · next hc => exact hcast hc
    · rfl
  refine ⟨b.tokens[i].startLine, hstop, ?_⟩
  rw [Brackets.operand, dif_pos hi]
  simp only [hkind, htext]
  rw [if_pos (by decide), Brackets.group_of_closed arena hi (closer?_group h hr) (by omega) hstop, hnone]
  show Except.map _ (b.expression arena (i + 1) >>= _) = _
  cases b.expression arena (i + 1) with
  | error err => rfl
  | ok inner =>
      show Except.map some (if inner.stop = _ ∧ inner.fragments ≠ [] then _ else _) =
        Except.ok (some (grouped b _ _ hstop inner))
      rw [grouped]
      split
      · rfl
      · rfl

end Written

end EmbeddedSql
