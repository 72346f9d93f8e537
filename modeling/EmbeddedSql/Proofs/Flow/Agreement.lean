/-
# Reading the same code under other variables

An expression is read with the variables as they are.  How far it goes and which literals it holds does
not depend on them, and its fragments depend only on the variables it names: two arenas that agree on
these give the same expression (`expression_alike`).

Extent and fragments have to be followed together.  Whether the group `(…)` has a value of its own
depends on whether the expression inside has fragments, which the variables decide; but an expression
without fragments holds no literals either, so the literals of the group are the same in both cases.
-/
import Mathlib.Logic.Basic
import EmbeddedSql.Flow.Expression
import EmbeddedSql.Proofs.Fallible

namespace EmbeddedSql

/-- What a name stands for, if it is tracked. -/
def Arena.value? (arena : Arena) (name : String) : Option (List Fragment) :=
  (arena.get? name).map (·.fragments)

/-- An operand as an expression of its own. -/
def Operand.toExpression {start : Nat} (o : Operand start) : Expression :=
  ⟨o.fragments, o.literals, o.stop⟩

namespace Brackets

variable {b : Brackets} {arena arena' : Arena} {i : Nat}

/-- The arenas agree on the names that stand from `start` up to `stop`, but for members. -/
def Agree (b : Brackets) (arena arena' : Arena) (start stop : Nat) : Prop :=
  ∀ j t, start ≤ j → j < stop → b.token? j = some t → t.isIdent = true → b.afterDot j = false →
    arena'.value? t.text = arena.value? t.text

theorem Agree.mono {start stop start' stop' : Nat} (h : b.Agree arena arena' start stop)
    (hs : start ≤ start') (he : stop' ≤ stop) : b.Agree arena arena' start' stop' :=
  fun j t hj hj' => h j t (Nat.le_trans hs hj) (Nat.lt_of_lt_of_le hj' he)

/-- What is read from `start` on under two arenas. -/
structure ReadAlike (b : Brackets) (arena arena' : Arena) (start : Nat) (e e' : Expression) :
    Prop where
  start_le_stop : start ≤ e.stop
  stop : e'.stop = e.stop
  literals : e'.literals = e.literals
  /-- Literals come with fragments, in the first reading and in the second. -/
  literals_eq_nil : e.fragments = [] → e.literals = []
  literals_eq_nil' : e'.fragments = [] → e.literals = []
  fragments : b.Agree arena arena' start e.stop → e'.fragments = e.fragments

/-- Operands are read alike as expressions are. -/
abbrev OperandAlike (b : Brackets) (arena arena' : Arena) (start : Nat) (o o' : Operand start) :
    Prop :=
  b.ReadAlike arena arena' start o.toExpression o'.toExpression

/-- Something that does not depend on the arena, with a fragment. -/
theorem OperandAlike.of_eq {o : Operand i} (h : o.fragments ≠ []) :
    b.OperandAlike arena arena' i o o :=
  ⟨Nat.le_of_lt o.start_lt_stop, rfl, rfl, fun hn => absurd hn h, fun hn => absurd hn h,
    fun _ => rfl⟩

theorem reference_stop (b : Brackets) (arena : Arena) (i : Nat) (t : Token) :
    (b.reference arena i t).stop = b.skipPostfix (i + 1) := by
  unfold reference
  dsimp only
  split
  · split <;> rfl
  · rfl

theorem reference_literals (b : Brackets) (arena : Arena) (i : Nat) (t : Token) :
    (b.reference arena i t).literals = [] := by
  unfold reference
  dsimp only
  split
  · split <;> rfl
  · rfl

/-- A name gives what its variable holds. -/
theorem reference_fragments {t : Token}
    (h : b.afterDot i = false → arena'.value? t.text = arena.value? t.text) :
    (b.reference arena' i t).fragments = (b.reference arena i t).fragments := by
  unfold reference
  dsimp only
  cases hd : b.afterDot i with
  | true => rfl
  | false =>
      have hv := h hd
      rw [Arena.value?, Arena.value?] at hv
      simp only [Bool.false_eq_true, if_false]
      cases hg : arena.get? t.text with
      | none =>
          rw [hg, Option.map_none, Option.map_eq_none_iff] at hv
          rw [hv]
      | some v =>
          rw [hg, Option.map_some, Option.map_eq_some_iff] at hv
          obtain ⟨v', hg', hfragments⟩ := hv
          rw [hg']
          dsimp only
          split
          · exact hfragments
          · rfl

theorem reference_readAlike {t : Token} (ht : b.token? i = some t) (hident : t.isIdent = true) :
    b.OperandAlike arena arena' i (b.reference arena i t) (b.reference arena' i t) := by
  have hstart := Nat.le_of_lt (b.reference arena i t).start_lt_stop
  refine ⟨hstart, ?_, ?_, fun _ => reference_literals b arena i t,
    fun _ => reference_literals b arena i t, fun ha => reference_fragments fun hd => ?_⟩
  · exact (reference_stop b arena' i t).trans (reference_stop b arena i t).symm
  · exact (reference_literals b arena' i t).trans (reference_literals b arena i t).symm
  · exact ha i t (Nat.le_refl i) (b.reference arena i t).start_lt_stop ht hident hd

/-- An expression in parentheses gives its value if it fills them and has fragments.  Only the latter can
depend on the arena, and where it does there are no literals. -/
theorem grouped_alike {close : Nat} {e e' : Expression}
    (he : b.ReadAlike arena arena' (i + 1) e e') (hs : i < b.skipPostfix (close + 1)) (line : Nat) :
    EndAlike (b.OperandAlike arena arena' i)
      (if e.stop = close ∧ e.fragments ≠ [] then
        (Except.ok ⟨e.fragments, e.literals, b.skipPostfix (close + 1), hs⟩ : Except FlowError _)
      else .ok (b.unknown line (b.skipPostfix (close + 1)) hs))
      (if e'.stop = close ∧ e'.fragments ≠ [] then
        (Except.ok ⟨e'.fragments, e'.literals, b.skipPostfix (close + 1), hs⟩ : Except FlowError _)
      else .ok (b.unknown line (b.skipPostfix (close + 1)) hs)) := by
  have hclose := b.le_skipPostfix (close + 1)
  rw [he.stop]
  by_cases hstop : e.stop = close
  · have hle : i ≤ b.skipPostfix (close + 1) := by omega
    have hagree : b.Agree arena arena' i (b.skipPostfix (close + 1)) →
        e'.fragments = e.fragments := fun ha => he.fragments (ha.mono (by omega) (by omega))
    by_cases hn : e.fragments = []
    · rw [if_neg fun h => h.2 hn]
      by_cases hn' : e'.fragments = []
      · rw [if_neg fun h => h.2 hn']
        exact .ok (.of_eq (List.cons_ne_nil _ _))
      · rw [if_pos ⟨hstop, hn'⟩]
        exact .ok ⟨hle, rfl, he.literals.trans (he.literals_eq_nil hn), fun _ => rfl, fun _ => rfl,
          fun ha => absurd ((hagree ha).trans hn) hn'⟩
    · rw [if_pos ⟨hstop, hn⟩]
      by_cases hn' : e'.fragments = []
      · rw [if_neg fun h => h.2 hn']
        exact .ok ⟨hle, rfl, (he.literals_eq_nil' hn').symm, fun h => absurd h hn,
          fun _ => he.literals_eq_nil' hn', fun ha => absurd ((hagree ha).symm.trans hn') hn⟩
      · rw [if_pos ⟨hstop, hn'⟩]
        exact .ok ⟨hle, rfl, he.literals, he.literals_eq_nil, he.literals_eq_nil', hagree⟩
  · rw [if_neg fun h => hstop h.1, if_neg fun h => hstop h.1]
    exact .ok (.of_eq (List.cons_ne_nil _ _))

mutual
/-- An expression is read alike under any two arenas. -/
theorem expression_alike (b : Brackets) (arena arena' : Arena) (i : Nat) :
    EndAlike (b.ReadAlike arena arena' i) (b.expression arena i) (b.expression arena' i) := by
  rw [expression, expression]
  refine (operand_alike b arena arena' i).bind fun first first' hf => ?_
  cases hf with
  | none => exact .ok ⟨Nat.le_refl i, rfl, rfl, fun _ => rfl, fun _ => rfl, fun _ => rfl⟩
  | @some o o' ho =>
      have hstop : o'.stop = o.stop := ho.stop
      have hlt := o.start_lt_stop
      dsimp only
      rw [hstop]
      by_cases hp : b.isOp o.stop "+" = true
      · rw [dif_pos hp, dif_pos hp]
        have hsize : o.stop < b.size := lt_size_of_any hp
        refine (expression_alike b arena arena' (o.stop + 1)).bind fun rest rest' hr => ?_
        have hle := hr.start_le_stop
        refine .ok ⟨by dsimp only; omega, hr.stop, ?_, fun hn => ?_, fun hn => ?_, fun ha => ?_⟩
        · exact congrArg₂ (· ++ ·) ho.literals hr.literals
        · obtain ⟨hn₁, hn₂⟩ := List.append_eq_nil_iff.1 hn
          exact List.append_eq_nil_iff.2 ⟨ho.literals_eq_nil hn₁, hr.literals_eq_nil hn₂⟩
        · obtain ⟨hn₁, hn₂⟩ := List.append_eq_nil_iff.1 hn
          exact List.append_eq_nil_iff.2 ⟨ho.literals_eq_nil' hn₁, hr.literals_eq_nil' hn₂⟩
        · have hfirst := ho.fragments (ha.mono (Nat.le_refl i) (by
            show o.stop ≤ rest.stop
            omega))
          have hrest := hr.fragments (ha.mono (by omega) (Nat.le_refl _))
          exact congrArg₂ (· ++ ·) hfirst hrest
      · rw [dif_neg hp, dif_neg hp]
        exact .ok ⟨ho.start_le_stop, rfl, ho.literals, ho.literals_eq_nil, ho.literals_eq_nil',
          ho.fragments⟩
termination_by (b.size - i, 2)

theorem operand_alike (b : Brackets) (arena arena' : Arena) (i : Nat) :
    EndAlike (Option.Rel (b.OperandAlike arena arena' i)) (b.operand arena i)
      (b.operand arena' i) := by
  rw [operand, operand]
  by_cases hi : i < b.size
  · rw [dif_pos hi, dif_pos hi]
    dsimp only
    cases hkind : b.tokens[i].kind with
    | stringLiteral =>
        exact .rfl_map fun v => .some (.of_eq (List.cons_ne_nil _ _))
    | other =>
        dsimp only
        split
        · exact .rfl_map fun v => .some (.of_eq (List.cons_ne_nil _ _))
        · split
          · exact .ok (.some (.of_eq (List.cons_ne_nil _ _)))
          · exact .ok .none
    | punctuation =>
        dsimp only
        split
        · exact (group_alike b arena arena' i hi).map fun _ _ hg => .some hg
        · exact .ok .none
    | identifier =>
        dsimp only
        split
        · exact .ok .none
        · split
          · exact .ok (.some (.of_eq (List.cons_ne_nil _ _)))
          · have ht : b.token? i = some b.tokens[i] := Array.getElem?_eq_getElem hi
            exact .ok (.some (reference_readAlike ht (beq_iff_eq.2 hkind)))
    | _ => exact .ok .none
  · rw [dif_neg hi, dif_neg hi]
    exact .ok .none
termination_by (b.size - i, 1)

theorem group_alike (b : Brackets) (arena arena' : Arena) (i : Nat) (hi : i < b.size) :
    EndAlike (b.OperandAlike arena arena' i) (b.group arena i hi) (b.group arena' i hi) := by
  cases hc : b.closer? i with
  | none =>
      rw [group_of_unclosed arena hi hc, group_of_unclosed arena' hi hc]
      exact .ok (.of_eq (List.cons_ne_nil _ _))
  | some close =>
      have hlt : i < close := lt_of_closer? hc
      have hs : i < b.skipPostfix (close + 1) :=
        Nat.lt_of_lt_of_le (by omega) (b.le_skipPostfix (close + 1))
      rw [group_of_closed arena hi hc hlt hs, group_of_closed arena' hi hc hlt hs]
      have hcast : EndAlike (Option.Rel (b.OperandAlike arena arena' (close + 1)))
          (if b.isCast i close then b.operand arena (close + 1) else .ok none)
          (if b.isCast i close then b.operand arena' (close + 1) else .ok none) := by
        split
        · exact operand_alike b arena arena' (close + 1)
        · exact .ok .none
      refine hcast.bind fun o o' ho => ?_
      cases ho with
      | @some o o' ho =>
          have hle : close + 1 ≤ o.stop := ho.start_le_stop
          refine .ok ⟨?_, ho.stop, ho.literals, ho.literals_eq_nil, ho.literals_eq_nil',
            fun ha => ho.fragments (ha.mono (by omega) (Nat.le_refl _))⟩
          show i ≤ o.stop
          omega
      | none =>
          exact (expression_alike b arena arena' (i + 1)).bind fun e e' he =>
            grouped_alike he hs b.tokens[i].startLine
termination_by (b.size - i, 0)
end

end Brackets

end EmbeddedSql
