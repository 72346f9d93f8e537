/-
# Reading with room for so many calls

Where there is room for any number of nested calls, an expression is read as it is.  With room for so many,
reading it gives the same, or it stops because it comes too deep (`Limits`).

| | |
| :-- | :-- |
| calls that are enough | three for each opening parenthesis, and two (`within_eq`) |
| calls that are too few | fewer than an operand has under way, at some time while it is read (`Calls.tooDeep`) |

An operand that is cast has two calls more under way than the one in the cast, and casts can be chained to any
length, so no room is enough for all expressions.

Both readers go the same way: an expression that is read without a limit is made of its operands, an operand in
parentheses of its group, and a group of the operand that it casts or the expression that fills it
(`expression_eq`, `operand_of_opens`, `group_eq`).
-/
import EmbeddedSql.Flow.State
import EmbeddedSql.Proofs.Fallible

namespace EmbeddedSql

/-- A computation stops for want of room, or gives what the other one does. -/
def Limits {α : Type} (o o' : Except FlowError α) : Prop := o = .error .tooDeep ∨ o = o'

namespace Limits

variable {α β : Type} {o o' : Except FlowError α}

theorem bind {f f' : α → Except FlowError β} (h : Limits o o') (hf : ∀ a, Limits (f a) (f' a)) :
    Limits (o >>= f) (o' >>= f') := by
  rcases h with rfl | rfl
  · exact .inl rfl
  · cases o with
    | error e => exact .inr rfl
    | ok a => exact hf a

theorem map (h : Limits o o') (f : α → β) : Limits (o.map f) (o'.map f) := by
  rcases h with rfl | rfl
  · exact .inl rfl
  · exact .inr rfl

theorem eq_of_ok {a : α} (h : Limits o o') (ho : o = .ok a) : o' = .ok a := by
  rcases h with rfl | rfl
  · cases ho
  · exact ho

end Limits

namespace Brackets

variable {b : Brackets} {arena : Arena} {room i : Nat}

/-! ## Readers -/

theorem operand_of_size_le (h : b.size ≤ i) : b.operand arena i = .ok none := by
  rw [operand, dif_neg (Nat.not_lt.2 h)]

/-- An expression is made of its operands. -/
theorem expression_eq (b : Brackets) (arena : Arena) (i : Nat) :
    b.expression arena i = b.operandsBy (b.operand arena) i := by
  rw [expression, operandsBy]
  split
  · refine bind_congr fun first => ?_
    cases first with
    | none => rfl
    | some first =>
        have hfirst := first.start_lt_stop
        dsimp only
        split
        · rw [expression_eq b arena (first.stop + 1)]
        · rfl
  · next hi =>
      rw [operand_of_size_le (Nat.not_lt.1 hi)]
      rfl
termination_by b.size - i

/-- An operand in parentheses is its group. -/
theorem operand_of_opens (h : b.isPunct i "(" = true) :
    b.operand arena i = (b.group arena i (lt_size_of_any h)).map some := by
  have hi : i < b.size := lt_size_of_any h
  obtain ⟨t, ht, hopens⟩ := Option.any_eq_true _ _ |>.1 h
  obtain rfl : b.tokens[i] = t := Option.some.inj ((Array.getElem?_eq_getElem hi).symm.trans ht)
  obtain ⟨hkind, htext⟩ := Bool.and_eq_true_iff.1 hopens
  rw [operand, dif_pos hi]
  dsimp only
  rw [beq_iff_eq.1 hkind, htext]
  rfl

theorem group_eq (b : Brackets) (arena : Arena) (i : Nat) (h : i < b.size) :
    b.group arena i h = b.groupBy (b.operand arena) (b.expression arena) i h := by
  rw [group, groupBy]

/-! ## Limits -/

variable {read read' : (i : Nat) → Except FlowError (Option (Operand i))}
  {fill fill' : Nat → Except FlowError Expression}

theorem limits_operandsBy (hread : ∀ j, Limits (read j) (read' j)) (i : Nat) :
    Limits (b.operandsBy read i) (b.operandsBy read' i) := by
  rw [operandsBy, operandsBy]
  split
  · refine (hread i).bind fun first => ?_
    cases first with
    | none => exact .inr rfl
    | some first =>
        have hfirst := first.start_lt_stop
        dsimp only
        split
        · exact (limits_operandsBy hread (first.stop + 1)).bind fun _ => .inr rfl
        · exact .inr rfl
  · exact .inr rfl
termination_by b.size - i

theorem limits_groupBy (hread : ∀ j, Limits (read j) (read' j)) (hfill : ∀ j, Limits (fill j) (fill' j))
    (h : i < b.size) : Limits (b.groupBy read fill i h) (b.groupBy read' fill' i h) := by
  rw [groupBy, groupBy]
  split
  · exact .inr rfl
  · next close hc =>
      have hcast : Limits (if b.isCast i close then read (close + 1) else .ok none)
          (if b.isCast i close then read' (close + 1) else .ok none) := by
        split
        · exact hread (close + 1)
        · exact .inr rfl
      refine hcast.bind fun cast => ?_
      cases cast with
      | some cast => exact .inr rfl
      | none => exact (hfill (i + 1)).bind fun _ => .inr rfl

/-- With room for so many calls, what is read is the same or too deep. -/
theorem limits_within (b : Brackets) (arena : Arena) (room : Nat) :
    (∀ i, Limits (b.expressionWithin arena room i) (b.expression arena i)) ∧
      (∀ i, Limits (b.operandWithin arena room i) (b.operand arena i)) ∧
      ∀ i h, Limits (b.groupWithin arena room i h) (b.group arena i h) := by
  induction room with
  | zero => exact ⟨fun _ => .inl rfl, fun _ => .inl rfl, fun _ _ => .inl rfl⟩
  | succ room ih =>
      obtain ⟨hexpression, hoperand, hgroup⟩ := ih
      refine ⟨fun i => ?_, fun i => ?_, fun i h => ?_⟩
      · rw [expressionWithin, expression_eq]
        exact limits_operandsBy hoperand i
      · rw [operandWithin]
        split
        · next hopens =>
            rw [operand_of_opens hopens]
            exact (hgroup i _).map some
        · exact .inr rfl
      · rw [groupWithin, group_eq]
        exact limits_groupBy hoperand hexpression h

/-! ## Enough room -/

theorem operandsBy_congr {i : Nat} (hread : ∀ j, i ≤ j → read j = read' j) :
    b.operandsBy read i = b.operandsBy read' i := by
  rw [operandsBy, operandsBy, hread i (Nat.le_refl i)]
  split
  · refine bind_congr fun first => ?_
    cases first with
    | none => rfl
    | some first =>
        have hfirst := first.start_lt_stop
        have hrest : b.operandsBy read (first.stop + 1) = b.operandsBy read' (first.stop + 1) :=
          operandsBy_congr fun j hj => hread j (by omega)
        dsimp only
        rw [hrest]
  · rfl
termination_by b.size - i

theorem groupBy_congr (hread : ∀ j, i < j → read j = read' j) (hfill : ∀ j, i < j → fill j = fill' j)
    (h : i < b.size) : b.groupBy read fill i h = b.groupBy read' fill' i h := by
  rw [groupBy, groupBy, hfill (i + 1) i.lt_succ_self]
  split
  · rfl
  · next close hc =>
      have hclose : i < close := lt_of_closer? hc
      rw [hread (close + 1) (Nat.lt_succ_of_lt hclose)]

/-- How many parentheses open from place `i` on. -/
def parenthesesFrom (b : Brackets) (i : Nat) : Nat := (b.tokens.toList.drop i).countP (·.isPunct "(")

theorem parenthesesFrom_anti {j : Nat} (h : i ≤ j) : b.parenthesesFrom j ≤ b.parenthesesFrom i :=
  (List.drop_sublist_drop_left _ h).countP_le

theorem parenthesesFrom_of_opens (h : b.isPunct i "(" = true) :
    b.parenthesesFrom i = b.parenthesesFrom (i + 1) + 1 := by
  have hi : i < b.size := lt_size_of_any h
  obtain ⟨t, ht, hopens⟩ := Option.any_eq_true _ _ |>.1 h
  obtain rfl : b.tokens[i] = t := Option.some.inj ((Array.getElem?_eq_getElem hi).symm.trans ht)
  have hlist : i < b.tokens.toList.length := hi
  rw [parenthesesFrom, List.drop_eq_getElem_cons hlist, List.countP_cons_of_pos (by exact hopens)]
  rfl

/-- Three calls are enough for each opening parenthesis: one for its group, and two for what the group
holds. -/
theorem within_eq (b : Brackets) (arena : Arena) (room : Nat) :
    (∀ i, 3 * b.parenthesesFrom i + 2 ≤ room → b.expressionWithin arena room i = b.expression arena i) ∧
      (∀ i, 3 * b.parenthesesFrom i + 1 ≤ room → b.operandWithin arena room i = b.operand arena i) ∧
      ∀ i h, b.isPunct i "(" = true → 3 * b.parenthesesFrom i ≤ room →
        b.groupWithin arena room i h = b.group arena i h := by
  induction room with
  | zero =>
      refine ⟨fun i hi => absurd hi (by omega), fun i hi => absurd hi (by omega), fun i _ hopens hi => ?_⟩
      have hone := parenthesesFrom_of_opens hopens
      omega
  | succ room ih =>
      obtain ⟨hexpression, hoperand, hgroup⟩ := ih
      refine ⟨fun i hi => ?_, fun i hi => ?_, fun i h hopens hi => ?_⟩
      · rw [expressionWithin, expression_eq]
        refine operandsBy_congr fun j hj => hoperand j ?_
        have hfewer := parenthesesFrom_anti (b := b) hj
        omega
      · rw [operandWithin]
        split
        · next hopens => rw [operand_of_opens hopens, hgroup i _ hopens (by omega)]
        · rfl
      · have hone := parenthesesFrom_of_opens hopens
        rw [groupWithin, group_eq]
        refine groupBy_congr (fun j hj => hoperand j ?_) (fun j hj => hexpression j ?_) h
        · have hfewer := parenthesesFrom_anti (b := b) (show i + 1 ≤ j from hj)
          omega
        · have hfewer := parenthesesFrom_anti (b := b) (show i + 1 ≤ j from hj)
          omega

/-! ## Too little room -/

/-- An operand at a place, and so many calls that reading it has under way at some time: its own, that of
its group if it is in parentheses, and those for the operand that the group casts or begins with. -/
inductive Calls (b : Brackets) : Nat → Nat → Prop
  | own {i : Nat} : Calls b i 1
  | cast {i close n : Nat} : b.isPunct i "(" = true → b.closer? i = some close →
      b.isCast i close = true → Calls b (close + 1) n → Calls b i (n + 2)
  | fill {i close n : Nat} : b.isPunct i "(" = true → b.closer? i = some close →
      b.isCast i close = false → Calls b (i + 1) n → Calls b i (n + 3)

section Failing

variable {e : FlowError}

theorem operandsBy_of_error (hi : i < b.size) (h : read i = .error e) : b.operandsBy read i = .error e := by
  rw [operandsBy, dif_pos hi, h]
  rfl

/-- An operand that is read is followed by one that is not. -/
theorem operandsBy_of_rest_error {first : Operand i} (hfirst : read i = .ok (some first))
    (hplus : b.isOp first.stop "+" = true) (h : b.operandsBy read (first.stop + 1) = .error e) :
    b.operandsBy read i = .error e := by
  have hlt : first.stop < b.size := lt_size_of_any hplus
  rw [operandsBy, dif_pos (Nat.lt_trans first.start_lt_stop hlt), hfirst]
  show (if b.isOp first.stop "+" = true then _ else _) = _
  rw [if_pos hplus, h]
  rfl

theorem operandWithin_of_error (hopens : b.isPunct i "(" = true)
    (h : b.groupWithin arena room i (lt_size_of_any hopens) = .error e) :
    b.operandWithin arena (room + 1) i = .error e := by
  rw [operandWithin, dif_pos hopens, h]
  rfl

/-- A group fails where the operand that it casts fails, or without a cast the expression that fills it. -/
theorem groupBy_of_error {close : Nat} (hc : b.closer? i = some close)
    (h : b.isCast i close = true ∧ read (close + 1) = .error e ∨
      b.isCast i close = false ∧ fill (i + 1) = .error e) (hi : i < b.size) :
    b.groupBy read fill i hi = .error e := by
  rw [groupBy]
  split
  · next hc' => cases hc.symm.trans hc'
  · next close' hc' =>
      obtain rfl : close = close' := Option.some.inj (hc.symm.trans hc')
      rcases h with ⟨hcast, hread⟩ | ⟨hcast, hfill⟩
      · rw [hcast, if_pos rfl, hread]
        rfl
      · rw [hcast, if_neg Bool.false_ne_true]
        dsimp only
        rw [hfill]
        rfl

end Failing

/-- With less room than that the operand comes too deep. -/
theorem Calls.tooDeep {n : Nat} (h : b.Calls i n) (arena : Arena) (hroom : room < n) :
    b.operandWithin arena room i = .error .tooDeep := by
  induction h generalizing room with
  | own =>
      obtain rfl := Nat.lt_one_iff.1 hroom
      rw [operandWithin]
  | cast hopens hc hcast _ ih =>
      cases room with
      | zero => rw [operandWithin]
      | succ room =>
          refine operandWithin_of_error hopens ?_
          cases room with
          | zero => rw [groupWithin]
          | succ room =>
              rw [groupWithin]
              exact groupBy_of_error hc (.inl ⟨hcast, ih (by omega)⟩) _
  | @fill i close n hopens hc hcast _ ih =>
      have hclose : i < close := lt_of_closer? hc
      have hi : i + 1 < b.size := Nat.lt_of_le_of_lt hclose (closer?_lt_size hc)
      cases room with
      | zero => rw [operandWithin]
      | succ room =>
          refine operandWithin_of_error hopens ?_
          cases room with
          | zero => rw [groupWithin]
          | succ room =>
              rw [groupWithin]
              refine groupBy_of_error hc (.inr ⟨hcast, ?_⟩) _
              cases room with
              | zero => rw [expressionWithin]
              | succ room =>
                  rw [expressionWithin]
                  exact operandsBy_of_error hi (ih (by omega))

end Brackets

namespace FlowContext

variable {cx : FlowContext} {arena : Arena} {i : Nat}

theorem expression_limits (cx : FlowContext) (arena : Arena) (i : Nat) :
    Limits (cx.expression arena i) (cx.scope.expression arena i) := by
  unfold expression
  split
  · exact .inr rfl
  · exact (Brackets.limits_within cx.scope.toBrackets arena _).1 i

/-- What is read with room for so many calls is what is read without a limit. -/
theorem expression_of_ok {e : Expression} (h : cx.expression arena i = .ok e) :
    cx.scope.expression arena i = .ok e := (cx.expression_limits arena i).eq_of_ok h

theorem ok_of_expression_bind {α : Type} {f : Expression → Except FlowError α} {a : α}
    (h : (cx.expression arena i >>= f) = .ok a) :
    ∃ e, cx.scope.expression arena i = .ok e ∧ f e = .ok a := by
  obtain ⟨e, he, hf⟩ := ok_of_bind_eq_ok h
  exact ⟨e, expression_of_ok he, hf⟩

theorem expression_of_unlimited (h : cx.room = none) (arena : Arena) (i : Nat) :
    cx.expression arena i = cx.scope.expression arena i := by
  rw [expression, h]

end FlowContext

end EmbeddedSql
