/-
# A free-standing expression holds its first literal

A free-standing expression is found by a literal but read from where it begins, which may be some names
joined to the literal by `+` before it.  Reading it from there comes back to the literal: each of these
names is an operand of one token, since a plus sign follows and nothing else can belong to it, and what
follows the plus sign is read next.
-/
import EmbeddedSql.Flow.Loose
import EmbeddedSql.Proofs.Fallible

namespace EmbeddedSql.Brackets

variable {b : Brackets} {arena : Arena} {i p : Nat}

/-- Does a string literal stand at place `i`? -/
def isString (b : Brackets) (i : Nat) : Bool := (b.token? i).any (·.isString)

theorem exists_token_of_any {q : Token → Bool} (h : (b.token? i).any q = true) :
    ∃ t, b.token? i = some t ∧ q t = true := by
  cases ht : b.token? i with
  | none =>
      rw [ht] at h
      cases h
  | some t =>
      rw [ht] at h
      exact ⟨t, rfl, h⟩

/-! ## Operands of one token -/

theorem plus_of_isOp (h : b.isOp i "+" = true) :
    ∃ hi : i < b.size, b.tokens[i].kind = .operator ∧ b.tokens[i].text = "+" := by
  obtain ⟨t, ht, hop⟩ := exists_token_of_any h
  obtain ⟨hi, rfl⟩ := Array.getElem?_eq_some_iff.1 ht
  rw [Token.isOp, Bool.and_eq_true, beq_iff_eq, beq_iff_eq] at hop
  exact ⟨hi, hop⟩

/-- A plus sign belongs to no operand. -/
theorem skipPostfix_of_plus (h : b.isOp i "+" = true) : b.skipPostfix i = i := by
  obtain ⟨hi, hkind, htext⟩ := plus_of_isOp h
  rw [skipPostfix, dif_pos hi]
  simp [Token.isPunct, Token.isOp, hkind, htext]

theorem skipNew_of_plus (h : b.isOp (i + 1) "+" = true) : b.skipNew i = i + 1 := by
  obtain ⟨hi, hkind, htext⟩ := plus_of_isOp h
  have hend : b.typeEnd 0 (i + 1) = (i + 1, false) := by
    rw [typeEnd, dif_pos hi]
    simp [Token.isPunct, Token.isOp, Token.isIdent, hkind, htext]
  rw [skipNew, hend]

/-- A name before a plus sign is an operand of one token. -/
theorem operand_of_name (arena : Arena) (hname : b.isIdent i = true)
    (hword : b.isWordIn i nonOperandWords = false) (hplus : b.isOp (i + 1) "+" = true) :
    ∃ o, b.operand arena i = .ok (some o) ∧ o.stop = i + 1 := by
  obtain ⟨t, ht, hident⟩ := exists_token_of_any hname
  obtain ⟨hi, rfl⟩ := Array.getElem?_eq_some_iff.1 ht
  have hkind : b.tokens[i].kind = .identifier := beq_iff_eq.1 hident
  rw [isWordIn, ht, Option.any_some, hident, Bool.true_and] at hword
  rw [operand, dif_pos hi]
  simp only [hkind, hword, Bool.false_eq_true, if_false]
  split
  · exact ⟨_, rfl, skipNew_of_plus hplus⟩
  · refine ⟨_, rfl, ?_⟩
    have hstop : b.skipPostfix (i + 1) = i + 1 := skipPostfix_of_plus hplus
    unfold reference
    dsimp only
    split
    · split <;> exact hstop
    · exact hstop

/-- A string literal is an operand that holds itself. -/
theorem literals_of_isString (hs : b.isString i = true) {first : Option (Operand i)}
    (h : b.operand arena i = .ok first) : ∃ o, first = some o ∧ i ∈ o.literals := by
  obtain ⟨t, ht, hstring⟩ := exists_token_of_any hs
  obtain ⟨hi, rfl⟩ := Array.getElem?_eq_some_iff.1 ht
  have hkind : b.tokens[i].kind = .stringLiteral := beq_iff_eq.1 hstring
  rw [operand, dif_pos hi] at h
  simp only [hkind] at h
  obtain ⟨v, -, rfl⟩ := ok_of_map_eq_ok h
  exact ⟨_, rfl, List.mem_singleton.2 rfl⟩

/-! ## Reading on -/

/-- An expression holds what its first operand holds, and what is read after a plus sign. -/
theorem literals_of_expression {o : Operand i} (ho : b.operand arena i = .ok (some o))
    {e : Expression} (h : b.expression arena i = .ok e) :
    o.literals ⊆ e.literals ∧ (b.isOp o.stop "+" = true →
      ∃ rest, b.expression arena (o.stop + 1) = .ok rest ∧ rest.literals ⊆ e.literals) := by
  rw [expression, ho] at h
  change (if _ : b.isOp o.stop "+" = true then _ else _) = _ at h
  split at h
  · obtain ⟨rest, hrest, h⟩ := ok_of_bind_eq_ok h
    cases h
    exact ⟨List.subset_append_left _ _, fun _ => ⟨rest, hrest, List.subset_append_right _ _⟩⟩
  · next hplus =>
      cases h
      exact ⟨List.Subset.refl _, fun hp => absurd hp hplus⟩

/-- From place `p` on there are names joined by `+`, and then the literal at `i`. -/
inductive LeadsTo (b : Brackets) (i : Nat) : Nat → Prop
  | literal : LeadsTo b i i
  | name {p : Nat} : b.isIdent p = true → b.isWordIn p nonOperandWords = false →
      b.isOp (p + 1) "+" = true → LeadsTo b i (p + 2) → LeadsTo b i p

/-- Names that are pulled in lead to the literal. -/
theorem leadsTo_pullIn {lower : Nat} (h : b.LeadsTo i p) : b.LeadsTo i (b.pullIn lower p) := by
  fun_induction pullIn b lower p with
  | case1 p hlow hname ih =>
      simp only [Bool.and_eq_true, Bool.not_eq_true'] at hname
      obtain ⟨⟨⟨hplus, hident⟩, hword⟩, -⟩ := hname
      have hone : p - 2 + 1 = p - 1 := by omega
      have htwo : p - 2 + 2 = p := by omega
      exact ih (.name hident hword (hone ▸ hplus) (htwo.symm ▸ h))
  | case2 => exact h
  | case3 => exact h

/-- Reading from there comes to the literal. -/
theorem mem_literals_of_leadsTo (hl : b.LeadsTo i p) (hs : b.isString i = true) {e : Expression}
    (h : b.expression arena p = .ok e) : i ∈ e.literals := by
  induction hl generalizing e with
  | literal =>
      have hb := h
      rw [expression] at hb
      obtain ⟨first, ho, -⟩ := ok_of_bind_eq_ok hb
      obtain ⟨o, rfl, hm⟩ := literals_of_isString hs ho
      exact (literals_of_expression ho h).1 hm
  | @name p hident hword hplus _ ih =>
      obtain ⟨o, ho, hstop⟩ := operand_of_name arena hident hword hplus
      obtain ⟨rest, hrest, hsub⟩ := (literals_of_expression ho h).2 (hstop ▸ hplus)
      rw [hstop] at hrest
      exact hsub (ih hrest)

/-- The expression that is found by a literal holds it. -/
theorem mem_literals_of_pullIn {lower : Nat} (hs : b.isString i = true) {e : Expression}
    (h : b.expression arena (b.pullIn lower i) = .ok e) : i ∈ e.literals :=
  mem_literals_of_leadsTo (leadsTo_pullIn .literal) hs h

end EmbeddedSql.Brackets
