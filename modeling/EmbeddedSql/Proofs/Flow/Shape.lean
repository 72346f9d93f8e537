/-
# The shape of an expression

Which tokens an expression takes, and which literals it holds, does not depend on the variables that are
tracked.  `Shape` says what operands and expressions look like:

| | |
| :-- | :-- |
| `literal` | a string literal and what follows it |
| `other` | anything without literals of its own, also a group whose value is not known |
| `cast` | a group before an operand |
| `group` | an expression in parentheses and what follows it |
| `plus` | an operand, a plus sign and the rest of the expression |

Every expression that is read has a shape (`expression_shape`), in balanced code with plain creation
expressions.  From the shape it follows that an expression goes across code, that its literals stand in
order, that a literal between them that it does not hold is in brackets (`Shape.enclosed`), and that its
literals all have the same nearest call (`Shape.nearestCall?_eq`).
-/
import EmbeddedSql.Proofs.Flow.Agreement
import EmbeddedSql.Proofs.Flow.Coverage
import EmbeddedSql.Proofs.Scope.Surroundings

namespace EmbeddedSql

namespace Brackets

inductive Part where
  | operand
  | expression
deriving DecidableEq

/-- From place `i` to place `stop` there is an operand or an expression that holds these literals. -/
inductive Shape (b : Brackets) : Part → Nat → List Nat → Nat → Prop
  | literal {i stop : Nat} : b.isString i = true → b.Across (·.links = true) (i + 1) stop →
      Shape b .operand i [i] stop
  | other {i stop : Nat} : b.Across (·.links = true) i stop → Shape b .operand i [] stop
  | cast {i close stop : Nat} {literals : List Nat} : b.closer? i = some close →
      Shape b .operand (close + 1) literals stop → Shape b .operand i literals stop
  | group {i close stop : Nat} {literals : List Nat} : b.isPunct i "(" = true →
      b.closer? i = some close → Shape b .expression (i + 1) literals close →
      b.Across (·.links = true) (close + 1) stop → Shape b .operand i literals stop
  | nothing (i : Nat) : Shape b .expression i [] i
  | single {i stop : Nat} {literals : List Nat} : Shape b .operand i literals stop →
      Shape b .expression i literals stop
  | plus {i mid stop : Nat} {literals rest : List Nat} : Shape b .operand i literals mid →
      b.isOp mid "+" = true → Shape b .expression (mid + 1) rest stop →
      Shape b .expression i (literals ++ rest) stop

variable {b : Brackets} {arena : Arena} {i : Nat}

/-! ## Tokens that are no literals or names -/

theorem isString_of_opening {close : Nat} (h : b.closer? i = some close) : b.isString i = false := by
  obtain ⟨t, -, own, ht, ho, -, -⟩ := exists_kind_of_closer? h
  have hopening : b.isPunct i own.opening = true := by
    rw [isPunct, ht]
    exact Token.opens?_eq_some.1 ho
  exact isString_of_isPunct hopening

theorem isIdent_eq_false {q : Token → Bool} (h : (b.token? i).any q = true)
    (hq : ∀ t, q t = true → t.kind ≠ .identifier) : b.isIdent i = false := by
  obtain ⟨t, ht, hqt⟩ := exists_token_of_any h
  rw [isIdent, ht, Option.any_some, Token.isIdent]
  exact beq_false_of_ne (hq t hqt)

theorem isIdent_of_isPunct {text : String} (h : b.isPunct i text = true) : b.isIdent i = false :=
  isIdent_eq_false h fun t ht hk => by simp [Token.isPunct, hk] at ht

theorem isIdent_of_isOp {text : String} (h : b.isOp i text = true) : b.isIdent i = false :=
  isIdent_eq_false h fun t ht hk => by simp [Token.isOp, hk] at ht

theorem isIdent_of_closer? {close : Nat} (h : b.closer? i = some close) : b.isIdent close = false := by
  obtain ⟨-, u, own, -, -, hu, hc⟩ := exists_kind_of_closer? h
  have hclosing : b.isPunct close own.closing = true := by
    rw [isPunct, hu]
    exact Token.closes?_eq_some.1 hc
  exact isIdent_of_isPunct hclosing

/-! ## Every expression has a shape -/

mutual
theorem expression_shape (hb : b.Regular) {i : Nat} {e : Expression} (h : b.expression arena i = .ok e) :
    b.Shape .expression i e.literals e.stop := by
  rw [expression] at h
  obtain ⟨first, hfirst, h⟩ := ok_of_bind_eq_ok h
  cases first with
  | none =>
      cases h
      exact .nothing i
  | some first =>
      have hshape := operand_shape hb hfirst
      have hlt := first.start_lt_stop
      dsimp only at h
      split at h
      · next hplus =>
          have hsize : first.stop < b.size := lt_size_of_any hplus
          obtain ⟨rest, hrest, h⟩ := ok_of_bind_eq_ok h
          cases h
          exact .plus hshape hplus (expression_shape hb hrest)
      · cases h
        exact .single hshape
termination_by (b.size - i, 2)

theorem operand_shape (hb : b.Regular) {i : Nat} {o : Operand i} (h : b.operand arena i = .ok (some o)) :
    b.Shape .operand i o.literals o.stop := by
  rw [operand] at h
  split at h
  · next hi =>
      have ht : b.token? i = some b.tokens[i] := Array.getElem?_eq_getElem hi
      dsimp only at h
      split at h
      · next hkind =>
          obtain ⟨v, -, ho⟩ := ok_of_map_eq_ok h
          cases ho
          have hstring : b.isString i = true := by
            rw [isString, ht]
            simp [Token.isString, hkind]
          exact .literal hstring (across_skipPostfix hb.balanced (i + 1))
      · next hkind =>
          have hone : b.Across (·.links = true) i (i + 1) :=
            .of_kind ht (by simp [hkind]) (Token.links_of_kind (by simp [hkind]) (by simp [hkind]))
              (.here _)
          split at h
          · obtain ⟨v, -, ho⟩ := ok_of_map_eq_ok h
            cases ho
            exact .other hone
          · split at h
            · cases h
              exact .other hone
            · cases h
      · next hkind =>
          split at h
          · next htext =>
              have hparen : b.isPunct i "(" = true := by
                rw [isPunct, ht]
                simp [Token.isPunct, hkind, beq_iff_eq.1 htext]
              obtain ⟨g, hg, ho⟩ := ok_of_map_eq_ok h
              cases ho
              exact group_shape hb hi hparen hg
          · cases h
      · next hkind =>
          have hident : b.isIdent i = true := by
            rw [isIdent, ht]
            simp [Token.isIdent, hkind]
          split at h
          · cases h
          · split at h
            · next hnew =>
                cases h
                have hword : b.isWord i "new" = true := by
                  rw [isWord, ht]
                  simp [Token.isIdent, hkind, beq_iff_eq.1 hnew]
                exact .other (hb.across_skipNew hword)
            · cases h
              rw [reference_stop, reference_literals]
              exact .other (.of_isIdent hident (across_skipPostfix hb.balanced (i + 1)))
      · cases h
  · cases h
termination_by (b.size - i, 1)

theorem group_shape (hb : b.Regular) {i : Nat} (hi : i < b.size) (hparen : b.isPunct i "(" = true)
    {g : Operand i} (h : b.group arena i hi = .ok g) : b.Shape .operand i g.literals g.stop := by
  obtain ⟨close, hc⟩ := exists_closer?_of_paren hb.balanced hparen
  have hlt : i < close := lt_of_closer? hc
  have hs : i < b.skipPostfix (close + 1) := by
    have := b.le_skipPostfix (close + 1)
    omega
  have hafter := across_skipPostfix hb.balanced (close + 1)
  rw [group_of_closed arena hi hc hlt hs] at h
  obtain ⟨cast, hcast, h⟩ := ok_of_bind_eq_ok h
  cases cast with
  | some cast =>
      cases h
      have hoperand : b.operand arena (close + 1) = .ok (some cast) := by
        split at hcast
        · exact hcast
        · cases hcast
      exact .cast hc (operand_shape hb hoperand)
  | none =>
      obtain ⟨inner, hinner, h⟩ := ok_of_bind_eq_ok h
      split at h
      · next hfills =>
          cases h
          have hshape := expression_shape hb hinner
          rw [hfills.1] at hshape
          exact .group hparen hc hshape hafter
      · cases h
        exact .other (.group hc hafter)
termination_by (b.size - i, 0)
end

/-! ## What follows from the shape -/

theorem Across.of_isOp {text : String} {j : Nat} (h : b.isOp i text = true)
    (hrest : b.Across (·.continues = true) (i + 1) j) : b.Across (·.continues = true) i j := by
  obtain ⟨t, ht, hop⟩ := exists_token_of_any h
  have hkind : t.kind = .operator := beq_iff_eq.1 (Bool.and_eq_true_iff.1 hop).1
  exact .of_kind ht (by simp [hkind]) (by simp [Token.continues, Token.isPunct, hkind]) hrest

namespace Shape

variable {part : Part} {j k stop : Nat} {literals : List Nat}

/-- Whatever has a shape goes across code. -/
theorem across (h : b.Shape part i literals stop) : b.Across (·.continues = true) i stop := by
  have hlinks : ∀ {i j : Nat}, b.Across (·.links = true) i j → b.Across (·.continues = true) i j :=
    fun h => h.mono fun t ht => (Bool.and_eq_true_iff.1 ht).1
  induction h with
  | @literal i stop hstring hafter =>
      obtain ⟨t, ht, hs⟩ := exists_token_of_any hstring
      have hkind : t.kind = .stringLiteral := beq_iff_eq.1 hs
      refine .of_kind ht (by simp [hkind]) ?_ (hlinks hafter)
      simp [Token.continues, Token.isPunct, hkind]
  | other hacross => exact hlinks hacross
  | cast hc _ ih => exact .group hc ih
  | group _ hc _ hafter _ => exact .group hc (hlinks hafter)
  | nothing i => exact .here i
  | single _ ih => exact ih
  | plus _ hplus _ ih ih' => exact ih.trans (.of_isOp hplus ih')

/-- The literals stand in it. -/
theorem bounds (h : b.Shape part i literals stop) :
    ∀ k ∈ literals, i ≤ k ∧ k < stop ∧ b.isString k = true := by
  induction h with
  | @literal i stop hstring hafter =>
      intro k hk
      have hle := hafter.le
      rw [List.mem_singleton.1 hk]
      exact ⟨Nat.le_refl i, by omega, hstring⟩
  | other => exact nofun
  | cast hc _ ih =>
      intro k hk
      obtain ⟨hle, hlt, hstring⟩ := ih k hk
      have := lt_of_closer? hc
      exact ⟨by omega, hlt, hstring⟩
  | group _ hc _ hafter ih =>
      intro k hk
      obtain ⟨hle, hlt, hstring⟩ := ih k hk
      have := hafter.le
      exact ⟨by omega, by omega, hstring⟩
  | nothing => exact nofun
  | single _ ih => exact ih
  | plus hfirst _ hrest ih ih' =>
      intro k hk
      have hle := hfirst.across.le
      have hle' := hrest.across.le
      rcases List.mem_append.1 hk with hk | hk
      · obtain ⟨hge, hlt, hstring⟩ := ih k hk
        exact ⟨hge, by omega, hstring⟩
      · obtain ⟨hge, hlt, hstring⟩ := ih' k hk
        exact ⟨by omega, hlt, hstring⟩

/-- They stand in order, so none of them stands there twice. -/
theorem pairwise (h : b.Shape part i literals stop) : literals.Pairwise (· < ·) := by
  induction h with
  | literal => exact List.pairwise_singleton _ _
  | other => exact .nil
  | cast _ _ ih => exact ih
  | group _ _ _ _ ih => exact ih
  | nothing => exact .nil
  | single _ ih => exact ih
  | plus hfirst _ hrest ih ih' =>
      refine List.pairwise_append.2 ⟨ih, ih', fun k hk l hl => ?_⟩
      have hbefore := (hfirst.bounds k hk).2.1
      have hafter := (hrest.bounds l hl).1
      omega

end Shape

/-- A literal in a stretch that does not step on literals is in one of its groups. -/
theorem Across.exists_group {j stop : Nat} (h : b.Across (·.links = true) i stop) (hij : i ≤ j)
    (hj : j < stop) (hstring : b.isString j = true) :
    ∃ o close, b.closer? o = some close ∧ o < j ∧ j < close ∧ close < stop := by
  obtain ⟨t, ht, hs⟩ := exists_token_of_any hstring
  rcases h.at hij hj with ⟨-, hafter⟩ | ⟨o, close, hc, -, hoj, hjc, hstop⟩
  · cases hafter with
    | here => omega
    | token ht' _ _ hlinks _ =>
        obtain rfl := Option.some.inj (ht.symm.trans ht')
        simp [Token.links, hs] at hlinks
    | group hc _ =>
        have ho : t.opens? = none := Token.opens?_of_kind (by simp [beq_iff_eq.1 hs])
        exact absurd ho (opens?_of_closer? hc ht)
  · have hne : j ≠ close := by
      rintro rfl
      rw [isString_of_closer? hc] at hstring
      cases hstring
    exact ⟨o, close, hc, hoj, by omega, hstop⟩

/-- A literal that an expression does not hold is in brackets, which end before the literals after it that
the expression holds. -/
theorem Shape.enclosed {part : Part} {j stop : Nat} {literals : List Nat}
    (h : b.Shape part i literals stop) (hij : i ≤ j) (hj : j < stop) (hstring : b.isString j = true)
    (hnot : j ∉ literals) :
    ∃ o close, b.closer? o = some close ∧ o < j ∧ j < close ∧ close < stop ∧
      ∀ k ∈ literals, j < k → close < k := by
  induction h with
  | @literal i stop _ hafter =>
      have hne : j ≠ i := fun h => hnot (List.mem_singleton.2 h)
      obtain ⟨o, close, hc, hoj, hjc, hstop⟩ := hafter.exists_group (by omega) hj hstring
      refine ⟨o, close, hc, hoj, hjc, hstop, fun k hk hlt => ?_⟩
      rw [List.mem_singleton.1 hk] at hlt
      omega
  | other hacross =>
      obtain ⟨o, close, hc, hoj, hjc, hstop⟩ := hacross.exists_group hij hj hstring
      exact ⟨o, close, hc, hoj, hjc, hstop, nofun⟩
  | @cast i close stop literals hc hoperand ih =>
      have hle := hoperand.across.le
      by_cases hin : j < close
      · have hne : j ≠ i := by
          rintro rfl
          rw [isString_of_opening hc] at hstring
          cases hstring
        refine ⟨i, close, hc, by omega, hin, by omega, fun k hk _ => ?_⟩
        have := (hoperand.bounds k hk).1
        omega
      · have hne : j ≠ close := by
          rintro rfl
          rw [isString_of_closer? hc] at hstring
          cases hstring
        exact ih (by omega) hj hnot
  | @group i close stop literals hparen hc hinner hafter ih =>
      have hne : j ≠ i := by
        rintro rfl
        rw [isString_of_isPunct hparen] at hstring
        cases hstring
      have hne' : j ≠ close := by
        rintro rfl
        rw [isString_of_closer? hc] at hstring
        cases hstring
      have hle := hafter.le
      by_cases hin : j < close
      · obtain ⟨o, close', hc', hoj, hjc, hstop, hlater⟩ := ih (by omega) hin hnot
        exact ⟨o, close', hc', hoj, hjc, by omega, hlater⟩
      · obtain ⟨o, close', hc', hoj, hjc, hstop⟩ := hafter.exists_group (by omega) hj hstring
        refine ⟨o, close', hc', hoj, hjc, hstop, fun k hk hlt => ?_⟩
        have := (hinner.bounds k hk).2.1
        omega
  | nothing => omega
  | single _ ih => exact ih hij hj hnot
  | @plus i mid stop literals rest hfirst hplus hrest ih ih' =>
      rw [List.mem_append, not_or] at hnot
      have hle := hrest.across.le
      have hne : j ≠ mid := by
        rintro rfl
        rw [isString_of_isOp hplus] at hstring
        cases hstring
      by_cases hin : j < mid
      · obtain ⟨o, close, hc, hoj, hjc, hstop, hlater⟩ := ih hij hin hnot.1
        refine ⟨o, close, hc, hoj, hjc, by omega, fun k hk hlt => ?_⟩
        rcases List.mem_append.1 hk with hk | hk
        · exact hlater k hk hlt
        · have := (hrest.bounds k hk).1
          omega
      · obtain ⟨o, close, hc, hoj, hjc, hstop, hlater⟩ := ih' (by omega) hj hnot.2
        refine ⟨o, close, hc, hoj, hjc, hstop, fun k hk hlt => ?_⟩
        rcases List.mem_append.1 hk with hk | hk
        · have := (hfirst.bounds k hk).2.1
          omega
        · exact hlater k hk hlt

/-! ## The literal that an expression is found by -/

/-- Names that are joined to a literal by `+` before it add nothing to the shape of its expression. -/
theorem Shape.of_leadsTo {p : Nat} (hb : b.Regular) (hl : b.LeadsTo i p) {e : Expression}
    (h : b.expression arena p = .ok e) : b.Shape .expression i e.literals e.stop := by
  induction hl generalizing e with
  | literal => exact expression_shape hb h
  | @name p hident hword hplus _ ih =>
      obtain ⟨o, ho, hstop⟩ := operand_of_name arena hident hword hplus
      have hnone : o.literals = [] := by
        refine List.eq_nil_iff_forall_not_mem.2 fun k hk => ?_
        obtain ⟨hle, hlt, hstring⟩ := (operand_shape hb ho).bounds k hk
        obtain rfl : k = p := by omega
        rw [isString_of_isIdent hident] at hstring
        cases hstring
      rw [expression, ho] at h
      change (if _ : b.isOp o.stop "+" = true then _ else _) = _ at h
      rw [hstop] at h
      rw [dif_pos hplus] at h
      obtain ⟨rest, hrest, h⟩ := ok_of_bind_eq_ok h
      cases h
      dsimp only
      rw [hnone, List.nil_append]
      exact ih hrest

end Brackets

/-! ## The calls around an expression -/

variable {sc : Scope} {classifier : Classifier} {i stop : Nat} {literals : List Nat}

/-- All literals of an expression have the same nearest classified call, provided that it does not begin
with the parenthesis of a call. -/
theorem Brackets.Shape.nearestCall?_eq {part : Brackets.Part} (hsc : sc.FramedBy classifier)
    (hb : Balanced sc.tokens.toList) (h : sc.Shape part i literals stop)
    (hcall : (sc.tokenBefore? i 1).any (·.isIdent) = false ∨ sc.isPunct i "(" = false) :
    ∀ k ∈ literals, sc.nearestCall? k = sc.nearestCall? i := by
  have hsize : ∀ {k : Nat}, sc.isString k = true → k < sc.size := fun hs =>
    Brackets.lt_size_of_any hs
  induction h with
  | literal =>
      intro k hk
      rw [List.mem_singleton.1 hk]
  | other => exact nofun
  | @cast i close stop literals hc hoperand ih =>
      intro k hk
      obtain ⟨hle, hlt, hstring⟩ := hoperand.bounds k hk
      have hk' := hsize hstring
      have hbefore : (sc.tokenBefore? (close + 1) 1).any (·.isIdent) = false := by
        rw [Brackets.tokenBefore?_succ]
        exact Brackets.isIdent_of_closer? hc
      rw [ih (.inl hbefore) k hk]
      have hacross : sc.Across (fun _ => True) i (close + 1) := .group hc (.here _)
      exact hsc.nearestCall?_across hb hacross (by omega)
  | @group i close stop literals hparen hc hinner hafter ih =>
      intro k hk
      obtain ⟨hle, hlt, hstring⟩ := hinner.bounds k hk
      have hk' := hsize hstring
      have hbefore : (sc.tokenBefore? i 1).any (·.isIdent) = false := by
        rcases hcall with hcall | hcall
        · exact hcall
        · rw [hparen] at hcall
          cases hcall
      have hbefore' : (sc.tokenBefore? (i + 1) 1).any (·.isIdent) = false := by
        rw [Brackets.tokenBefore?_succ]
        exact Brackets.isIdent_of_isPunct hparen
      rw [ih (.inl hbefore') k hk]
      exact hsc.nearestCall?_inside hparen hbefore (by omega)
  | nothing => exact nofun
  | single _ ih => exact ih hcall
  | @plus i mid stop literals rest hfirst hplus hrest ih ih' =>
      intro k hk
      rcases List.mem_append.1 hk with hk | hk
      · exact ih hcall k hk
      · obtain ⟨hle, hlt, hstring⟩ := hrest.bounds k hk
        have hk' := hsize hstring
        have hbefore : (sc.tokenBefore? (mid + 1) 1).any (·.isIdent) = false := by
          rw [Brackets.tokenBefore?_succ]
          exact Brackets.isIdent_of_isOp hplus
        have hacross : sc.Across (·.continues = true) i (mid + 1) :=
          hfirst.across.trans (Brackets.Across.of_isOp hplus (.here _))
        rw [ih' (.inl hbefore) k hk]
        exact hsc.nearestCall?_across hb hacross (by omega)

end EmbeddedSql
