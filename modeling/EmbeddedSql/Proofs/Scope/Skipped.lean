/-
# What is skipped goes across

In balanced code, what the analysis skips are single tokens and whole bracket groups: what follows an
operand, a creation expression, the rest of a statement.  The tokens outside of brackets are told apart
by two tests.

| | |
| :-- | :-- |
| `Token.continues` | can stand in an expression: no semicolon and no comma |
| `Token.links` | can stand in an operand after its first token: no string literal either |
-/
import EmbeddedSql.Proofs.Scope.Across

namespace EmbeddedSql

/-! ## Tokens outside of brackets -/

/-- A token that can stand in an expression outside of brackets: no semicolon and no comma. -/
def Token.continues (t : Token) : Bool := !t.isPunct ";" && !t.isPunct ","

/-- Such a token that is no string literal either. -/
def Token.links (t : Token) : Bool := t.continues && !t.isString

namespace Token

variable {t : Token}

theorem links_of_kind (hkind : t.kind ≠ .punctuation) (hstring : t.kind ≠ .stringLiteral) :
    t.links = true := by
  simp [links, continues, isPunct, isString, hkind, hstring]

theorem links_of_isPunct {text : String} (h : t.isPunct text = true) (hsemicolon : text ≠ ";")
    (hcomma : text ≠ ",") : t.links = true := by
  have hkind : t.kind = .punctuation := beq_iff_eq.1 (Bool.and_eq_true_iff.1 h).1
  simp [links, continues, isPunct_of_ne h hsemicolon, isPunct_of_ne h hcomma, isString, hkind]

theorem opens?_of_kind (h : t.kind ≠ .punctuation) : t.opens? = none := by
  simp [opens?, isPunct, h]

theorem closes?_of_kind (h : t.kind ≠ .punctuation) : t.closes? = none := by
  simp [closes?, isPunct, h]

end Token

namespace Brackets

variable {b : Brackets} {P : Token → Prop} {i j n : Nat} {t : Token}

namespace Across

theorem of_kind (ht : b.token? i = some t) (h : t.kind ≠ .punctuation) (hp : P t)
    (hrest : b.Across P (i + 1) j) : b.Across P i j :=
  .token ht (Token.opens?_of_kind h) (Token.closes?_of_kind h) hp hrest

/-- A dot is no bracket. -/
theorem of_dot (ht : b.token? i = some t) (h : t.isPunct "." = true)
    (hrest : b.Across (·.links = true) (i + 1) j) : b.Across (·.links = true) i j := by
  have hne : ∀ text, "." ≠ text → t.isPunct text = false := fun _ => Token.isPunct_of_ne h
  refine .token ht ?_ ?_ (Token.links_of_isPunct h (by decide) (by decide)) hrest
  · simp [Token.opens?, hne]
  · simp [Token.closes?, hne]

theorem of_isIdent (h : b.isIdent i = true) (hrest : b.Across (·.links = true) (i + 1) j) :
    b.Across (·.links = true) i j := by
  obtain ⟨t, ht, hident⟩ := (Option.any_eq_true _ _).1 h
  have hkind : t.kind = .identifier := beq_iff_eq.1 hident
  exact .of_kind ht (by simp [hkind]) (Token.links_of_kind (by simp [hkind]) (by simp [hkind])) hrest

end Across

/-! ## Stretches -/

theorem across_skipGroup (hb : Balanced b.tokens.toList) (ht : b.token? i = some t)
    (ho : t.opens?.isSome = true) : b.Across P i (b.skipGroup i) := by
  obtain ⟨own, ho⟩ := Option.isSome_iff_exists.1 ho
  obtain ⟨close, hc⟩ := exists_closer? hb ht ho
  rw [skipGroup, hc]
  exact .group hc (.here _)

theorem across_skipPostfix (hb : Balanced b.tokens.toList) (i : Nat) :
    b.Across (·.links = true) i (b.skipPostfix i) := by
  fun_induction skipPostfix b i with
  | case1 i hi t hmember ih =>
      have ht : b.token? i = some b.tokens[i] := Array.getElem?_eq_getElem hi
      rw [Bool.and_eq_true, Bool.or_eq_true] at hmember
      obtain ⟨hdot | hdots, hident⟩ := hmember
      · exact .of_dot ht hdot (.of_isIdent hident ih)
      · have hkind : b.tokens[i].kind = .operator := beq_iff_eq.1 (Bool.and_eq_true_iff.1 hdots).1
        exact .of_kind ht (by simp [hkind]) (Token.links_of_kind (by simp [hkind]) (by simp [hkind]))
          (.of_isIdent hident ih)
  | case2 i hi t _ hopening _ ih =>
      have ht : b.token? i = some b.tokens[i] := Array.getElem?_eq_getElem hi
      exact (across_skipGroup hb ht (Token.isSome_opens?_of_or hopening)).trans ih
  | case3 => exact .here _
  | case4 => exact .here _

theorem across_skipGroups (hb : Balanced b.tokens.toList) (i : Nat) :
    b.Across P i (b.skipGroups i) := by
  fun_induction skipGroups b i with
  | case1 i hi t hopening _ ih =>
      have ht : b.token? i = some b.tokens[i] := Array.getElem?_eq_getElem hi
      exact (across_skipGroup hb ht (Token.isSome_opens?_of_or hopening)).trans ih
  | case2 => exact .here _
  | case3 => exact .here _

/-- The name of a type is gone across. -/
theorem across_of_nameLength? {tokens : List Token} (h : nameLength? tokens = some n)
    (hat : ∀ k u, tokens[k]? = some u → b.token? (i + k) = some u) :
    b.Across (·.links = true) i (i + n) := by
  fun_induction nameLength? tokens generalizing i n with
  | case1 => cases h
  | case2 name t rest hname ht =>
      obtain rfl := Option.some.inj h
      have hfirst : b.isIdent i = true := by
        rw [isIdent, show b.token? i = some name from hat 0 name rfl]
        simpa using hname
      exact .of_isIdent hfirst (.here _)
  | case3 name t rest hname _ hdot ih =>
      obtain ⟨m, hm, rfl⟩ := Option.map_eq_some_iff.1 h
      have hfirst : b.isIdent i = true := by
        rw [isIdent, show b.token? i = some name from hat 0 name rfl]
        simpa using hname
      have hrest := ih (i := i + 2) hm fun k u hu => by
        have hk := hat (k + 2) u hu
        rwa [Nat.add_comm k, ← Nat.add_assoc] at hk
      rw [Nat.add_comm m, ← Nat.add_assoc]
      exact .of_isIdent hfirst (.of_dot (hat 1 t rfl) hdot hrest)
  | case4 => cases h
  | case5 => cases h

/-- Every bracket is closed, and every `new` is followed by a name and arguments or a dimension. -/
structure Regular (b : Brackets) : Prop where
  balanced : Balanced b.tokens.toList
  creations : plainCreations b.tokens.toList = true

/-- A plain creation expression is gone across. -/
theorem Regular.across_skipNew (h : b.Regular) (hnew : b.isWord i "new" = true) :
    b.Across (·.links = true) i (b.skipNew i) := by
  have hb := h.balanced
  obtain ⟨t, ht, hword⟩ := (Option.any_eq_true _ _).1 hnew
  have hident : b.isIdent i = true := by
    rw [isIdent, ht]
    exact (Bool.and_eq_true_iff.1 hword).1
  rw [token?, ← Array.getElem?_toList] at ht
  obtain ⟨n, hn⟩ := nameLength?_of_plainCreations h.creations ht hword
  have hname : b.Across (·.links = true) (i + 1) (i + 1 + n) := by
    refine across_of_nameLength? hn fun k u hu => ?_
    rwa [List.getElem?_drop, Array.getElem?_toList] at hu
  have hgroups : b.Across (·.links = true) i (b.skipGroups (i + 1 + n)) :=
    .of_isIdent hident (hname.trans (across_skipGroups hb _))
  rw [skipNew, typeEnd_of_creation hn]
  dsimp only
  split
  · next hbody =>
      obtain ⟨t, ht, hp⟩ := (Option.any_eq_true _ _).1 hbody
      have hbrace := across_skipGroup (P := (·.links = true)) hb ht (Token.isSome_opens? hp (by simp))
      exact hgroups.trans (hbrace.trans (across_skipPostfix hb _))
  · exact hgroups.trans (across_skipPostfix hb _)

/-- The rest of a statement is gone across, and no expression goes on from there. -/
theorem across_skipToStop (hb : Balanced b.tokens.toList) {stops : List String}
    (hstops : ∀ text ∈ stops, text = ";" ∨ text = ",") (i : Nat) :
    b.Across (fun _ => True) i (b.skipToStop stops i) ∧
      b.Bars (·.continues = true) (b.skipToStop stops i) := by
  fun_induction skipToStop b stops i with
  | case1 i hi t hstop =>
      refine ⟨.here i, fun u hu => ?_⟩
      obtain rfl : t = u := Option.some.inj ((Array.getElem?_eq_getElem hi).symm.trans hu)
      rw [Bool.and_eq_true, beq_iff_eq, List.contains_iff_mem] at hstop
      obtain ⟨hkind, htext⟩ := hstop
      rcases hstops _ htext with h | h <;>
        exact ⟨by simp [Token.opens?, Token.isPunct, h],
          fun _ => by simp [Token.continues, Token.isPunct, hkind, h]⟩
  | case2 i hi t _ ho _ ih =>
      have ht : b.token? i = some b.tokens[i] := Array.getElem?_eq_getElem hi
      exact ⟨(across_skipGroup hb ht ho).trans ih.1, ih.2⟩
  | case3 i hi t _ ho hc =>
      refine ⟨.here i, fun u hu => ?_⟩
      obtain rfl : t = u := Option.some.inj ((Array.getElem?_eq_getElem hi).symm.trans hu)
      refine ⟨by simpa using ho, fun hnone => ?_⟩
      rw [hnone] at hc
      cases hc
  | case4 i hi t _ ho hc ih =>
      have ht : b.token? i = some b.tokens[i] := Array.getElem?_eq_getElem hi
      exact ⟨.token ht (by simpa using ho) (by simpa using hc) trivial ih.1, ih.2⟩
  | case5 i hi =>
      refine ⟨.here i, fun u hu => ?_⟩
      rw [token?, Array.getElem?_eq_none (Nat.le_of_not_lt hi)] at hu
      cases hu

end Brackets

end EmbeddedSql
