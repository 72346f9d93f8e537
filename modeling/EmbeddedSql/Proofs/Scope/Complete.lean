/-
# Complete code

Code is complete if its brackets balance, it ends with a semicolon and its creation expressions are
plain.  No stretch that is skipped in complete code goes past the closing semicolon: the semicolon is
no part of an operand, a bracket group ends before it because it is no bracket, and a statement ends
at it at the latest.  So a stretch that begins in the code ends at one of its tokens.

A creation expression is plain if `new` is followed by a dotted name and then directly by an opening
parenthesis or square bracket.  Then the tokens of the name alone say where the type ends
(`typeEnd_eq`): the search for its end meets nothing but names and dots until it stands at the bracket.
Type arguments and annotations are what it goes on through, and without a bracket it does not stop
before the end of the statement.
-/
import EmbeddedSql.Scope.Skip
import EmbeddedSql.Proofs.Scope.Balance

namespace EmbeddedSql

/-! ## Plain creation expressions -/

/-- The number of tokens of a dotted name with an opening parenthesis or square bracket right after
it. -/
def nameLength? : List Token → Option Nat
  | name :: t :: rest =>
    if !name.isIdent then none
    else if t.isPunct "(" || t.isPunct "[" then some 1
    else if t.isPunct "." then (nameLength? rest).map (· + 2)
    else none
  | _ => none

/-- Is every `new` followed by a dotted name and then directly by such a bracket? -/
def plainCreations : List Token → Bool
  | [] => true
  | t :: rest =>
    (!(t.isIdent && t.text == "new") || (nameLength? rest).isSome) && plainCreations rest

/-- The name is followed by a bracket. -/
theorem exists_opening_of_nameLength? {tokens : List Token} {n : Nat}
    (h : nameLength? tokens = some n) :
    ∃ t, tokens[n]? = some t ∧ (t.isPunct "(" || t.isPunct "[") = true := by
  fun_induction nameLength? tokens generalizing n with
  | case1 => cases h
  | case2 name t rest _ ht =>
      obtain rfl := Option.some.inj h
      exact ⟨t, rfl, ht⟩
  | case3 name t rest _ _ _ ih =>
      obtain ⟨m, hm, rfl⟩ := Option.map_eq_some_iff.1 h
      obtain ⟨u, hu, hopening⟩ := ih hm
      exact ⟨u, by simpa using hu, hopening⟩
  | case4 => cases h
  | case5 => cases h

theorem nameLength?_of_plainCreations {tokens : List Token} (h : plainCreations tokens = true)
    {i : Nat} {t : Token} (ht : tokens[i]? = some t)
    (hnew : (t.isIdent && t.text == "new") = true) :
    ∃ n, nameLength? (tokens.drop (i + 1)) = some n := by
  induction tokens generalizing i with
  | nil => simp at ht
  | cons u rest ih =>
      rw [plainCreations, Bool.and_eq_true] at h
      cases i with
      | zero =>
          obtain rfl := Option.some.inj ht
          rw [hnew] at h
          exact Option.isSome_iff_exists.1 (by simpa using h.1)
      | succ i => exact ih h.2 ht

namespace Brackets

variable {b : Brackets} {i n : Nat} {t : Token}

/-- A name or a dot belongs to the type. -/
theorem typeEnd_of_name (ht : b.token? i = some t) (hname : (t.isIdent || t.isPunct ".") = true) :
    b.typeEnd 0 i = b.typeEnd 0 (i + 1) := by
  obtain ⟨hi, rfl⟩ := Array.getElem?_eq_some_iff.1 ht
  have hop (text : String) : b.tokens[i].isOp text = false := by
    rw [Token.isOp, Bool.and_eq_false_iff]
    left
    simp only [Token.isIdent, Token.isPunct, Bool.or_eq_true, Bool.and_eq_true, beq_iff_eq] at hname
    rcases hname with hk | ⟨hk, -⟩ <;> simp [hk]
  have hopening : (b.tokens[i].isPunct "(" || b.tokens[i].isPunct "[") = false := by
    rcases Bool.or_eq_true_iff.1 hname with hk | hk
    · have hk' := beq_iff_eq.1 hk
      simp [Token.isPunct, hk']
    · simp only [Token.isPunct, Bool.and_eq_true, beq_iff_eq] at hk
      simp [Token.isPunct, hk.2]
  rw [typeEnd, dif_pos hi]
  simp only [hop, hopening, hname, Bool.false_eq_true, if_false, Bool.not_true, Bool.and_false]

/-- The type ends before a bracket. -/
theorem typeEnd_of_opening (ht : b.token? i = some t)
    (hopening : (t.isPunct "(" || t.isPunct "[") = true) : b.typeEnd 0 i = (i, true) := by
  obtain ⟨hi, rfl⟩ := Array.getElem?_eq_some_iff.1 ht
  have hop (text : String) : b.tokens[i].isOp text = false := by
    rw [Token.isOp, Bool.and_eq_false_iff]
    left
    simp only [Token.isPunct, Bool.or_eq_true, Bool.and_eq_true, beq_iff_eq] at hopening
    rcases hopening with ⟨hk, -⟩ | ⟨hk, -⟩ <;> simp [hk]
  rw [typeEnd, dif_pos hi]
  simp [hop, hopening]

/-- The type of a plain creation expression is the name that stands there. -/
theorem typeEnd_eq {tokens : List Token} (h : nameLength? tokens = some n)
    (hat : ∀ k u, tokens[k]? = some u → b.token? (i + k) = some u) :
    b.typeEnd 0 i = (i + n, true) := by
  fun_induction nameLength? tokens generalizing i n with
  | case1 => cases h
  | case2 name t rest hname ht =>
      obtain rfl := Option.some.inj h
      have hfirst : b.token? i = some name := hat 0 name rfl
      rw [typeEnd_of_name hfirst (by simpa using Or.inl hname)]
      exact typeEnd_of_opening (hat 1 t rfl) ht
  | case3 name t rest hname _ hdot ih =>
      obtain ⟨m, hm, rfl⟩ := Option.map_eq_some_iff.1 h
      have hfirst : b.token? i = some name := hat 0 name rfl
      have hrest (k : Nat) (u : Token) (hu : rest[k]? = some u) : b.token? (i + 2 + k) = some u := by
        have hk := hat (k + 2) u hu
        rwa [Nat.add_comm k, ← Nat.add_assoc] at hk
      rw [typeEnd_of_name hfirst (by simpa using Or.inl hname),
        typeEnd_of_name (hat 1 t rfl) (by simp [hdot]), ih hm hrest, Nat.add_assoc,
        Nat.add_comm 2]
  | case4 => cases h
  | case5 => cases h

end Brackets

/-! ## Tokens that are no semicolon -/

theorem Token.isSome_opens? {t : Token} {text : String} (h : t.isPunct text = true)
    (htext : text ∈ ["(", "[", "\x7b"]) : t.opens?.isSome = true := by
  simp only [Token.isPunct, Bool.and_eq_true, beq_iff_eq] at h
  obtain ⟨hkind, rfl⟩ := h
  simp only [List.mem_cons, List.not_mem_nil, or_false] at htext
  rcases htext with ht | ht | ht <;> simp [Token.opens?, Token.isPunct, hkind, ht]

/-- A group that opens after an operand. -/
theorem Token.isSome_opens?_of_or {t : Token} (h : (t.isPunct "(" || t.isPunct "[") = true) :
    t.opens?.isSome = true := by
  rcases Bool.or_eq_true_iff.1 h with hp | hp
  · exact isSome_opens? hp (by simp)
  · exact isSome_opens? hp (by simp)

theorem Token.isPunct_of_ne {t : Token} {text other : String} (h : t.isPunct text = true)
    (hne : text ≠ other) : t.isPunct other = false := by
  simp only [Token.isPunct, Bool.and_eq_true, beq_iff_eq] at h
  simp [Token.isPunct, h.2, hne]

theorem Token.isPunct_of_kind {t : Token} (h : t.kind ≠ .punctuation) (text : String) :
    t.isPunct text = false := by
  simp [Token.isPunct, h]

/-- A bracket is no semicolon. -/
theorem Token.isPunct_of_closes? {t : Token} {own : Bracket} (h : t.closes? = some own) :
    t.isPunct ";" = false := by
  rw [Bool.eq_false_iff]
  intro hp
  simp only [Token.isPunct, Bool.and_eq_true, beq_iff_eq] at hp
  simp [Token.closes?, Token.isPunct, hp.2] at h

namespace Brackets

/-- The type of a creation expression, from the tokens after `new`. -/
theorem typeEnd_of_creation {b : Brackets} {i n : Nat}
    (hn : nameLength? (b.tokens.toList.drop (i + 1)) = some n) :
    b.typeEnd 0 (i + 1) = (i + 1 + n, true) := by
  refine typeEnd_eq hn fun k u hu => ?_
  rwa [List.getElem?_drop, Array.getElem?_toList] at hu

/-- A token that is none of the stops is no semicolon if that is one of them. -/
theorem isPunct_of_not_stop {t : Token} {stops : List String} (hstops : stops.contains ";" = true)
    (h : ¬ (t.kind == .punctuation && stops.contains t.text) = true) : t.isPunct ";" = false := by
  rw [Bool.eq_false_iff]
  intro hp
  simp only [Token.isPunct, Bool.and_eq_true, beq_iff_eq] at hp
  refine h (Bool.and_eq_true_iff.2 ⟨beq_iff_eq.2 hp.1, ?_⟩)
  rw [hp.2]
  exact hstops

/-! ## Complete code -/

/-- Every bracket is closed, a semicolon stands at the end and outside all brackets, and every `new` is
followed by a name and arguments or a dimension. -/
structure Complete (b : Brackets) : Prop where
  balanced : Balanced b.tokens.toList
  closing : b.isPunct (b.size - 1) ";" = true
  creations : plainCreations b.tokens.toList = true

namespace Complete

variable {b : Brackets} (h : Complete b) {i j : Nat} {t : Token}
include h

theorem size_pos : 0 < b.size := by
  have := lt_size_of_any h.closing
  omega

/-- Every token but the closing semicolon has one after it. -/
theorem succ_lt (ht : b.token? i = some t) (hne : t.isPunct ";" = false) : i + 1 < b.size := by
  obtain ⟨hi, -⟩ := Array.getElem?_eq_some_iff.1 ht
  rcases Nat.lt_or_ge (i + 1) b.size with hlt | hlast
  · exact hlt
  · obtain rfl : i = b.size - 1 := by simp only [size] at hlast ⊢; omega
    have hclosing := h.closing
    rw [isPunct, ht, Option.any_some, hne] at hclosing
    cases hclosing

theorem succ_lt_of_any {p : Token → Bool} (hp : ∀ t, p t = true → t.isPunct ";" = false)
    (hi : (b.token? i).any p = true) : i + 1 < b.size := by
  obtain ⟨t, ht, hpt⟩ := (Option.any_eq_true _ _).1 hi
  exact h.succ_lt ht (hp t hpt)

theorem succ_lt_of_isIdent (hi : b.isIdent i = true) : i + 1 < b.size :=
  h.succ_lt_of_any (fun t ht => t.isPunct_of_kind (by simp [beq_iff_eq.1 ht]) ";") hi

/-- A word that passes a test. -/
theorem succ_lt_of_word {p : Token → Bool}
    (hi : (b.token? i).any (fun t => t.isIdent && p t) = true) : i + 1 < b.size := by
  refine h.succ_lt_of_any (fun t ht => t.isPunct_of_kind ?_ ";") hi
  simp [beq_iff_eq.1 (Bool.and_eq_true_iff.1 ht).1]

theorem succ_lt_of_isOp {text : String} (hi : b.isOp i text = true) : i + 1 < b.size := by
  refine h.succ_lt_of_any (fun t ht => t.isPunct_of_kind ?_ ";") hi
  simp only [Token.isOp, Bool.and_eq_true, beq_iff_eq] at ht
  simp [ht.1]

theorem succ_lt_of_isPunct {text : String} (hi : b.isPunct i text = true) (hne : text ≠ ";") :
    i + 1 < b.size :=
  h.succ_lt_of_any (fun _ ht => Token.isPunct_of_ne ht hne) hi

theorem exists_closer (ht : b.token? i = some t) (ho : t.opens?.isSome = true) :
    ∃ j, b.closer? i = some j := by
  obtain ⟨own, ho⟩ := Option.isSome_iff_exists.1 ho
  exact exists_closer? h.balanced ht ho

/-- A group ends before the closing semicolon. -/
theorem succ_closer_lt (hc : b.closer? i = some j) : j + 1 < b.size := by
  obtain ⟨t, own, ht, ho⟩ := exists_token_of_closer? hc
  exact h.succ_lt ht (Token.isPunct_of_closes? ho)

theorem skipGroup_lt (ht : b.token? i = some t) (ho : t.opens?.isSome = true) :
    b.skipGroup i < b.size := by
  obtain ⟨j, hj⟩ := h.exists_closer ht ho
  rw [skipGroup, hj]
  exact h.succ_closer_lt hj

theorem skipPostfix_lt (hi : i < b.size) : b.skipPostfix i < b.size := by
  fun_induction Brackets.skipPostfix b i with
  | case1 i _ t hmember ih =>
      exact ih (h.succ_lt_of_isIdent (Bool.and_eq_true_iff.1 hmember).2)
  | case2 i hlt t _ hopening _ ih =>
      have ht : b.token? i = some b.tokens[i] := Array.getElem?_eq_getElem hlt
      exact ih (h.skipGroup_lt ht (Token.isSome_opens?_of_or hopening))
  | case3 => exact hi
  | case4 => exact hi

theorem skipGroups_lt (hi : i < b.size) : b.skipGroups i < b.size := by
  fun_induction Brackets.skipGroups b i with
  | case1 i hlt t hopening _ ih =>
      have ht : b.token? i = some b.tokens[i] := Array.getElem?_eq_getElem hlt
      exact ih (h.skipGroup_lt ht (Token.isSome_opens?_of_or hopening))
  | case2 => exact hi
  | case3 => exact hi

/-- The type of a creation expression ends in the code. -/
theorem exists_typeEnd (hnew : b.isWord i "new" = true) :
    ∃ n, nameLength? (b.tokens.toList.drop (i + 1)) = some n ∧ i + 1 + n < b.size := by
  obtain ⟨t, ht, hword⟩ := (Option.any_eq_true _ _).1 hnew
  rw [token?, ← Array.getElem?_toList] at ht
  obtain ⟨n, hn⟩ := nameLength?_of_plainCreations h.creations ht hword
  obtain ⟨u, hu, -⟩ := exists_opening_of_nameLength? hn
  rw [List.getElem?_drop] at hu
  exact ⟨n, hn, (List.getElem?_eq_some_iff.1 hu).1⟩

theorem skipNew_lt (hnew : b.isWord i "new" = true) : b.skipNew i < b.size := by
  obtain ⟨n, hn, hlt⟩ := h.exists_typeEnd hnew
  have hg : b.skipGroups (i + 1 + n) < b.size := h.skipGroups_lt hlt
  rw [skipNew, typeEnd_of_creation hn]
  dsimp only
  split
  · next hbody =>
      obtain ⟨t, ht, hp⟩ := (Option.any_eq_true _ _).1 hbody
      exact h.skipPostfix_lt (h.skipGroup_lt ht (Token.isSome_opens? hp (by simp)))
  · exact h.skipPostfix_lt hg

theorem skipToStop_lt {stops : List String} (hstops : stops.contains ";" = true) (hi : i < b.size) :
    b.skipToStop stops i < b.size := by
  fun_induction Brackets.skipToStop b stops i with
  | case1 => exact hi
  | case2 i hlt t _ ho _ ih =>
      have ht : b.token? i = some b.tokens[i] := Array.getElem?_eq_getElem hlt
      exact ih (h.skipGroup_lt ht ho)
  | case3 => exact hi
  | case4 i hlt t hstop _ _ ih =>
      have ht : b.token? i = some b.tokens[i] := Array.getElem?_eq_getElem hlt
      exact ih (h.succ_lt ht (isPunct_of_not_stop hstops hstop))
  | case5 => exact hi

end Complete

end Brackets

end EmbeddedSql
