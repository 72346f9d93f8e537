/-
# Balanced code

Code is balanced if every closing bracket closes the innermost open one and nothing is open at the end.
`Bracket.openAfter` keeps the brackets that are open, and goes on only while this is so.  The search for
the partner of a bracket gives up brackets that do not fit, but in balanced code it never has to: it
meets the stack of what was opened since, and below it the bracket itself, so every bracket has a
partner of its own kind (`exists_closer?`).
-/
import EmbeddedSql.Scope.Brackets

namespace EmbeddedSql

namespace Bracket

/-- The brackets that are open after a token, innermost first, if `stack` holds those before it. -/
def afterToken (stack : List Bracket) (t : Token) : Option (List Bracket) :=
  match t.opens?, t.closes? with
  | some b, _ => some (b :: stack)
  | none, none => some stack
  | none, some b =>
    match stack with
    | top :: outer => if top = b then some outer else none
    | [] => none

/-- The brackets that are open after tokens. -/
def openAfter (stack : List Bracket) (tokens : List Token) : Option (List Bracket) :=
  tokens.foldlM afterToken stack

/-- Tokens that close everything close `own`, and before it what was opened since. -/
theorem exists_distance? {own : Bracket} {inner outer : List Bracket} {tokens : List Token}
    (h : openAfter (inner ++ own :: outer) tokens = some []) :
    ∃ n, own.distance? inner tokens = some n := by
  induction tokens generalizing inner with
  | nil =>
      have hnil : inner ++ own :: outer = [] := Option.some.inj h
      cases inner <;> cases hnil
  | cons t rest ih =>
      obtain ⟨stack, ht, hrest⟩ := Option.bind_eq_some_iff.1 h
      have hgo : ∀ {inner' : List Bracket}, stack = inner' ++ own :: outer →
          ∃ n, (own.distance? inner' rest).map (· + 1) = some n := by
        rintro inner' rfl
        obtain ⟨n, hn⟩ := ih hrest
        exact ⟨n + 1, congrArg (Option.map (· + 1)) hn⟩
      rw [afterToken] at ht
      rw [distance?]
      cases ho : t.opens? with
      | some b =>
          rw [ho] at ht
          exact hgo (Option.some.inj ht).symm
      | none =>
          cases hc : t.closes? with
          | none =>
              rw [ho, hc] at ht
              exact hgo (Option.some.inj ht).symm
          | some b =>
              rw [ho, hc] at ht
              cases inner with
              | nil =>
                  dsimp only [List.nil_append] at ht
                  split at ht
                  · next heq => exact ⟨0, if_pos heq⟩
                  · cases ht
              | cons top inner =>
                  dsimp only [List.cons_append] at ht
                  split at ht
                  · next heq =>
                      have hd : (top :: inner).dropWhile (· != b) = top :: inner :=
                        List.dropWhile_cons_of_neg (by simpa using heq)
                      dsimp only
                      rw [hd]
                      exact hgo (Option.some.inj ht).symm
                  · cases ht

/-- The token at the distance closes the bracket. -/
theorem exists_token_of_distance? {own : Bracket} {inner : List Bracket} {tokens : List Token}
    {n : Nat} (h : own.distance? inner tokens = some n) :
    ∃ t, tokens[n]? = some t ∧ t.closes? = some own := by
  fun_induction distance? own inner tokens generalizing n with
  | case1 => cases h
  | case2 _ _ _ _ _ ih | case3 _ _ _ _ _ ih | case4 _ _ _ _ _ _ _ _ _ ih =>
      obtain ⟨m, hm, rfl⟩ := Option.map_eq_some_iff.1 h
      exact ih hm
  | case5 _ t rest _ hc _ =>
      obtain rfl := Option.some.inj h
      exact ⟨t, rfl, hc⟩
  | case6 => cases h

end Bracket

/-- Every bracket is closed by one of its kind before the brackets around it are. -/
def Balanced (tokens : List Token) : Prop := Bracket.openAfter [] tokens = some []

instance (tokens : List Token) : Decidable (Balanced tokens) :=
  inferInstanceAs (Decidable (Bracket.openAfter [] tokens = some []))

namespace Brackets

variable {b : Brackets} {i j : Nat}

/-- The partner of a bracket is a bracket of the same kind. -/
theorem exists_token_of_closer? (h : b.closer? i = some j) :
    ∃ t own, b.token? j = some t ∧ t.closes? = some own := by
  rw [closer?_eq] at h
  obtain ⟨own, -, h⟩ := Option.bind_eq_some_iff.1 h
  obtain ⟨n, hn, rfl⟩ := Option.map_eq_some_iff.1 h
  obtain ⟨t, ht, hc⟩ := Bracket.exists_token_of_distance? hn
  rw [List.getElem?_drop, Array.getElem?_toList] at ht
  refine ⟨t, own, ?_, hc⟩
  rw [token?, show i + n + 1 = i + 1 + n by omega]
  exact ht

/-- In balanced code every bracket has a partner. -/
theorem exists_closer? (hb : Balanced b.tokens.toList) {t : Token} {own : Bracket}
    (ht : b.token? i = some t) (ho : t.opens? = some own) : ∃ j, b.closer? i = some j := by
  obtain ⟨hi, rfl⟩ := Array.getElem?_eq_some_iff.1 ht
  have hsplit : b.tokens.toList =
      b.tokens.toList.take i ++ b.tokens[i] :: b.tokens.toList.drop (i + 1) := by
    rw [← Array.getElem_toList hi, List.getElem_cons_drop, List.take_append_drop]
  have hopen : Bracket.openAfter [] b.tokens.toList = some [] := hb
  rw [hsplit, Bracket.openAfter, List.foldlM_append] at hopen
  obtain ⟨stack, -, hrest⟩ := Option.bind_eq_some_iff.1 hopen
  rw [List.foldlM_cons, Bracket.afterToken, ho] at hrest
  have hclosed : Bracket.openAfter ([] ++ own :: stack) (b.tokens.toList.drop (i + 1)) = some [] :=
    hrest
  obtain ⟨n, hn⟩ := Bracket.exists_distance? hclosed
  refine ⟨i + n + 1, ?_⟩
  rw [closer?_eq, ht, Option.bind_some, ho, Option.bind_some, hn]
  rfl

theorem exists_closer?_of_paren (hb : Balanced b.tokens.toList) (h : b.isPunct i "(" = true) :
    ∃ j, b.closer? i = some j := by
  obtain ⟨t, ht, hp⟩ := (Option.any_eq_true _ _).1 h
  exact exists_closer? hb ht (if_pos hp)

end Brackets

end EmbeddedSql
