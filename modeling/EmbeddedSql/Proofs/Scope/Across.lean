/-
# Stretches of balanced code

A stretch goes *across* code if it steps from token to token and over whole bracket groups
(`Brackets.Across`).  In balanced code the inside of every group is such a stretch.  Stretches do not
overlap by halves, which is what all the rest comes from:

| | |
| :-- | :-- |
| a place in a stretch | stands between two of its steps, or in one of its groups (`Across.at`) |
| two stretches from one place | the longer one passes the end of the shorter one (`Across.passes`) |
| a stretch that begins inside another one | ends inside it too, if it cannot step on the token at its end (`Across.le_of_bars`) |

The last of these says that what is read inside of a call or a statement does not leave it.
-/
import EmbeddedSql.Proofs.Scope.Complete

namespace EmbeddedSql

/-! ## Brackets by their texts -/

def Bracket.opening : Bracket → String
  | paren => "("
  | square => "["
  | brace => "\x7b"

def Bracket.closing : Bracket → String
  | paren => ")"
  | square => "]"
  | brace => "\x7d"

namespace Token

variable {t : Token} {own : Bracket}

theorem opens?_eq_some : t.opens? = some own ↔ t.isPunct own.opening = true := by
  constructor
  · intro h
    unfold opens? at h
    split at h
    · cases h
      assumption
    · split at h
      · cases h
        assumption
      · split at h
        · cases h
          assumption
        · cases h
  · intro h
    have hne : ∀ text, own.opening ≠ text → ¬ t.isPunct text = true := fun text htext => by
      rw [isPunct_of_ne h htext]
      exact Bool.false_ne_true
    cases own with
    | paren => exact if_pos h
    | square => exact (if_neg (hne "(" (by decide))).trans (if_pos h)
    | brace =>
        exact (if_neg (hne "(" (by decide))).trans
          ((if_neg (hne "[" (by decide))).trans (if_pos h))

theorem closes?_eq_some : t.closes? = some own ↔ t.isPunct own.closing = true := by
  constructor
  · intro h
    unfold closes? at h
    split at h
    · cases h
      assumption
    · split at h
      · cases h
        assumption
      · split at h
        · cases h
          assumption
        · cases h
  · intro h
    have hne : ∀ text, own.closing ≠ text → ¬ t.isPunct text = true := fun text htext => by
      rw [isPunct_of_ne h htext]
      exact Bool.false_ne_true
    cases own with
    | paren => exact if_pos h
    | square => exact (if_neg (hne ")" (by decide))).trans (if_pos h)
    | brace =>
        exact (if_neg (hne ")" (by decide))).trans
          ((if_neg (hne "]" (by decide))).trans (if_pos h))

/-- No bracket opens and closes. -/
theorem opens?_of_closes? (h : t.closes? = some own) : t.opens? = none := by
  cases ho : t.opens? with
  | none => rfl
  | some other =>
      have hopening := opens?_eq_some.1 ho
      rw [isPunct_of_ne (closes?_eq_some.1 h) (by cases own <;> cases other <;> decide)] at hopening
      cases hopening

end Token

namespace Bracket

/-- The innermost open bracket is the one that is closed. -/
theorem dropWhile_top (own : Bracket) (inner : List Bracket) :
    (own :: inner).dropWhile (· != own) = own :: inner :=
  List.dropWhile_cons_of_neg (by simp)

/-- Where the bracket `top` is closed, only the brackets around it are open still, and the search for the
partner of one of those goes on from there. -/
theorem distance?_skip {own top : Bracket} {above outer : List Bracket} {tokens : List Token} {m : Nat}
    (inner : List Bracket) (hopen : openAfter (above ++ top :: outer) tokens = some [])
    (hm : top.distance? above tokens = some m) :
    openAfter outer (tokens.drop (m + 1)) = some [] ∧
      ∀ n, own.distance? (above ++ top :: inner) tokens = some n →
        m < n ∧ own.distance? inner (tokens.drop (m + 1)) = some (n - (m + 1)) := by
  induction tokens generalizing above m with
  | nil => cases hm
  | cons t rest ih =>
      obtain ⟨stack, ht, hrest⟩ := Option.bind_eq_some_iff.1 hopen
      -- after a token that closes another bracket than `top`, or none
      have hgo : ∀ {above' : List Bracket}, stack = above' ++ top :: outer →
          (top.distance? above' rest).map (· + 1) = some m →
          own.distance? (above ++ top :: inner) (t :: rest) =
            (own.distance? (above' ++ top :: inner) rest).map (· + 1) →
          openAfter outer ((t :: rest).drop (m + 1)) = some [] ∧
            ∀ n, own.distance? (above ++ top :: inner) (t :: rest) = some n →
              m < n ∧ own.distance? inner ((t :: rest).drop (m + 1)) = some (n - (m + 1)) := by
        rintro above' rfl hmap heq
        obtain ⟨m', hm', rfl⟩ := Option.map_eq_some_iff.1 hmap
        obtain ⟨hleft, hon⟩ := ih hrest hm'
        refine ⟨hleft, fun n hn => ?_⟩
        rw [heq] at hn
        obtain ⟨n', hn', rfl⟩ := Option.map_eq_some_iff.1 hn
        obtain ⟨hlt, hdistance⟩ := hon n' hn'
        refine ⟨Nat.succ_lt_succ hlt, ?_⟩
        rwa [List.drop_succ_cons, Nat.add_sub_add_right]
      rw [afterToken] at ht
      rw [distance?] at hm
      cases ho : t.opens? with
      | some b =>
          rw [ho] at ht hm
          exact hgo (Option.some.inj ht).symm hm (by rw [distance?, ho]; rfl)
      | none =>
          cases hc : t.closes? with
          | none =>
              rw [ho, hc] at ht hm
              exact hgo (Option.some.inj ht).symm hm (by rw [distance?, ho, hc])
          | some b =>
              rw [ho, hc] at ht hm
              cases above with
              | nil =>
                  dsimp only [List.nil_append] at ht
                  split at ht
                  · next htop =>
                      subst htop
                      obtain rfl := Option.some.inj ht
                      obtain rfl : 0 = m := by simpa using hm
                      refine ⟨hrest, fun n hn => ?_⟩
                      rw [List.nil_append, distance?, ho, hc] at hn
                      dsimp only at hn
                      rw [dropWhile_top] at hn
                      obtain ⟨n', hn', rfl⟩ := Option.map_eq_some_iff.1 hn
                      exact ⟨Nat.succ_pos n', hn'⟩
                  · cases ht
              | cons next above =>
                  dsimp only [List.cons_append] at ht
                  split at ht
                  · next hnext =>
                      subst hnext
                      dsimp only at hm
                      rw [dropWhile_top] at hm
                      refine hgo (Option.some.inj ht).symm hm ?_
                      rw [List.cons_append, distance?, ho, hc]
                      dsimp only
                      rw [dropWhile_top]
                  · cases ht

end Bracket

namespace Brackets

/-- From one place to another there are single tokens with a property and whole bracket groups. -/
inductive Across (b : Brackets) (P : Token → Prop) : Nat → Nat → Prop
  | here (i : Nat) : Across b P i i
  | token {i j : Nat} {t : Token} : b.token? i = some t → t.opens? = none → t.closes? = none → P t →
      Across b P (i + 1) j → Across b P i j
  | group {i close j : Nat} : b.closer? i = some close → Across b P (close + 1) j → Across b P i j

variable {b : Brackets} {P Q : Token → Prop} {i j k : Nat}

namespace Across

theorem le (h : b.Across P i j) : i ≤ j := by
  induction h with
  | here i => exact Nat.le_refl i
  | token _ _ _ _ _ ih => omega
  | group hc _ ih =>
      have := lt_of_closer? hc
      omega

theorem mono (h : b.Across P i j) (hPQ : ∀ t, P t → Q t) : b.Across Q i j := by
  induction h with
  | here i => exact .here i
  | token ht ho hc hp _ ih => exact .token ht ho hc (hPQ _ hp) ih
  | group hc _ ih => exact .group hc ih

theorem trans (h : b.Across P i j) (h' : b.Across P j k) : b.Across P i k := by
  induction h with
  | here i => exact h'
  | token ht ho hc hp _ ih => exact .token ht ho hc hp (ih h')
  | group hc _ ih => exact .group hc (ih h')

end Across

/-! ## Bracket groups -/

/-- The brackets of a group are of one kind. -/
theorem exists_kind_of_closer? (h : b.closer? i = some j) :
    ∃ t u own, b.token? i = some t ∧ t.opens? = some own ∧ b.token? j = some u ∧
      u.closes? = some own := by
  rw [closer?_eq] at h
  obtain ⟨own, hown, h⟩ := Option.bind_eq_some_iff.1 h
  obtain ⟨t, ht, ho⟩ := Option.bind_eq_some_iff.1 hown
  obtain ⟨n, hn, rfl⟩ := Option.map_eq_some_iff.1 h
  obtain ⟨u, hu, hc⟩ := Bracket.exists_token_of_distance? hn
  rw [List.getElem?_drop, Array.getElem?_toList] at hu
  refine ⟨t, u, own, ht, ho, ?_, hc⟩
  rw [token?, show i + n + 1 = i + 1 + n by omega]
  exact hu

/-- Some brackets are open before each place of balanced code, and the rest closes them. -/
theorem exists_openAfter (hb : Balanced b.tokens.toList) (i : Nat) :
    ∃ stack, Bracket.openAfter stack (b.tokens.toList.drop i) = some [] := by
  have hopen : Bracket.openAfter [] b.tokens.toList = some [] := hb
  rw [← List.take_append_drop i b.tokens.toList, Bracket.openAfter, List.foldlM_append] at hopen
  obtain ⟨stack, -, hrest⟩ := Option.bind_eq_some_iff.1 hopen
  exact ⟨stack, hrest⟩

theorem drop_of_token? {t : Token} (ht : b.token? i = some t) :
    b.tokens.toList.drop i = t :: b.tokens.toList.drop (i + 1) := by
  obtain ⟨hi, rfl⟩ := Array.getElem?_eq_some_iff.1 ht
  rw [← Array.getElem_toList hi, List.getElem_cons_drop]

/-- What stands before the end of a group is gone across. -/
theorem across_of_distance? {own : Bracket} {outer : List Bracket} {n : Nat}
    (hopen : Bracket.openAfter (own :: outer) (b.tokens.toList.drop i) = some [])
    (hn : own.distance? [] (b.tokens.toList.drop i) = some n) :
    b.Across (fun _ => True) i (i + n) := by
  induction n using Nat.strongRecOn generalizing i with
  | ind n ih =>
      cases ht : b.token? i with
      | none =>
          have hnil : b.tokens.toList.drop i = [] := by
            rw [List.drop_eq_nil_iff, Array.length_toList]
            exact Array.getElem?_eq_none_iff.1 ht
          rw [hnil] at hn
          cases hn
      | some t =>
          rw [drop_of_token? ht] at hopen hn
          obtain ⟨stack, hstack, hrest⟩ := Option.bind_eq_some_iff.1 hopen
          rw [Bracket.afterToken] at hstack
          rw [Bracket.distance?] at hn
          cases ho : t.opens? with
          | some top =>
              rw [ho] at hstack hn
              obtain rfl := Option.some.inj hstack
              obtain ⟨n', hn', rfl⟩ := Option.map_eq_some_iff.1 hn
              have hopen' : Bracket.openAfter ([] ++ top :: own :: outer)
                  (b.tokens.toList.drop (i + 1)) = some [] := hrest
              obtain ⟨m, hm⟩ := Bracket.exists_distance? hopen'
              have hclose : b.closer? i = some (i + m + 1) := by
                rw [closer?_eq, ht, Option.bind_some, ho, Option.bind_some, hm]
                rfl
              obtain ⟨hafter, hon⟩ := Bracket.distance?_skip [] hopen' hm
              obtain ⟨hlt, hdistance⟩ := hon n' hn'
              rw [List.drop_drop] at hafter hdistance
              have hrest := ih (n' - (m + 1)) (by omega) hafter hdistance
              rw [show i + 1 + (m + 1) = i + m + 1 + 1 by omega,
                show i + m + 1 + 1 + (n' - (m + 1)) = i + (n' + 1) by omega] at hrest
              exact .group hclose hrest
          | none =>
              cases hc : t.closes? with
              | none =>
                  rw [ho, hc] at hstack hn
                  obtain rfl := Option.some.inj hstack
                  obtain ⟨n', hn', rfl⟩ := Option.map_eq_some_iff.1 hn
                  have hrest := ih n' (Nat.lt_succ_self n') hrest hn'
                  rw [show i + 1 + n' = i + (n' + 1) by omega] at hrest
                  exact .token ht ho hc trivial hrest
              | some kind =>
                  rw [ho, hc] at hn
                  obtain ⟨-, rfl⟩ : own = kind ∧ 0 = n := by simpa using hn
                  exact .here i

/-- The inside of a group is gone across. -/
theorem across_of_closer? (hb : Balanced b.tokens.toList) (h : b.closer? i = some j) :
    b.Across (fun _ => True) (i + 1) j := by
  rw [closer?_eq] at h
  obtain ⟨own, hown, h⟩ := Option.bind_eq_some_iff.1 h
  obtain ⟨t, ht, ho⟩ := Option.bind_eq_some_iff.1 hown
  obtain ⟨n, hn, rfl⟩ := Option.map_eq_some_iff.1 h
  obtain ⟨stack, hopen⟩ := exists_openAfter hb i
  rw [drop_of_token? ht] at hopen
  obtain ⟨stack', hstack, hrest⟩ := Option.bind_eq_some_iff.1 hopen
  rw [Bracket.afterToken, ho] at hstack
  obtain rfl := Option.some.inj hstack
  rw [show i + n + 1 = i + 1 + n by omega]
  exact across_of_distance? hrest hn

/-! ## Stretches and the places in them -/

namespace Across

theorem opens?_of_closer? {t : Token} (hc : b.closer? i = some j) (ht : b.token? i = some t) :
    t.opens? ≠ none := by
  obtain ⟨t', -, own, ht', ho, -, -⟩ := exists_kind_of_closer? hc
  obtain rfl : t = t' := Option.some.inj (ht.symm.trans ht')
  rw [ho]
  exact nofun

/-- A place in a stretch stands between two of its steps, or in one of its groups. -/
theorem «at» (h : b.Across P i k) (hij : i ≤ j) (hjk : j < k) :
    (b.Across P i j ∧ b.Across P j k) ∨
      ∃ o close, b.closer? o = some close ∧ i ≤ o ∧ o < j ∧ j ≤ close ∧ close < k := by
  induction h with
  | here i => omega
  | @token i k t ht ho hc hp hrest ih =>
      by_cases hj : j = i
      · subst hj
        exact .inl ⟨.here j, .token ht ho hc hp hrest⟩
      · rcases ih (by omega) hjk with ⟨hbefore, hafter⟩ | ⟨o, close, hclose, hle, hin⟩
        · exact .inl ⟨.token ht ho hc hp hbefore, hafter⟩
        · exact .inr ⟨o, close, hclose, by omega, hin⟩
  | @group i close k hc hrest ih =>
      have hlt := lt_of_closer? hc
      have hle := hrest.le
      by_cases hj : j = i
      · subst hj
        exact .inl ⟨.here j, .group hc hrest⟩
      · by_cases hin : j ≤ close
        · exact .inr ⟨i, close, hc, Nat.le_refl i, by omega, hin, by omega⟩
        · rcases ih (by omega) hjk with ⟨hbefore, hafter⟩ | ⟨o, close', hclose, hle', hin⟩
          · exact .inl ⟨.group hc hbefore, hafter⟩
          · exact .inr ⟨o, close', hclose, by omega, hin⟩

/-- Of two stretches from one place, the longer one passes the end of the shorter one. -/
theorem passes (h : b.Across P i j) (h' : b.Across Q i k) : j ≤ k ∨ b.Across P k j := by
  induction h' with
  | here i => exact .inr h
  | @token i k t ht ho hc _ hrest ih =>
      cases h with
      | here => exact .inl (by have := hrest.le; omega)
      | token _ _ _ _ hrest' => exact ih hrest'
      | group hc' _ => exact absurd ho (opens?_of_closer? hc' ht)
  | @group i close k hc hrest ih =>
      cases h with
      | here => exact .inl (by have := hrest.le; have := lt_of_closer? hc; omega)
      | token ht ho _ _ _ => exact absurd ho (opens?_of_closer? hc ht)
      | group hc' hrest' =>
          obtain rfl : close = _ := Option.some.inj (hc.symm.trans hc')
          exact ih hrest'

end Across

/-- A stretch cannot step on the token at this place: there is none, or it closes a bracket or has not the
property. -/
def Bars (b : Brackets) (P : Token → Prop) (i : Nat) : Prop :=
  ∀ t, b.token? i = some t → t.opens? = none ∧ (t.closes? = none → ¬ P t)

theorem bars_of_closer? (h : b.closer? i = some j) : b.Bars P j := by
  intro t ht
  obtain ⟨-, t', own, -, -, ht', hc⟩ := exists_kind_of_closer? h
  obtain rfl : t = t' := Option.some.inj (ht.symm.trans ht')
  exact ⟨Token.opens?_of_closes? hc, fun hnone => by rw [hc] at hnone; cases hnone⟩

theorem Across.eq_of_bars (h : b.Across P i j) (hbars : b.Bars P i) : j = i := by
  cases h with
  | here => rfl
  | token ht _ hc hp _ => exact absurd hp ((hbars _ ht).2 hc)
  | group hc _ =>
      obtain ⟨t, -, own, ht, ho, -, -⟩ := exists_kind_of_closer? hc
      exact absurd (hbars t ht).1 (Across.opens?_of_closer? hc ht)

/-- A stretch that begins inside of another one ends inside of it, if it cannot step on the token at its
end. -/
theorem Across.le_of_bars (hb : Balanced b.tokens.toList) {lower stop : Nat}
    (hwhole : b.Across Q lower stop) (hbars : b.Bars P stop) (hlower : lower ≤ i) (hi : i ≤ stop)
    (h : b.Across P i j) : j ≤ stop := by
  induction hn : stop - lower using Nat.strongRecOn generalizing lower stop i Q with
  | ind n ih =>
      subst hn
      rcases Nat.lt_or_eq_of_le hi with hlt | rfl
      · rcases hwhole.at hlower hlt with ⟨-, hafter⟩ | ⟨o, close, hc, hlo, hoi, hic, hcs⟩
        · rcases h.passes hafter with hle | hbeyond
          · exact hle
          · exact Nat.le_of_eq (hbeyond.eq_of_bars hbars)
        · -- the inside of the group is a shorter stretch
          have hinside := ih (close - (o + 1)) (by omega) (across_of_closer? hb hc) (bars_of_closer? hc)
            hoi hic h rfl
          omega
      · exact Nat.le_of_eq (h.eq_of_bars hbars)

end Brackets

end EmbeddedSql
