/-
# Partners

Which brackets belong together.  The partner of an opening bracket is the one that closes it, and the other
way round (`Brackets.partner?`).

| in any code | |
| :-- | :-- |
| two partners | are each other's, an opening bracket and a later closing one of its kind (`isPair_of_partner?`) |
| two pairs | do not cross: what stands inside of a pair has its partner there too (`partner?_nested`) |
| all pairs | are found in one pass with a stack of the brackets that are open (`mem_pairsFrom_iff`) |

| in code that nests | |
| :-- | :-- |
| two partners | are the brackets of a group (`closer?_iff_matches`) |
| a bracket | has a partner (`exists_partner?`) |

Each bracket is looked for by a search of its own.  What relates two searches is that behind a bracket
that is opened on the way both read the same tokens, and the search that began there comes to its end while
the other one is still under way (`Bracket.lt_of_distance?`).

In the one pass a closing bracket throws away the open brackets that are not of its kind, all of them if none
is.  A bracket that is thrown away is never closed, nor does its own search find an end.

Code nests by a grammar: it is a sequence of groups and of tokens that are no brackets, and a group is an
opening bracket, code, and a closing bracket of its kind (`Nests`).  A stack of open brackets accepts exactly
such code (`balanced_iff_nests`).  A group is recognized wherever it stands; that no other brackets are taken
for one needs the code around it to nest too.
-/
import EmbeddedSql.Proofs.Flow.Written.Groups

namespace EmbeddedSql

namespace Bracket

variable {own top : Bracket} {inner above : List Bracket} {t : Token} {rest tokens : List Token} {m n : Nat}

/-! ## Two searches -/

/-- A search that does not end at a token goes on behind it, with some brackets open. -/
theorem exists_distance?_tail (h : own.distance? inner (t :: rest) = some (n + 1)) :
    ∃ inner', own.distance? inner' rest = some n := by
  have hgo : ∀ inner', (own.distance? inner' rest).map (· + 1) = some (n + 1) →
      ∃ inner', own.distance? inner' rest = some n := by
    intro inner' hmap
    obtain ⟨m, hm, heq⟩ := Option.map_eq_some_iff.1 hmap
    exact ⟨inner', Nat.succ.inj heq ▸ hm⟩
  rw [distance?] at h
  split at h
  · exact hgo _ h
  · exact hgo _ h
  · split at h
    · exact hgo _ h
    · split at h
      · cases h
      · cases h

/-- It is under way at each token before its end. -/
theorem exists_distance?_drop {p : Nat} (h : own.distance? inner tokens = some n) (hp : p ≤ n) :
    ∃ inner', own.distance? inner' (tokens.drop p) = some (n - p) := by
  induction p generalizing inner tokens n with
  | zero => exact ⟨inner, h⟩
  | succ p ih =>
      cases tokens with
      | nil => cases h
      | cons t rest =>
          obtain ⟨n, rfl⟩ : ∃ k, n = k + 1 := ⟨n - 1, by omega⟩
          obtain ⟨inner', hin⟩ := exists_distance?_tail h
          rw [List.drop_succ_cons, Nat.add_sub_add_right]
          exact ih hin (Nat.le_of_succ_le_succ hp)

/-- A bracket that is opened during a search is closed before the search ends, if it is closed at all. -/
theorem lt_of_distance? (hm : top.distance? above tokens = some m)
    (hn : own.distance? (above ++ top :: inner) tokens = some n) : m < n := by
  induction tokens generalizing above m n with
  | nil => cases hm
  | cons t rest ih =>
      have hgo : ∀ above', (top.distance? above' rest).map (· + 1) = some m →
          (own.distance? (above' ++ top :: inner) rest).map (· + 1) = some n → m < n := by
        intro above' htop hown
        obtain ⟨m', hm', rfl⟩ := Option.map_eq_some_iff.1 htop
        obtain ⟨n', hn', rfl⟩ := Option.map_eq_some_iff.1 hown
        exact Nat.succ_lt_succ (ih hm' hn')
      rw [distance?] at hm hn
      cases ho : t.opens? with
      | some b =>
          rw [ho] at hm hn
          exact hgo (b :: above) hm hn
      | none =>
          cases hc : t.closes? with
          | none =>
              rw [ho, hc] at hm hn
              exact hgo above hm hn
          | some b =>
              rw [ho, hc] at hm hn
              dsimp only at hm hn
              rw [List.dropWhile_append] at hn
              cases hd : above.dropWhile (· != b) with
              | cons x above' =>
                  rw [hd] at hm hn
                  exact hgo above' hm hn
              | nil =>
                  -- the bracket itself is closed here, and what was open before it is open still
                  rw [hd] at hm hn
                  dsimp only at hm
                  split at hm
                  · next htop =>
                      obtain rfl := Option.some.inj hm
                      subst htop
                      rw [List.isEmpty_nil, if_pos rfl, dropWhile_top] at hn
                      obtain ⟨n', -, rfl⟩ := Option.map_eq_some_iff.1 hn
                      exact Nat.succ_pos n'
                  · cases hm

/-! ## One pass -/

/-- The pairs of brackets from place `i` on, in the order of their ends, where `waiting` holds the brackets
open before it with their places, innermost first. -/
def pairsFrom (i : Nat) (waiting : List (Nat × Bracket)) : List Token → List (Nat × Nat)
  | [] => []
  | t :: rest =>
    match t.opens?, t.closes? with
    | some b, _ => pairsFrom (i + 1) ((i, b) :: waiting) rest
    | none, none => pairsFrom (i + 1) waiting rest
    | none, some b =>
      match waiting.dropWhile (·.2 != b) with
      | (o, _) :: outer => (o, i) :: pairsFrom (i + 1) outer rest
      | [] => pairsFrom (i + 1) [] rest

/-- Of the brackets that wait before the tokens from place `i` on, or are opened there, the one at place `o` is closed
at place `c`, as far as its own search tells. -/
inductive Closes (i : Nat) (waiting : List (Nat × Bracket)) (tokens : List Token) : Nat → Nat → Prop
  | waiting {above outer : List (Nat × Bracket)} {o n : Nat} {own : Bracket} :
      waiting = above ++ (o, own) :: outer → own.distance? (above.map Prod.snd) tokens = some n →
      Closes i waiting tokens o (i + n)
  | later {k n : Nat} {t : Token} {own : Bracket} : tokens[k]? = some t → t.opens? = some own →
      own.distance? [] (tokens.drop (k + 1)) = some n → Closes i waiting tokens (i + k) (i + k + n + 1)

variable {i o c : Nat} {waiting waiting' : List (Nat × Bracket)} {b : Bracket}

namespace Closes

/-- What is opened behind the first token. -/
theorem succ {k : Nat} {u : Token} (hu : rest[k]? = some u) (ho : u.opens? = some own)
    (hn : own.distance? [] (rest.drop (k + 1)) = some n) :
    Closes i waiting (t :: rest) (i + 1 + k) (i + 1 + k + n + 1) := by
  rw [show i + 1 + k = i + (k + 1) by omega]
  exact .later hu ho hn

theorem of_succ {k : Nat} {u : Token} (hu : (t :: rest)[k + 1]? = some u) (ho : u.opens? = some own)
    (hn : own.distance? [] ((t :: rest).drop (k + 1 + 1)) = some n) :
    Closes (i + 1) waiting rest (i + (k + 1)) (i + (k + 1) + n + 1) := by
  rw [show i + (k + 1) = i + 1 + k by omega]
  exact .later hu ho hn

theorem cons_of_opens? (ho : t.opens? = some b) :
    Closes i waiting (t :: rest) o c ↔ Closes (i + 1) ((i, b) :: waiting) rest o c := by
  have hdistance : ∀ (own : Bracket) (inner : List Bracket),
      own.distance? inner (t :: rest) = (own.distance? (b :: inner) rest).map (· + 1) := by
    intro own inner
    rw [distance?, ho]
  constructor
  · intro h
    cases h with
    | @waiting above outer _ n own hw hn =>
        rw [hdistance] at hn
        obtain ⟨m, hm, rfl⟩ := Option.map_eq_some_iff.1 hn
        rw [show i + (m + 1) = i + 1 + m by omega]
        have hw' : (i, b) :: waiting = ((i, b) :: above) ++ (o, own) :: outer := congrArg _ hw
        exact .waiting hw' hm
    | @later k n u own hu ho' hn =>
        cases k with
        | zero =>
            obtain rfl := Option.some.inj hu
            obtain rfl := Option.some.inj (ho.symm.trans ho')
            rw [show i + 0 + n + 1 = i + 1 + n by omega]
            have hw : (i, b) :: waiting = [] ++ (i, b) :: waiting := rfl
            exact .waiting hw hn
        | succ k => exact of_succ hu ho' hn
  · intro h
    cases h with
    | @waiting above outer _ n own hw hn =>
        cases above with
        | nil =>
            obtain ⟨heq, -⟩ := List.cons.inj hw
            obtain ⟨rfl, rfl⟩ := Prod.mk.inj heq
            rw [show i + 1 + n = i + 0 + n + 1 by omega]
            exact .later (k := 0) rfl ho hn
        | cons first above =>
            obtain ⟨rfl, hrest⟩ := List.cons.inj hw
            rw [show i + 1 + n = i + (n + 1) by omega]
            refine .waiting hrest ?_
            rw [hdistance]
            exact Option.map_eq_some_iff.2 ⟨n, hn, rfl⟩
    | later hu ho' hn => exact succ hu ho' hn

theorem cons_of_other (ho : t.opens? = none) (hc : t.closes? = none) :
    Closes i waiting (t :: rest) o c ↔ Closes (i + 1) waiting rest o c := by
  have hdistance : ∀ (own : Bracket) (inner : List Bracket),
      own.distance? inner (t :: rest) = (own.distance? inner rest).map (· + 1) := by
    intro own inner
    rw [distance?, ho, hc]
  constructor
  · intro h
    cases h with
    | @waiting above outer _ n own hw hn =>
        rw [hdistance] at hn
        obtain ⟨m, hm, rfl⟩ := Option.map_eq_some_iff.1 hn
        rw [show i + (m + 1) = i + 1 + m by omega]
        exact .waiting hw hm
    | @later k n u own hu ho' hn =>
        cases k with
        | zero =>
            obtain rfl := Option.some.inj hu
            cases ho.symm.trans ho'
        | succ k => exact of_succ hu ho' hn
  · intro h
    cases h with
    | @waiting above outer _ n own hw hn =>
        rw [show i + 1 + n = i + (n + 1) by omega]
        refine .waiting hw ?_
        rw [hdistance]
        exact Option.map_eq_some_iff.2 ⟨n, hn, rfl⟩
    | later hu ho' hn => exact succ hu ho' hn

/-- What a closing bracket throws away, and the bracket that it closes, if there is one. -/
theorem exists_thrown (b : Bracket) (waiting : List (Nat × Bracket)) :
    ∃ thrown, (∀ w ∈ thrown, w.2 ≠ b) ∧
      (waiting = thrown ∧ waiting.dropWhile (·.2 != b) = [] ∨
        ∃ o outer, waiting = thrown ++ (o, b) :: outer ∧
          waiting.dropWhile (·.2 != b) = (o, b) :: outer) := by
  induction waiting with
  | nil => exact ⟨[], nofun, .inl ⟨rfl, rfl⟩⟩
  | cons first waiting ih =>
      obtain ⟨o, own⟩ := first
      by_cases hown : own = b
      · subst hown
        exact ⟨[], nofun, .inr ⟨o, waiting, rfl, List.dropWhile_cons_of_neg (by simp)⟩⟩
      · have hdrop : ((o, own) :: waiting).dropWhile (·.2 != b) = waiting.dropWhile (·.2 != b) :=
          List.dropWhile_cons_of_pos (by simpa using hown)
        obtain ⟨thrown, hthrown, hrest⟩ := ih
        refine ⟨(o, own) :: thrown, List.forall_mem_cons.2 ⟨hown, hthrown⟩, ?_⟩
        rw [hdrop]
        rcases hrest with ⟨rfl, hnil⟩ | ⟨o', outer, rfl, hcons⟩
        · exact .inl ⟨rfl, hnil⟩
        · exact .inr ⟨o', outer, rfl, hcons⟩

/-- Brackets of other kinds are thrown away on the way to a closing bracket. -/
theorem dropWhile_thrown {thrown : List (Nat × Bracket)} (h : ∀ w ∈ thrown, w.2 ≠ b)
    (inner : List Bracket) :
    (thrown.map Prod.snd ++ inner).dropWhile (· != b) = inner.dropWhile (· != b) := by
  refine List.dropWhile_append_of_pos fun own hown => ?_
  obtain ⟨w, hw, rfl⟩ := List.mem_map.1 hown
  exact bne_iff_ne.2 (h w hw)

theorem dropWhile_waiting {thrown : List (Nat × Bracket)} (h : ∀ w ∈ thrown, w.2 ≠ b) (o : Nat)
    (outer : List (Nat × Bracket)) :
    (thrown ++ (o, b) :: outer).dropWhile (·.2 != b) = (o, b) :: outer := by
  rw [List.dropWhile_append_of_pos fun w hw => bne_iff_ne.2 (h w hw)]
  exact List.dropWhile_cons_of_neg (by simp)

/-- A closing bracket ends the search for the end of a bracket of its kind, and of no other, if all brackets opened
since are thrown away. -/
theorem distance?_thrown (hc : t.closes? = some b) {thrown : List (Nat × Bracket)}
    (h : ∀ w ∈ thrown, w.2 ≠ b) (own : Bracket) :
    own.distance? (thrown.map Prod.snd) (t :: rest) = if own = b then some 0 else none := by
  have hdrop : (thrown.map Prod.snd).dropWhile (· != b) = [] := by
    rw [← List.append_nil (thrown.map _), dropWhile_thrown h, List.dropWhile_nil]
  simp only [distance?, Token.opens?_of_closes? hc, hc, hdrop]

/-- Otherwise the search goes on with what was opened before the bracket that is closed. -/
theorem distance?_over_closes? (hc : t.closes? = some b) {thrown above : List (Nat × Bracket)}
    (h : ∀ w ∈ thrown, w.2 ≠ b) (o : Nat) (own : Bracket) :
    own.distance? ((thrown ++ (o, b) :: above).map Prod.snd) (t :: rest) =
      (own.distance? (above.map Prod.snd) rest).map (· + 1) := by
  have hdrop : ((thrown ++ (o, b) :: above).map Prod.snd).dropWhile (· != b) = b :: above.map Prod.snd := by
    rw [List.map_append, dropWhile_thrown h, List.map_cons, dropWhile_top]
  simp only [distance?, Token.opens?_of_closes? hc, hc, hdrop]

theorem later_cons_of_closes? {k n : Nat} {u : Token} (hc : t.closes? = some b)
    (hu : (t :: rest)[k]? = some u) (ho : u.opens? = some own)
    (hn : own.distance? [] ((t :: rest).drop (k + 1)) = some n) :
    Closes (i + 1) waiting rest (i + k) (i + k + n + 1) := by
  cases k with
  | zero =>
      obtain rfl := Option.some.inj hu
      cases (Token.opens?_of_closes? hc).symm.trans ho
  | succ k => exact of_succ hu ho hn

/-- A closing bracket that closes one. -/
theorem cons_of_closes? (hc : t.closes? = some b) {thrown outer : List (Nat × Bracket)} {o' : Nat}
    (h : ∀ w ∈ thrown, w.2 ≠ b) :
    Closes i (thrown ++ (o', b) :: outer) (t :: rest) o c ↔
      (o, c) = (o', i) ∨ Closes (i + 1) outer rest o c := by
  constructor
  · intro hcloses
    cases hcloses with
    | @waiting above more _ n own hw hn =>
        obtain ⟨below, hbelow, ⟨rfl, -⟩ | ⟨p, above, rfl, -⟩⟩ := exists_thrown b above
        · rw [distance?_thrown hc hbelow] at hn
          split at hn
          · next hown =>
              subst hown
              obtain rfl := Option.some.inj hn
              have hdrop := congrArg (List.dropWhile (·.2 != own)) hw
              rw [dropWhile_waiting h, dropWhile_waiting hbelow] at hdrop
              obtain ⟨heq, -⟩ := List.cons.inj hdrop
              exact .inl (by rw [(Prod.mk.inj heq).1]; rfl)
          · cases hn
        · rw [distance?_over_closes? hc hbelow] at hn
          obtain ⟨m, hm, rfl⟩ := Option.map_eq_some_iff.1 hn
          have hdrop := congrArg (List.dropWhile (·.2 != b)) hw
          rw [List.append_assoc, List.cons_append, dropWhile_waiting h, dropWhile_waiting hbelow] at hdrop
          rw [show i + (m + 1) = i + 1 + m by omega]
          exact .inr (.waiting (List.cons.inj hdrop).2 hm)
    | later hu ho hn => exact .inr (later_cons_of_closes? hc hu ho hn)
  · rintro (heq | hcloses)
    · obtain ⟨rfl, rfl⟩ := Prod.mk.inj heq
      refine .waiting (n := 0) rfl ?_
      rw [distance?_thrown hc h]
      exact if_pos rfl
    · cases hcloses with
      | @waiting above more _ n own hw hn =>
          subst hw
          rw [show i + 1 + n = i + (n + 1) by omega]
          refine .waiting (show _ = (thrown ++ (o', b) :: above) ++ _ by rw [List.append_assoc, List.cons_append]) ?_
          rw [distance?_over_closes? hc h]
          exact Option.map_eq_some_iff.2 ⟨n, hn, rfl⟩
      | later hu ho hn => exact succ hu ho hn

/-- A closing bracket that closes none. -/
theorem cons_of_stray (hc : t.closes? = some b) {thrown : List (Nat × Bracket)}
    (h : ∀ w ∈ thrown, w.2 ≠ b) :
    Closes i thrown (t :: rest) o c ↔ Closes (i + 1) [] rest o c := by
  constructor
  · intro hcloses
    cases hcloses with
    | @waiting above more _ n own hw hn =>
        subst hw
        have hown : own ≠ b := h (o, own) (List.mem_append_right _ List.mem_cons_self)
        rw [distance?_thrown hc fun w hm => h w (List.mem_append_left _ hm), if_neg hown] at hn
        cases hn
    | later hu ho hn => exact later_cons_of_closes? hc hu ho hn
  · intro hcloses
    cases hcloses with
    | @waiting above more _ n own hw hn => cases (List.append_eq_nil_iff.1 hw.symm).2
    | later hu ho hn => exact succ hu ho hn

end Closes

/-- One pass finds what each bracket's own search finds. -/
theorem mem_pairsFrom_iff : (o, c) ∈ pairsFrom i waiting tokens ↔ Closes i waiting tokens o c := by
  induction tokens generalizing i waiting with
  | nil =>
      refine iff_of_false List.not_mem_nil fun h => ?_
      cases h with
      | waiting hw hn => cases hn
      | later hu ho hn => cases hu
  | cons t rest ih =>
      rw [pairsFrom]
      cases ho : t.opens? with
      | some b => exact ih.trans (Closes.cons_of_opens? ho).symm
      | none =>
          cases hc : t.closes? with
          | none => exact ih.trans (Closes.cons_of_other ho hc).symm
          | some b =>
              dsimp only
              obtain ⟨thrown, hthrown, ⟨rfl, hdrop⟩ | ⟨o', outer, rfl, hdrop⟩⟩ := Closes.exists_thrown b waiting
              · rw [hdrop]
                exact ih.trans (Closes.cons_of_stray hc hthrown).symm
              · rw [hdrop, Closes.cons_of_closes? hc hthrown, ← ih]
                exact List.mem_cons

end Bracket

namespace Brackets

variable {b : Brackets} {i j k l : Nat}

/-! ## Two pairs -/

theorem closer?_eq_some_iff :
    b.closer? i = some j ↔
      ∃ t own n, b.token? i = some t ∧ t.opens? = some own ∧
        own.distance? [] (b.tokens.toList.drop (i + 1)) = some n ∧ j = i + n + 1 := by
  rw [closer?_eq]
  simp only [Option.bind_eq_some_iff, Option.map_eq_some_iff]
  constructor
  · rintro ⟨own, ⟨t, ht, ho⟩, n, hn, rfl⟩
    exact ⟨t, own, n, ht, ho, hn, rfl⟩
  · rintro ⟨t, own, n, ht, ho, hn, rfl⟩
    exact ⟨own, ⟨t, ht, ho⟩, n, hn, rfl⟩

/-- All pairs are found in one pass. -/
theorem mem_pairsFrom_iff :
    (i, j) ∈ Bracket.pairsFrom 0 [] b.tokens.toList ↔ b.closer? i = some j := by
  rw [Bracket.mem_pairsFrom_iff, closer?_eq_some_iff]
  constructor
  · intro h
    cases h with
    | waiting hw hn => cases (List.append_eq_nil_iff.1 hw.symm).2
    | @later k n t own ht ho hn =>
        rw [Nat.zero_add]
        rw [Array.getElem?_toList] at ht
        exact ⟨t, own, n, ht, ho, hn, rfl⟩
  · rintro ⟨t, own, n, ht, ho, hn, rfl⟩
    rw [token?, ← Array.getElem?_toList] at ht
    have hlater : Bracket.Closes 0 [] b.tokens.toList (0 + i) (0 + i + n + 1) := .later ht ho hn
    rwa [Nat.zero_add] at hlater

/-- A bracket that is opened inside of a pair is closed inside of it, if it is closed at all. -/
theorem closer?_nested (h : b.closer? i = some j) (h' : b.closer? k = some l) (hik : i < k)
    (hkj : k < j) : l < j := by
  obtain ⟨t, own, n, -, -, hn, rfl⟩ := closer?_eq_some_iff.1 h
  obtain ⟨u, top, m, hu, ho, hm, rfl⟩ := closer?_eq_some_iff.1 h'
  obtain ⟨p, rfl⟩ := Nat.exists_eq_add_of_le hik
  -- the search of the outer bracket has come to the inner one
  obtain ⟨inner, hat⟩ := Bracket.exists_distance?_drop hn (show p ≤ n by omega)
  rw [List.drop_drop, show i + 1 + p = i.succ + p from rfl, drop_of_token? hu, Bracket.distance?, ho] at hat
  obtain ⟨n', hn', heq⟩ := Option.map_eq_some_iff.1 hat
  have hlt := Bracket.lt_of_distance? hm hn'
  omega

/-- A bracket closes one bracket at most. -/
theorem closer?_injective (h : b.closer? i = some j) (h' : b.closer? k = some j) : i = k := by
  rcases Nat.lt_trichotomy i k with hlt | heq | hlt
  · exact absurd (closer?_nested h h' hlt (lt_of_closer? h')) (Nat.lt_irrefl j)
  · exact heq
  · exact absurd (closer?_nested h' h hlt (lt_of_closer? h)) (Nat.lt_irrefl j)

theorem of_lastBelow {p : Nat → Bool} {n : Nat} {k : Fin n} (h : lastBelow p n = some k) : p k = true := by
  induction n with
  | zero => cases h
  | succ n ih =>
      rw [lastBelow] at h
      split at h
      · next hp =>
          obtain rfl := Option.some.inj h
          exact hp
      · obtain ⟨k', hk', rfl⟩ := Option.map_eq_some_iff.1 h
        exact ih hk'

/-- The bracket that a closing one is taken to close is the one that it closes. -/
theorem opener?_eq_some_iff : (b.opener? j).map Fin.val = some i ↔ b.closer? i = some j := by
  constructor
  · intro h
    obtain ⟨k, hk, rfl⟩ := Option.map_eq_some_iff.1 h
    exact beq_iff_eq.1 (of_lastBelow hk)
  · intro h
    have hlast : b.opener? j = some ⟨i, lt_of_closer? h⟩ := by
      refine Written.lastBelow_eq (lt_of_closer? h) (beq_iff_eq.2 h) fun k hik hkj => ?_
      rw [beq_eq_false_iff_ne]
      exact fun hk => Nat.lt_irrefl j (closer?_nested h hk hik hkj)
    rw [hlast]
    rfl

/-! ## Partners -/

/-- The place of the bracket that belongs to the one at place `i`. -/
def partner? (b : Brackets) (i : Nat) : Option Nat := (b.closer? i).or ((b.opener? i).map Fin.val)

/-- An opening bracket and a later closing one of its kind. -/
def IsPair (b : Brackets) (i j : Nat) : Prop :=
  i < j ∧ ∃ t u own, b.token? i = some t ∧ t.opens? = some own ∧ b.token? j = some u ∧ u.closes? = some own

theorem isPair_of_closer? (h : b.closer? i = some j) : b.IsPair i j :=
  ⟨lt_of_closer? h, exists_kind_of_closer? h⟩

/-- No bracket is both the first and the second of a pair. -/
theorem IsPair.not_isPair (h : b.IsPair i j) : ¬ b.IsPair j k := by
  rintro ⟨-, t, -, own, ht, ho, -⟩
  obtain ⟨-, -, u, kind, -, -, hu, hc⟩ := h
  obtain rfl := Option.some.inj (ht.symm.trans hu)
  cases (Token.opens?_of_closes? hc).symm.trans ho

theorem partner?_eq_some_iff : b.partner? i = some j ↔ b.closer? i = some j ∨ b.closer? j = some i := by
  rw [partner?, Option.or_eq_some_iff, opener?_eq_some_iff]
  refine or_congr_right (and_iff_right_of_imp fun h => ?_)
  rw [Option.eq_none_iff_forall_ne_some]
  exact fun k hk => (isPair_of_closer? h).not_isPair (isPair_of_closer? hk)

theorem partner?_symm (h : b.partner? i = some j) : b.partner? j = some i :=
  partner?_eq_some_iff.2 (partner?_eq_some_iff.1 h).symm

theorem isPair_of_partner? (h : b.partner? i = some j) : b.IsPair i j ∨ b.IsPair j i :=
  (partner?_eq_some_iff.1 h).imp isPair_of_closer? isPair_of_closer?

/-- The first of two partners is the opening bracket. -/
theorem closer?_eq_some_iff_partner? : b.closer? i = some j ↔ b.partner? i = some j ∧ i < j := by
  rw [partner?_eq_some_iff]
  constructor
  · exact fun h => ⟨.inl h, lt_of_closer? h⟩
  · rintro ⟨h | h, hlt⟩
    · exact h
    · exact absurd (lt_of_closer? h) (Nat.lt_asymm hlt)

/-- What stands inside of a pair has its partner there too. -/
theorem partner?_nested (h : b.partner? i = some j) (h' : b.partner? k = some l) (hik : i < k)
    (hkj : k < j) : i < l ∧ l < j := by
  have hij : b.closer? i = some j := closer?_eq_some_iff_partner?.2 ⟨h, Nat.lt_trans hik hkj⟩
  rcases partner?_eq_some_iff.1 h' with hkl | hlk
  · have := lt_of_closer? hkl
    exact ⟨by omega, closer?_nested hij hkl hik hkj⟩
  · have hlt := lt_of_closer? hlk
    refine ⟨?_, by omega⟩
    -- a pair around the place would be closed behind the other one
    rcases Nat.lt_trichotomy i l with hil | rfl | hli
    · exact hil
    · obtain rfl := Option.some.inj (hij.symm.trans hlk)
      omega
    · have := closer?_nested hlk hij hli hik
      omega

end Brackets

/-! ## Nesting -/

/-- Groups, each of an opening and a closing bracket of one kind with code that nests between them, and tokens
that are no brackets. -/
inductive Nests : List Token → Prop
  | nil : Nests []
  | other {t : Token} {rest : List Token} : t.opens? = none → t.closes? = none → Nests rest →
      Nests (t :: rest)
  | group {own : Bracket} {t u : Token} {inside rest : List Token} : t.opens? = some own →
      u.closes? = some own → Nests inside → Nests rest → Nests (t :: (inside ++ u :: rest))

namespace Nests

variable {tokens more : List Token}

theorem append (h : Nests tokens) (h' : Nests more) : Nests (tokens ++ more) := by
  induction h with
  | nil => exact h'
  | other ho hc _ ih => exact .other ho hc ih
  | group ho hc hin _ _ ih =>
      rw [List.cons_append, List.append_assoc, List.cons_append]
      exact .group ho hc hin ih

/-- After code that nests the same brackets are open as before it. -/
theorem openAfter_eq (h : Nests tokens) (stack : List Bracket) :
    Bracket.openAfter stack tokens = some stack := by
  induction h generalizing stack with
  | nil => rfl
  | other ho hc _ ih =>
      refine Option.bind_eq_some_iff.2 ⟨stack, ?_, ih stack⟩
      rw [Bracket.afterToken, ho, hc]
  | @group own t u inside rest ho hc _ _ ihin ihrest =>
      refine Option.bind_eq_some_iff.2 ⟨own :: stack, ?_, ?_⟩
      · rw [Bracket.afterToken, ho]
      · rw [List.foldlM_append]
        refine Option.bind_eq_some_iff.2 ⟨own :: stack, ihin _, ?_⟩
        refine Option.bind_eq_some_iff.2 ⟨stack, ?_, ihrest stack⟩
        rw [Bracket.afterToken, Token.opens?_of_closes? hc, hc]
        exact if_pos rfl

end Nests

namespace Bracket

variable {own top : Bracket} {above outer : List Bracket} {tokens : List Token} {m : Nat}

/-- What is opened before the bracket `top` is closed is closed before it too. -/
theorem openAfter_take (hopen : openAfter (above ++ top :: outer) tokens = some [])
    (hm : top.distance? above tokens = some m) : openAfter above (tokens.take m) = some [] := by
  induction tokens generalizing above m with
  | nil => cases hm
  | cons t rest ih =>
      obtain ⟨stack, ht, hrest⟩ := Option.bind_eq_some_iff.1 hopen
      have hgo : ∀ above', stack = above' ++ top :: outer → afterToken above t = some above' →
          (top.distance? above' rest).map (· + 1) = some m →
          openAfter above ((t :: rest).take m) = some [] := by
        rintro above' rfl hafter hmap
        obtain ⟨m', hm', rfl⟩ := Option.map_eq_some_iff.1 hmap
        exact Option.bind_eq_some_iff.2 ⟨above', hafter, ih hrest hm'⟩
      rw [distance?] at hm
      rcases afterToken_cases ht with ⟨b, ho, rfl⟩ | ⟨b, ho, hc, hstack⟩ | ⟨ho, hc, rfl⟩
      · rw [ho] at hm
        exact hgo (b :: above) rfl (by rw [afterToken, ho]) hm
      · rw [ho, hc] at hm
        cases above with
        | nil =>
            obtain ⟨rfl, -⟩ := List.cons.inj hstack
            obtain rfl := Option.some.inj ((if_pos rfl).symm.trans hm)
            rfl
        | cons next above =>
            obtain ⟨rfl, hover⟩ := List.cons.inj hstack
            dsimp only at hm
            rw [dropWhile_top] at hm
            refine hgo above hover.symm ?_ hm
            rw [afterToken, ho, hc]
            exact if_pos rfl
      · rw [ho, hc] at hm
        exact hgo above rfl (by rw [afterToken, ho, hc]) hm

/-- Code in which every bracket is closed in turn nests. -/
theorem nests_of_openAfter (h : openAfter [] tokens = some []) : Nests tokens := by
  induction hn : tokens.length using Nat.strongRecOn generalizing tokens with
  | ind n ih =>
      subst hn
      cases tokens with
      | nil => exact .nil
      | cons t rest =>
          obtain ⟨stack, ht, hrest⟩ := Option.bind_eq_some_iff.1 h
          rcases afterToken_cases ht with ⟨own, ho, rfl⟩ | ⟨own, -, -, hstack⟩ | ⟨ho, hc, rfl⟩
          · have hopen : openAfter ([] ++ own :: []) rest = some [] := hrest
            obtain ⟨m, hm⟩ := exists_distance? hopen
            obtain ⟨hafter, -⟩ := @distance?_skip own own [] [] rest m [] hopen hm
            obtain ⟨u, hu, hc⟩ := exists_token_of_distance? hm
            have hlt := distance?_lt hm
            obtain ⟨hmlt, rfl⟩ := List.getElem?_eq_some_iff.1 hu
            have hsplit : rest = rest.take m ++ rest[m] :: rest.drop (m + 1) := by
              rw [List.getElem_cons_drop, List.take_append_drop]
            rw [hsplit]
            refine .group ho hc (ih _ ?_ (openAfter_take hopen hm) rfl) (ih _ ?_ hafter rfl)
            · rw [List.length_take, List.length_cons]
              omega
            · rw [List.length_drop, List.length_cons]
              omega
          · cases hstack
          · exact .other ho hc (ih _ (Nat.lt_succ_self _) hrest rfl)

/-- The innermost bracket that is open after some code, and the code before it. -/
theorem exists_innermost {code : List Token} (h : openAfter [] code = some (own :: outer)) :
    ∃ before t inside, code = before ++ t :: inside ∧ t.opens? = some own ∧
      openAfter [] before = some outer ∧ Nests inside := by
  induction hn : code.length using Nat.strongRecOn generalizing code own outer with
  | ind n ih =>
      subst hn
      rcases List.eq_nil_or_concat code with rfl | ⟨init, v, rfl⟩
      · cases h
      · have hinit : init.length < (init.concat v).length := by
          rw [List.length_concat]
          exact Nat.lt_succ_self _
        rw [List.concat_eq_append] at h ⊢
        rw [openAfter, List.foldlM_append] at h
        obtain ⟨stack, hstack, hlast⟩ := Option.bind_eq_some_iff.1 h
        obtain ⟨next, hv, hnext⟩ := Option.bind_eq_some_iff.1 hlast
        obtain rfl := Option.some.inj hnext
        rcases afterToken_cases hv with ⟨b, ho, heq⟩ | ⟨b, ho, hc, rfl⟩ | ⟨ho, hc, rfl⟩
        · obtain ⟨rfl, rfl⟩ := List.cons.inj heq
          exact ⟨init, v, [], rfl, ho, hstack, .nil⟩
        · -- the last group is passed over
          obtain ⟨before, t, inside, rfl, ht, hbefore, hin⟩ := ih _ hinit hstack rfl
          have hlt : before.length < ((before ++ t :: inside).concat v).length := by
            rw [List.length_concat, List.length_append]
            omega
          obtain ⟨before', t', inside', rfl, ht', hbefore', hin'⟩ := ih _ hlt hbefore rfl
          refine ⟨before', t', inside' ++ (t :: (inside ++ v :: [])), by simp, ht', hbefore', ?_⟩
          exact hin'.append (.group ht hc hin .nil)
        · obtain ⟨before, t, inside, rfl, ht, hbefore, hin⟩ := ih _ hinit hstack rfl
          exact ⟨before, t, inside ++ [v], by simp, ht, hbefore, hin.append (.other ho hc .nil)⟩

end Bracket

/-- The stack of open brackets accepts exactly what nests. -/
theorem balanced_iff_nests {tokens : List Token} : Balanced tokens ↔ Nests tokens :=
  ⟨Bracket.nests_of_openAfter, fun h => h.openAfter_eq []⟩

instance : DecidablePred Nests := fun _ => decidable_of_iff _ balanced_iff_nests

/-! ## Groups by their places -/

/-- At places `i` and `j` stand the brackets of a group. -/
def Matches (tokens : List Token) (i j : Nat) : Prop :=
  ∃ before t inside u after own, tokens = before ++ t :: (inside ++ u :: after) ∧ before.length = i ∧
    i + 1 + inside.length = j ∧ t.opens? = some own ∧ u.closes? = some own ∧ Nests inside

namespace Brackets

variable {b : Brackets} {i j : Nat} {t : Token} {own : Bracket}

/-- The brackets of a group belong together, whatever stands around it. -/
theorem closer?_of_matches (h : Matches b.tokens.toList i j) : b.closer? i = some j := by
  obtain ⟨before, t, inside, u, after, own, htokens, rfl, rfl, ho, hc, hin⟩ := h
  refine closer?_eq_some_iff.2 ⟨t, own, inside.length, ?_, ho, ?_, by omega⟩
  · rw [token?, ← Array.getElem?_toList, htokens, List.getElem?_append_right (Nat.le_refl _), Nat.sub_self]
    rfl
  · rw [htokens, ← List.drop_drop, List.drop_left, List.drop_one, List.tail_cons]
    have hover : own.distance? ([] ++ []) (inside ++ u :: after) = _ :=
      Bracket.distance?_over (hin.openAfter_eq [])
    rw [List.append_nil] at hover
    rw [hover, Bracket.distance?, Token.opens?_of_closes? hc, hc]
    simp

/-- In code that nests, brackets that belong together are those of a group. -/
theorem matches_of_closer? (hb : Nests b.tokens.toList) (h : b.closer? i = some j) :
    Matches b.tokens.toList i j := by
  obtain ⟨t, own, n, ht, ho, hn, rfl⟩ := closer?_eq_some_iff.1 h
  obtain ⟨stack, hopen⟩ := exists_openAfter (balanced_iff_nests.2 hb) i
  rw [drop_of_token? ht] at hopen
  obtain ⟨next, hnext, hrest⟩ := Option.bind_eq_some_iff.1 hopen
  rw [Bracket.afterToken, ho] at hnext
  obtain rfl := Option.some.inj hnext
  obtain ⟨u, hu, hc⟩ := Bracket.exists_token_of_distance? hn
  obtain ⟨hlt, rfl⟩ := List.getElem?_eq_some_iff.1 hu
  have hin := Bracket.nests_of_openAfter (Bracket.openAfter_take hrest hn)
  obtain ⟨hi, -⟩ := Array.getElem?_eq_some_iff.1 ht
  refine ⟨b.tokens.toList.take i, t, _, _, (b.tokens.toList.drop (i + 1)).drop (n + 1), own, ?_, ?_, ?_, ho, hc, hin⟩
  · rw [List.getElem_cons_drop, List.take_append_drop, ← drop_of_token? ht, List.take_append_drop]
  · rw [List.length_take, Array.length_toList]
    omega
  · rw [List.length_take]
    omega

theorem closer?_iff_matches (hb : Nests b.tokens.toList) :
    b.closer? i = some j ↔ Matches b.tokens.toList i j :=
  ⟨matches_of_closer? hb, closer?_of_matches⟩

/-- In code that nests, every closing bracket closes one. -/
theorem exists_closer?_of_closes? (hb : Nests b.tokens.toList) (ht : b.token? j = some t)
    (hc : t.closes? = some own) : ∃ i, b.closer? i = some j := by
  have hopen := balanced_iff_nests.2 hb
  rw [Balanced, ← List.take_append_drop j b.tokens.toList, Bracket.openAfter, List.foldlM_append] at hopen
  obtain ⟨stack, hbefore, hrest⟩ := Option.bind_eq_some_iff.1 hopen
  rw [drop_of_token? ht] at hrest
  obtain ⟨next, hnext, -⟩ := Option.bind_eq_some_iff.1 hrest
  rcases Bracket.afterToken_cases hnext with ⟨b', ho, -⟩ | ⟨kind, -, hkind, rfl⟩ | ⟨-, hnone, -⟩
  · cases (Token.opens?_of_closes? hc).symm.trans ho
  · obtain ⟨before, u, inside, heq, hu, -, hin⟩ := Bracket.exists_innermost hbefore
    obtain ⟨hj, -⟩ := Array.getElem?_eq_some_iff.1 ht
    have hlength := congrArg List.length heq
    rw [List.length_take, Array.length_toList, List.length_append, List.length_cons] at hlength
    have hsplit : b.tokens.toList = before ++ u :: (inside ++ t :: b.tokens.toList.drop (j + 1)) := by
      rw [← List.cons_append, ← List.append_assoc, ← heq, ← drop_of_token? ht, List.take_append_drop]
    exact ⟨before.length,
      closer?_of_matches ⟨before, u, inside, t, _, kind, hsplit, rfl, by omega, hu, hkind, hin⟩⟩
  · cases hc.symm.trans hnone

/-- In code that nests, every bracket has a partner. -/
theorem exists_partner? (hb : Nests b.tokens.toList) (ht : b.token? i = some t)
    (h : t.opens?.isSome = true ∨ t.closes?.isSome = true) : ∃ j, b.partner? i = some j := by
  rcases h with h | h
  · obtain ⟨own, ho⟩ := Option.isSome_iff_exists.1 h
    obtain ⟨j, hj⟩ := exists_closer? (balanced_iff_nests.2 hb) ht ho
    exact ⟨j, partner?_eq_some_iff.2 (.inl hj)⟩
  · obtain ⟨own, hc⟩ := Option.isSome_iff_exists.1 h
    obtain ⟨j, hj⟩ := exists_closer?_of_closes? hb ht hc
    exact ⟨j, partner?_eq_some_iff.2 (.inr hj)⟩

end Brackets

end EmbeddedSql
