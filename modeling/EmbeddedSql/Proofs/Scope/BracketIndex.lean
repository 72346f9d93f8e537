/-
# The bracket index

Everything that is looked up about brackets while variables are followed: the partner of a bracket, and the
frames around a place.

| | |
| :-- | :-- |
| in any code | partners are each other's, of one kind, and pairs do not cross |
| in code that nests | partners are the brackets of a group, and the frames around a place are those of the groups of parentheses around it |

The partners and the frames come from two stacks.  One gives up brackets that do not fit, the other one knows
parentheses only and drops one at every closing parenthesis, whether it fits or not.  Where brackets nest the
two agree: the parenthesis that is closed at a place is the innermost one around it (`head_of_closer?`).  So the
frames change from one place to the next as the groups around them do (`mem_framesAfter`).
-/
import EmbeddedSql.Proofs.Scope.Partners
import EmbeddedSql.Proofs.Scope.Surroundings
import EmbeddedSql.Token.Lexer

namespace EmbeddedSql

namespace Brackets

variable {b : Brackets} {classifier : Classifier} {i o c : Nat} {t : Token}

/-- The frames around a place, innermost first. -/
theorem Nested.pairwise {frames : List Frame} (h : b.Nested classifier i frames) :
    (∀ frame ∈ frames, frame.openAt < i) ∧ (frames.map (·.openAt)).Pairwise (· > ·) := by
  induction h with
  | nil => exact ⟨nofun, .nil⟩
  | @cons i o around ho _ _ _ ih =>
      obtain ⟨hlt, hpairwise⟩ := ih
      refine ⟨List.forall_mem_cons.2 ⟨ho, fun frame hframe => Nat.lt_trans (hlt frame hframe) ho⟩, ?_⟩
      rw [List.map_cons, List.pairwise_cons]
      refine ⟨fun p hp => ?_, hpairwise⟩
      obtain ⟨frame, hframe, rfl⟩ := List.mem_map.1 hp
      exact hlt frame hframe

/-- A parenthesis around place `i`: it is opened before and closed there or later. -/
def IsAround (b : Brackets) (i o : Nat) : Prop :=
  b.isPunct o "(" = true ∧ o < i ∧ ∃ c, b.closer? o = some c ∧ i ≤ c

theorem isPunct_iff (ht : b.token? i = some t) (text : String) :
    b.isPunct i text = true ↔ t.isPunct text = true := by
  rw [isPunct, ht, Option.any_some]

/-- A parenthesis is closed by a parenthesis. -/
theorem isPunct_closer (hp : b.isPunct o "(" = true) (hc : b.closer? o = some c) :
    b.isPunct c ")" = true := by
  obtain ⟨t, u, own, ht, ho, hu, hclose⟩ := exists_kind_of_closer? hc
  have hparen : t.opens? = some .paren := Token.opens?_eq_some.2 ((isPunct_iff ht "(").1 hp)
  obtain rfl := Option.some.inj (hparen.symm.trans ho)
  exact (isPunct_iff hu _).2 (Token.closes?_eq_some.1 hclose)

theorem isPunct_opener (hc : b.closer? o = some c) (hp : b.isPunct c ")" = true) :
    b.isPunct o "(" = true := by
  obtain ⟨t, u, own, ht, ho, hu, hclose⟩ := exists_kind_of_closer? hc
  have hparen : u.closes? = some .paren := Token.closes?_eq_some.2 ((isPunct_iff hu ")").1 hp)
  obtain rfl := Option.some.inj (hparen.symm.trans hclose)
  exact (isPunct_iff ht _).2 (Token.opens?_eq_some.1 ho)

/-- One token further the same parentheses are around a place, but for one that is opened or closed there. -/
theorem isAround_succ_iff (hopen : b.isPunct i "(" = true → ∃ c, b.closer? i = some c) :
    b.IsAround (i + 1) o ↔
      b.isPunct i "(" = true ∧ o = i ∨ b.IsAround i o ∧ b.closer? o ≠ some i := by
  constructor
  · rintro ⟨hp, ho, c, hc, hle⟩
    rcases Nat.lt_succ_iff_lt_or_eq.1 ho with hlt | rfl
    · refine .inr ⟨⟨hp, hlt, c, hc, Nat.le_of_succ_le hle⟩, fun heq => ?_⟩
      obtain rfl := Option.some.inj (hc.symm.trans heq)
      exact Nat.lt_irrefl c hle
    · exact .inl ⟨hp, rfl⟩
  · rintro (⟨hp, rfl⟩ | ⟨⟨hp, hlt, c, hc, hle⟩, hne⟩)
    · obtain ⟨c, hc⟩ := hopen hp
      exact ⟨hp, Nat.lt_succ_self o, c, hc, lt_of_closer? hc⟩
    · refine ⟨hp, Nat.lt_succ_of_lt hlt, c, hc, Nat.lt_of_le_of_ne hle ?_⟩
      rintro rfl
      exact hne hc

/-- The parenthesis that is closed at a place is the innermost one around it. -/
theorem head_of_closer? {first : Frame} {outer : List Frame}
    (hmem : ∀ frame, frame ∈ first :: outer ↔ ∃ o, b.IsAround i o ∧ b.frameAt classifier o = frame)
    (hpairwise : ((first :: outer).map (·.openAt)).Pairwise (· > ·)) (hp : b.isPunct o "(" = true)
    (hc : b.closer? o = some i) : first = b.frameAt classifier o := by
  obtain ⟨o', ⟨-, hlt, c, hc', hle⟩, rfl⟩ := (hmem first).1 List.mem_cons_self
  have hown : b.frameAt classifier o ∈ b.frameAt classifier o' :: outer :=
    (hmem _).2 ⟨o, ⟨hp, lt_of_closer? hc, i, hc, Nat.le_refl i⟩, rfl⟩
  rcases List.mem_cons.1 hown with heq | hin
  · exact heq.symm
  · have hinner : o < o' := by
      rw [List.map_cons, List.pairwise_cons] at hpairwise
      exact hpairwise.1 o (List.mem_map.2 ⟨_, hin, rfl⟩)
    exact absurd (closer?_nested hc hc' hinner hlt) (Nat.not_lt.2 hle)

/-- Around a place where a parenthesis is closed, the frames but for the innermost one are those of the other
parentheses. -/
theorem mem_tail_iff_of_closer? {around : List Frame} {p : Nat}
    (hmem : ∀ frame, frame ∈ around ↔ ∃ o, b.IsAround i o ∧ b.frameAt classifier o = frame)
    (hpairwise : (around.map (·.openAt)).Pairwise (· > ·)) (hp : b.isPunct p "(" = true)
    (hc : b.closer? p = some i) (frame : Frame) :
    frame ∈ around.tail ↔ ∃ o, (b.IsAround i o ∧ b.closer? o ≠ some i) ∧ b.frameAt classifier o = frame := by
  cases around with
  | nil => cases (hmem (b.frameAt classifier p)).2 ⟨p, ⟨hp, lt_of_closer? hc, i, hc, Nat.le_refl i⟩, rfl⟩
  | cons first outer =>
      obtain rfl := head_of_closer? hmem hpairwise hp hc
      rw [List.map_cons, List.pairwise_cons] at hpairwise
      rw [List.tail_cons]
      constructor
      · intro hin
        obtain ⟨o, ho, rfl⟩ := (hmem frame).1 (List.mem_cons_of_mem _ hin)
        refine ⟨o, ⟨ho, fun hco => ?_⟩, rfl⟩
        obtain rfl := closer?_injective hc hco
        exact Nat.lt_irrefl p (hpairwise.1 p (List.mem_map.2 ⟨_, hin, rfl⟩))
      · rintro ⟨o, ⟨ho, hne⟩, rfl⟩
        rcases List.mem_cons.1 ((hmem _).2 ⟨o, ho, rfl⟩) with heq | hin
        · obtain rfl : o = p := congrArg Frame.openAt heq
          exact absurd hc hne
        · exact hin

/-- One token further. -/
theorem mem_framesAfter (hb : Nests b.tokens.toList) (ht : b.token? i = some t) {around : List Frame}
    (hpairwise : (around.map (·.openAt)).Pairwise (· > ·))
    (hmem : ∀ frame, frame ∈ around ↔ ∃ o, b.IsAround i o ∧ b.frameAt classifier o = frame)
    (frame : Frame) :
    frame ∈ b.framesAfter classifier i t around ↔
      ∃ o, b.IsAround (i + 1) o ∧ b.frameAt classifier o = frame := by
  have hopen : b.isPunct i "(" = true → ∃ c, b.closer? i = some c :=
    exists_closer?_of_paren (balanced_iff_nests.2 hb)
  have hclose : ∀ o, b.IsAround i o → b.closer? o = some i → t.isPunct ")" = true :=
    fun o ho hc => (isPunct_iff ht ")").1 (isPunct_closer ho.1 hc)
  simp only [isAround_succ_iff hopen]
  by_cases hparen : t.isPunct "(" = true
  · have hnot : ¬ t.isPunct ")" = true := by
      rw [Token.isPunct_of_ne hparen (by decide)]
      exact Bool.false_ne_true
    rw [framesAfter_of_paren hparen, List.mem_cons, hmem]
    constructor
    · rintro (rfl | ⟨o, ho, rfl⟩)
      · exact ⟨i, .inl ⟨(isPunct_iff ht "(").2 hparen, rfl⟩, rfl⟩
      · exact ⟨o, .inr ⟨ho, fun hc => hnot (hclose o ho hc)⟩, rfl⟩
    · rintro ⟨o, ⟨-, rfl⟩ | ⟨ho, -⟩, rfl⟩
      · exact .inl rfl
      · exact .inr ⟨o, ho, rfl⟩
  · have hstays : ∀ o, b.isPunct i "(" = true ∧ o = i ∨ b.IsAround i o ∧ b.closer? o ≠ some i ↔
        b.IsAround i o ∧ b.closer? o ≠ some i :=
      fun o => or_iff_right fun hp => hparen ((isPunct_iff ht "(").1 hp.1)
    simp only [hstays]
    rw [framesAfter, if_neg hparen]
    by_cases hclosing : t.isPunct ")" = true
    · rw [if_pos hclosing]
      have hc : t.closes? = some .paren := Token.closes?_eq_some.2 hclosing
      obtain ⟨p, hp⟩ := exists_closer?_of_closes? hb ht hc
      have hpp : b.isPunct p "(" = true := isPunct_opener hp ((isPunct_iff ht ")").2 hclosing)
      exact mem_tail_iff_of_closer? hmem hpairwise hpp hp frame
    · rw [if_neg hclosing, hmem]
      refine exists_congr fun o => and_congr_left fun _ => (and_iff_left_of_imp fun ho hc => ?_).symm
      exact hclosing (hclose o ho hc)

/-- In code that nests, the frames around a place are those of the parentheses around it. -/
theorem mem_framesBefore? (hb : Nests b.tokens.toList) {frames : List Frame}
    (h : b.framesBefore? classifier i = some frames) (frame : Frame) :
    frame ∈ frames ↔ ∃ o, b.IsAround i o ∧ b.frameAt classifier o = frame := by
  induction i generalizing frames frame with
  | zero =>
      have hnil : frames = [] := by
        rw [framesBefore?] at h
        cases htokens : b.tokens.toList with
        | nil =>
            rw [htokens] at h
            cases h
        | cons t rest =>
            rw [htokens] at h
            exact (Option.some.inj h).symm
      subst hnil
      refine iff_of_false List.not_mem_nil ?_
      rintro ⟨o, ⟨-, hlt, -⟩, -⟩
      exact Nat.not_lt_zero o hlt
  | succ i ih =>
      have hsize : i + 1 < b.size := by
        obtain ⟨hlt, -⟩ := List.getElem?_eq_some_iff.1 h
        rwa [b.length_framesFrom, Array.length_toList] at hlt
      obtain ⟨t, ht⟩ : ∃ t, b.token? i = some t := ⟨_, Array.getElem?_eq_getElem (Nat.lt_of_succ_lt hsize)⟩
      obtain ⟨around, haround⟩ : ∃ around, b.framesBefore? classifier i = some around := by
        refine ⟨_, List.getElem?_eq_getElem ?_⟩
        rw [b.length_framesFrom, Array.length_toList]
        exact Nat.lt_of_succ_lt hsize
      obtain rfl := Option.some.inj (h.symm.trans (framesBefore?_succ ht haround hsize))
      exact mem_framesAfter hb ht (nested_of_framesBefore? haround).pairwise.2 (ih haround) frame

theorem closeAt_frameAt (hc : b.closer? o = some c) : (b.frameAt classifier o).closeAt = c := by
  show (b.closer? o).getD b.size = c
  rw [hc]
  rfl

/-- The frames around a place by the places of their parentheses. -/
theorem exists_frame_iff (hb : Nests b.tokens.toList) {frames : List Frame}
    (h : b.framesBefore? classifier i = some frames) :
    (∃ frame ∈ frames, frame.openAt = o ∧ frame.closeAt = c) ↔
      b.isPunct o "(" = true ∧ b.partner? o = some c ∧ o < i ∧ i ≤ c := by
  constructor
  · rintro ⟨frame, hframe, rfl, rfl⟩
    obtain ⟨o, ⟨hp, hlt, c, hc, hle⟩, rfl⟩ := (mem_framesBefore? hb h frame).1 hframe
    rw [closeAt_frameAt hc]
    exact ⟨hp, partner?_eq_some_iff.2 (.inl hc), hlt, hle⟩
  · rintro ⟨hp, hpartner, hlt, hle⟩
    have hc : b.closer? o = some c :=
      closer?_eq_some_iff_partner?.2 ⟨hpartner, Nat.lt_of_lt_of_le hlt hle⟩
    exact ⟨_, (mem_framesBefore? hb h _).2 ⟨o, ⟨hp, hlt, c, hc, hle⟩, rfl⟩, rfl, closeAt_frameAt hc⟩

end Brackets

namespace Scope

/-- Partners are each other's, an opening bracket and a later closing one of its kind; pairs do not cross, and all
of them are found in one pass.  In code that nests, they are the brackets of the groups, no bracket is without a
partner, and the frames around a place are, innermost first, those of the parentheses before it that are closed
there or later. -/
theorem partners_exact (classifier : Classifier) (tokens : List Token) :
    let sc := Scope.ofTokens classifier tokens
    (∀ i j, sc.partner? i = some j → sc.partner? j = some i ∧ (sc.IsPair i j ∨ sc.IsPair j i)) ∧
    (∀ i j k l, sc.partner? i = some j → sc.partner? k = some l → i < k → k < j → i < l ∧ l < j) ∧
    (∀ i j, (i, j) ∈ Bracket.pairsFrom 0 [] tokens ↔ sc.partner? i = some j ∧ i < j) ∧
    (Nests tokens →
      (∀ i j, sc.partner? i = some j ∧ i < j ↔ Matches tokens i j) ∧
      (∀ i t, tokens[i]? = some t → t.opens?.isSome = true ∨ t.closes?.isSome = true →
        ∃ j, sc.partner? i = some j) ∧
      ∀ i < tokens.length,
        ((sc.framesAt i).map (·.openAt)).Pairwise (· > ·) ∧
        ∀ o c, (∃ frame ∈ sc.framesAt i, frame.openAt = o ∧ frame.closeAt = c) ↔
          sc.isPunct o "(" = true ∧ sc.partner? o = some c ∧ o < i ∧ i ≤ c) := by
  intro sc
  have hsymm : ∀ i j, sc.partner? i = some j → sc.partner? j = some i ∧ (sc.IsPair i j ∨ sc.IsPair j i) :=
    fun i j h => ⟨Brackets.partner?_symm h, Brackets.isPair_of_partner? h⟩
  refine ⟨hsymm, fun i j k l => Brackets.partner?_nested, fun i j => ?_, fun hb => ⟨?_, ?_, ?_⟩⟩
  · rw [← Brackets.closer?_eq_some_iff_partner?]
    exact Brackets.mem_pairsFrom_iff (b := sc.toBrackets)
  · intro i j
    rw [← Brackets.closer?_eq_some_iff_partner?]
    exact Brackets.closer?_iff_matches (b := sc.toBrackets) hb
  · intro i t ht h
    refine Brackets.exists_partner? (b := sc.toBrackets) hb ?_ h
    rwa [Brackets.token?, ← Array.getElem?_toList]
  · intro i hi
    have hframes : sc.framesBefore? classifier i = some (sc.framesAt i) :=
      (framedBy_ofTokens classifier tokens).framesBefore?_eq hi
    exact ⟨(Brackets.nested_of_framesBefore? hframes).pairwise.2,
      fun o c => Brackets.exists_frame_iff (b := sc.toBrackets) hb hframes⟩

/-- A call with an index, a call in it, and a lambda. -/
def callback : List Token :=
  significant ((tokenize "run(rows[at(i)], () -> \x7b step(); \x7d);").toOption.getD [])

/-- Around `i` are the parentheses of `at` and of `run`, but not the empty ones, which are not open yet. -/
theorem partners_exact_callback :
    let sc := Scope.ofTokens RuleSet.standard.classifier callback
    Nests callback ∧ Matches callback 3 8 ∧
      (∃ frame ∈ sc.framesAt 6, frame.openAt = 5 ∧ frame.closeAt = 7) ∧
      (∃ frame ∈ sc.framesAt 6, frame.openAt = 1 ∧ frame.closeAt = 19) ∧
      ¬ ∃ frame ∈ sc.framesAt 6, frame.openAt = 10 ∧ frame.closeAt = 11 := by
  intro sc
  -- evaluated at once, since each evaluation cuts the source anew
  obtain ⟨hnests, hlength, hindex, hat, hrun, hempty⟩ :
      Nests callback ∧ 6 < callback.length ∧ sc.partner? 3 = some 8 ∧
        (sc.isPunct 5 "(" = true ∧ sc.partner? 5 = some 7) ∧
        (sc.isPunct 1 "(" = true ∧ sc.partner? 1 = some 19) ∧
        (sc.isPunct 10 "(" = true ∧ sc.partner? 10 = some 11) := by
    decide +kernel
  obtain ⟨-, -, -, hb⟩ := partners_exact RuleSet.standard.classifier callback
  obtain ⟨hmatches, -, hframes⟩ := hb hnests
  obtain ⟨-, haround⟩ := hframes 6 hlength
  refine ⟨hnests, (hmatches 3 8).1 ⟨hindex, by decide⟩, (haround 5 7).2 ⟨hat.1, hat.2, by decide, by decide⟩,
    (haround 1 19).2 ⟨hrun.1, hrun.2, by decide, by decide⟩, fun h => ?_⟩
  obtain ⟨-, -, hlt, -⟩ := (haround 10 11).1 h
  exact absurd hlt (by decide)

end Scope

end EmbeddedSql
