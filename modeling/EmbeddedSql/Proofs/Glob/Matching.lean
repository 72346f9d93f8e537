/-
# What a glob matches

A glob and a subject are read side by side (`GlobFits`):

| the glob begins with | the subject begins with |
| :-- | :-- |
| a star | any run of code points, also none |
| a question mark | any one |
| a set in brackets | a code point that the set holds |
| a bracket that is never closed | that bracket |
| anything else | the same code point |

and both end together.  The program reads the whole glob first and then computes for all ends of the subject at once
which of them the rest of the glob matches; the two agree (`globMatches_iff`).
-/
import EmbeddedSql.Proofs.Glob.Sets

namespace EmbeddedSql

namespace Pattern

variable {pattern : Pattern} {piece : Piece} {p : CodePoint} {subject : Text}

/-! ## Matching piece by piece -/

theorem length_orLater (bs : List Bool) : (orLater bs).length = bs.length := by
  induction bs with
  | nil => rfl
  | cons b bs ih => rw [orLater, List.length_cons, ih, List.length_cons]

theorem endsMatched_star (subject : Text) (rest : Pattern) :
    endsMatched subject (.anyRun :: rest) = orLater (endsMatched subject rest) := by
  rw [endsMatched]

theorem endsMatched_piece (hpiece : piece ≠ .anyRun) (subject : Text) (rest : Pattern) :
    endsMatched subject (piece :: rest) =
      List.zipWith (fun p later => piece.accepts p && later) subject (endsMatched subject rest).tail ++ [false] := by
  rw [endsMatched]
  rintro rfl
  exact hpiece rfl

theorem length_endsMatched (subject : Text) (pattern : Pattern) :
    (endsMatched subject pattern).length = subject.length + 1 := by
  induction pattern with
  | nil => simp [endsMatched]
  | cons piece rest ih =>
      by_cases hpiece : piece = .anyRun
      · rw [hpiece, endsMatched_star, length_orLater, ih]
      · rw [endsMatched_piece hpiece, List.length_append, List.length_zipWith, List.length_tail, ih]
        simp

/-- The first end is the whole subject. -/
theorem endsMatched_eq_cons (subject : Text) (pattern : Pattern) :
    endsMatched subject pattern = pattern.fits subject :: (endsMatched subject pattern).tail := by
  have hlength := length_endsMatched subject pattern
  rw [fits]
  cases h : endsMatched subject pattern with
  | nil =>
      rw [h] at hlength
      cases hlength
  | cons b bs => rfl

/-- The other ends are those of the subject without its first code point. -/
theorem tail_endsMatched (p : CodePoint) (subject : Text) (pattern : Pattern) :
    (endsMatched (p :: subject) pattern).tail = endsMatched subject pattern := by
  induction pattern with
  | nil => rfl
  | cons piece rest ih =>
      by_cases hpiece : piece = .anyRun
      · rw [hpiece, endsMatched_star, endsMatched_star, endsMatched_eq_cons (p :: subject), ih]
        rfl
      · rw [endsMatched_piece hpiece, endsMatched_piece hpiece, ih]
        rw [endsMatched_eq_cons subject rest]
        rfl

theorem fits_nil : fits [] subject = true ↔ subject = [] := by
  cases subject with
  | nil => simp [fits, endsMatched]
  | cons p rest => simp [fits, endsMatched]

theorem fits_star {rest : Pattern} :
    fits (.anyRun :: rest) subject = true ↔ ∃ run more, subject = run ++ more ∧ fits rest more = true := by
  have hfits (t : Text) : fits (.anyRun :: rest) t =
      (fits rest t || (orLater (endsMatched t rest).tail).headD false) := by
    rw [fits, endsMatched_star, endsMatched_eq_cons]
    rfl
  induction subject with
  | nil =>
      have htail : (endsMatched [] rest).tail = [] := by
        rw [← List.length_eq_zero_iff, List.length_tail, length_endsMatched]
        rfl
      rw [hfits, htail, show (orLater []).headD false = false from rfl, Bool.or_false]
      constructor
      · exact fun h => ⟨[], [], rfl, h⟩
      · rintro ⟨run, more, heq, h⟩
        rwa [(List.append_eq_nil_iff.1 heq.symm).2] at h
  | cons p subject ih =>
      have hlater : (orLater (endsMatched subject rest)).headD false = fits (.anyRun :: rest) subject := by
        rw [fits, endsMatched_star]
      rw [hfits, tail_endsMatched, hlater, Bool.or_eq_true]
      refine (or_congr_right ih).trans ?_
      constructor
      · rintro (h | ⟨run, more, rfl, h⟩)
        · exact ⟨[], p :: subject, rfl, h⟩
        · exact ⟨p :: run, more, rfl, h⟩
      · rintro ⟨run, more, heq, h⟩
        cases run with
        | nil => exact .inl (by rw [heq]; exact h)
        | cons q run => exact .inr ⟨run, more, (List.cons.inj heq).2, h⟩

theorem fits_piece {rest : Pattern} (hpiece : piece ≠ .anyRun) :
    fits (piece :: rest) subject = true ↔
      ∃ p more, subject = p :: more ∧ piece.accepts p = true ∧ fits rest more = true := by
  rw [fits, endsMatched_piece hpiece]
  cases subject with
  | nil => simp
  | cons p more =>
      rw [tail_endsMatched, endsMatched_eq_cons more rest]
      show (piece.accepts p && fits rest more) = true ↔ _
      rw [Bool.and_eq_true]
      constructor
      · rintro ⟨hp, hmore⟩
        exact ⟨p, more, rfl, hp, hmore⟩
      · rintro ⟨_, _, ⟨⟩, hp, hmore⟩
        exact ⟨hp, hmore⟩

/-! ## Sets in a glob -/

/-- The text between the brackets of a set: there is a member, an exclamation mark in front not counted, and only the
first one may be a closing bracket. -/
def IsSetBody (body : Text) : Prop :=
  let members := if body.head? = some (.char '!') then body.tail else body
  members ≠ [] ∧ .char ']' ∉ members.tail

instance : DecidablePred IsSetBody := fun _ => inferInstanceAs (Decidable (_ ∧ _))

/-- How much of a text is passed over before a closing bracket is looked for. -/
def setLead (cs : Text) : Nat :=
  let lead := if cs.head? = some (.char '!') then 1 else 0
  if (cs.drop lead).head? = some (.char ']') then lead + 1 else lead

theorem setLength?_eq (cs : Text) :
    setLength? cs = ((cs.drop (setLead cs)).findIdx? (· = .char ']')).map (setLead cs + ·) := rfl

/-- A member and what is listed behind it. -/
theorem not_mem_drop_lead {q : CodePoint} (tail : Text) :
    .char ']' ∉ (q :: tail).drop (if q = .char ']' then 1 else 0) ↔ .char ']' ∉ tail := by
  by_cases hq : q = .char ']'
  · rw [if_pos hq]
    rfl
  · rw [if_neg hq, List.drop_zero, List.mem_cons, not_or]
    exact and_iff_right (Ne.symm hq)

theorem setLead_mark (cs : Text) :
    setLead (.char '!' :: cs) = (if cs.head? = some (.char ']') then 1 else 0) + 1 := by
  rw [setLead, List.head?_cons, if_pos rfl, List.drop_succ_cons, List.drop_zero]
  split
  · rfl
  · rfl

theorem setLead_of_ne {q : CodePoint} (hq : q ≠ .char '!') (cs : Text) :
    setLead (q :: cs) = if q = .char ']' then 1 else 0 := by
  simp only [setLead, List.head?_cons, Option.some.injEq, if_neg hq, List.drop_zero, Nat.zero_add]

/-- What is passed over belongs to the set, and no closing bracket stands in the rest of it. -/
theorem isSetBody_iff (body rest : Text) :
    IsSetBody body ↔ setLead (body ++ .char ']' :: rest) ≤ body.length ∧
      .char ']' ∉ body.drop (setLead (body ++ .char ']' :: rest)) := by
  generalize hlead : setLead (body ++ .char ']' :: rest) = lead
  cases body with
  | nil =>
      obtain rfl : 1 = lead := (setLead_of_ne (by decide) rest).symm.trans hlead
      exact iff_of_false (fun h => h.1 rfl) fun h => absurd h.1 (by decide)
  | cons q tail =>
      by_cases hq : q = .char '!'
      · subst hq
        cases tail with
        | nil =>
            obtain rfl : 2 = lead := (setLead_mark (.char ']' :: rest)).symm.trans hlead
            exact iff_of_false (fun h => h.1 rfl) fun h => absurd h.1 (by decide)
        | cons q tail =>
            obtain rfl : (if q = .char ']' then 1 else 0) + 1 = lead := by
              rw [← hlead, List.cons_append, List.cons_append, setLead_mark, List.head?_cons]
              simp only [Option.some.injEq]
            rw [List.drop_succ_cons, not_mem_drop_lead]
            refine (and_iff_right (List.cons_ne_nil q tail)).trans (and_iff_right ?_).symm
            rw [List.length_cons, List.length_cons]
            split
            · omega
            · omega
      · obtain rfl : (if q = .char ']' then 1 else 0) = lead := (setLead_of_ne hq _).symm.trans hlead
        have hfirst : ¬ (q :: tail).head? = some (.char '!') := fun h => hq (Option.some.inj h)
        unfold IsSetBody
        rw [not_mem_drop_lead, if_neg hfirst]
        refine (and_iff_right (List.cons_ne_nil q tail)).trans (and_iff_right ?_).symm
        rw [List.length_cons]
        split
        · omega
        · omega

theorem findIdx?_closing {inner : Text} (h : .char ']' ∉ inner) (rest : Text) :
    (inner ++ .char ']' :: rest).findIdx? (· = .char ']') = some inner.length := by
  have hnone : inner.findIdx? (· = .char ']') = none :=
    List.findIdx?_eq_none_iff.2 fun p hp => decide_eq_false fun heq => h (heq ▸ hp)
  rw [List.findIdx?_append, hnone, List.findIdx?_cons]
  simp

/-- The set that begins a text ends at the first bracket that can close it. -/
theorem setLength?_eq_some_iff {cs : Text} {n : Nat} :
    setLength? cs = some n ↔
      ∃ body rest, cs = body ++ .char ']' :: rest ∧ body.length = n ∧ IsSetBody body := by
  constructor
  · intro h
    rw [setLength?_eq] at h
    obtain ⟨m, hm, rfl⟩ := Option.map_eq_some_iff.1 h
    have hmem : .char ']' ∈ cs.drop (setLead cs) := by
      have hany := (Option.isSome_of_mem hm).symm.trans List.findIdx?_isSome
      obtain ⟨p, hp, hclosing⟩ := List.any_eq_true.1 hany.symm
      exact of_decide_eq_true hclosing ▸ hp
    obtain ⟨inner, rest, hdrop, hinner⟩ := List.eq_append_cons_of_mem hmem
    rw [hdrop, findIdx?_closing hinner] at hm
    obtain rfl := Option.some.inj hm
    have hlt : setLead cs < cs.length := by
      rw [← Nat.not_le, ← List.drop_eq_nil_iff]
      exact List.ne_nil_of_mem hmem
    have hlength : (cs.take (setLead cs)).length = setLead cs := List.length_take_of_le (Nat.le_of_lt hlt)
    have hcs : cs = (cs.take (setLead cs) ++ inner) ++ .char ']' :: rest := by
      rw [List.append_assoc, ← hdrop, List.take_append_drop]
    refine ⟨cs.take (setLead cs) ++ inner, rest, hcs, by rw [List.length_append, hlength], ?_⟩
    rw [isSetBody_iff _ rest, ← hcs, List.length_append, hlength]
    refine ⟨Nat.le_add_right _ _, ?_⟩
    rw [List.drop_append, hlength, Nat.sub_self, List.drop_zero, List.drop_of_length_le (Nat.le_of_eq hlength)]
    exact hinner
  · rintro ⟨body, rest, rfl, rfl, hbody⟩
    obtain ⟨hlead, hno⟩ := (isSetBody_iff body rest).1 hbody
    rw [setLength?_eq, List.drop_append_of_le_length hlead, findIdx?_closing hno, List.length_drop, Option.map_some,
      Nat.add_sub_cancel' hlead]

/-- The glob and the subject, read side by side. -/
inductive GlobFits : Text → Text → Prop
  | nil : GlobFits [] []
  | star {glob subject : Text} (run : Text) : GlobFits glob subject → GlobFits (.char '*' :: glob) (run ++ subject)
  | question {glob subject : Text} (p : CodePoint) : GlobFits glob subject →
      GlobFits (.char '?' :: glob) (p :: subject)
  | set {body glob subject : Text} {p : CodePoint} : IsSetBody body → SetHolds body p → GlobFits glob subject →
      GlobFits (.char '[' :: (body ++ .char ']' :: glob)) (p :: subject)
  | bracket {glob subject : Text} : (∀ body rest, glob = body ++ .char ']' :: rest → ¬ IsSetBody body) →
      GlobFits glob subject → GlobFits (.char '[' :: glob) (.char '[' :: subject)
  | exactly {glob subject : Text} {p : CodePoint} : p ∉ [.char '*', .char '?', .char '['] →
      GlobFits glob subject → GlobFits (p :: glob) (p :: subject)

theorem fits_exactly {q : CodePoint} {rest : Pattern} :
    fits (.exactly q :: rest) subject = true ↔ ∃ more, subject = q :: more ∧ fits rest more = true := by
  refine (fits_piece (show Piece.exactly q ≠ .anyRun by rintro ⟨⟩)).trans ?_
  constructor
  · rintro ⟨p, more, rfl, hp, h⟩
    obtain rfl : p = q := beq_iff_eq.1 hp
    exact ⟨more, rfl, h⟩
  · rintro ⟨more, rfl, h⟩
    exact ⟨q, more, rfl, beq_self_eq_true q, h⟩

theorem readSet_ne_star (body : Text) : readSet body ≠ .anyRun := by
  rw [readSet_eq]
  exact nofun

/-- What comes behind a set. -/
theorem drop_set (body rest : Text) : (body ++ .char ']' :: rest).drop (body.length + 1) = rest := by
  rw [← List.drop_drop, List.drop_left, List.drop_one, List.tail_cons]

theorem globFits_of_fits {glob subject : Text} (h : (parse glob).fits subject = true) : GlobFits glob subject := by
  fun_induction parse glob generalizing subject with
  | case1 =>
      obtain rfl := fits_nil.1 h
      exact .nil
  | case2 rest ih =>
      obtain ⟨run, more, rfl, hmore⟩ := fits_star.1 h
      exact .star run (ih hmore)
  | case3 rest ih =>
      obtain ⟨p, more, rfl, -, hmore⟩ := (fits_piece (show Piece.anyOne ≠ .anyRun by rintro ⟨⟩)).1 h
      exact .question p (ih hmore)
  | case4 rest hnone ih =>
      obtain ⟨more, rfl, hmore⟩ := fits_exactly.1 h
      refine .bracket (fun body after heq hbody => ?_) (ih hmore)
      have hsome := setLength?_eq_some_iff.2 ⟨body, after, heq, rfl, hbody⟩
      rw [hnone] at hsome
      cases hsome
  | case5 rest n hsome ih =>
      obtain ⟨p, more, rfl, hp, hmore⟩ := (fits_piece (readSet_ne_star _)).1 h
      obtain ⟨body, after, rfl, rfl, hbody⟩ := setLength?_eq_some_iff.1 hsome
      rw [List.take_left] at hp
      rw [drop_set] at ih hmore
      exact .set hbody ((accepts_readSet body p).1 hp) (ih hmore)
  | case6 p rest hstar hquestion hbracket ih =>
      obtain ⟨more, rfl, hmore⟩ := fits_exactly.1 h
      refine .exactly ?_ (ih hmore)
      simp only [List.mem_cons, List.not_mem_nil, or_false, not_or]
      exact ⟨hstar, hquestion, hbracket⟩

theorem fits_of_globFits {glob subject : Text} (h : GlobFits glob subject) : (parse glob).fits subject = true := by
  induction h with
  | nil => rw [parse, fits_nil]
  | star run _ ih =>
      rw [parse, fits_star]
      exact ⟨run, _, rfl, ih⟩
  | question p _ ih =>
      rw [parse, fits_piece (show Piece.anyOne ≠ .anyRun by rintro ⟨⟩)]
      exact ⟨p, _, rfl, rfl, ih⟩
  | @set body glob subject p hbody hp _ ih =>
      have hsome := setLength?_eq_some_iff.2 ⟨body, glob, rfl, rfl, hbody⟩
      rw [parse, hsome]
      simp only [List.take_left, drop_set]
      rw [fits_piece (readSet_ne_star body)]
      exact ⟨p, _, rfl, (accepts_readSet body p).2 hp, ih⟩
  | @bracket glob subject hno _ ih =>
      have hnone : setLength? glob = none := by
        rw [Option.eq_none_iff_forall_ne_some]
        intro n hsome
        obtain ⟨body, rest, heq, -, hbody⟩ := setLength?_eq_some_iff.1 hsome
        exact hno body rest heq hbody
      rw [parse, hnone]
      exact fits_exactly.2 ⟨_, rfl, ih⟩
  | @exactly glob subject p hp _ ih =>
      have hparse : parse (p :: glob) = .exactly p :: parse glob := by
        simp only [List.mem_cons, List.not_mem_nil, or_false, not_or] at hp
        rw [parse]
        · exact hp.1
        · exact hp.2.1
        · exact hp.2.2
      rw [hparse, fits_exactly]
      exact ⟨_, rfl, ih⟩

end Pattern

/-- The matcher decides what a glob matches. -/
theorem globMatches_iff {glob subject : Text} : globMatches glob subject = true ↔ Pattern.GlobFits glob subject :=
  ⟨Pattern.globFits_of_fits, Pattern.fits_of_globFits⟩

end EmbeddedSql
