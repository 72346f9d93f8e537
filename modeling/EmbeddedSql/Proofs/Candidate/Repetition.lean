/-
# Merging again, and detecting again

Merging what is merged already changes nothing, whatever the candidates were
(`mergeCandidates_idempotent`): merged candidates come in the order of the sweep and stand apart, so
that the sweep finds nothing to join.

A candidate that is detected once more changes nothing either, as long as no source lines are attached
and the texts show the statements (`IsBare`).  The sort puts it after the one that was there, at the
end of those that start on the same line.  By then the run has *absorbed* the first of the two: it
covers its lines and holds its statements.  The second one overlaps the run, so its statements are not
added again, and the run is what it was.

Nor does a candidate get lost: exactly one of the merged ones has its lines, and its statements
(`exists_absorbing`).

A variable that is reported once more without having changed gives the candidate that it gave before.
So it makes no difference how many executing calls it is used by.
-/
import EmbeddedSql.Proofs.Candidate.Statements
import EmbeddedSql.Proofs.Flow.Accumulations
import EmbeddedSql.Proofs.Flow.Lines

namespace EmbeddedSql

variable {separator : Text} {candidates : List Candidate}

/-! ## Merging again -/

namespace Candidate

variable {current : Candidate} {rest : List Candidate}

/-- Candidates that stand apart stay as they are. -/
theorem sweep_of_apart (h : (current :: rest).Pairwise Apart) :
    sweep separator current rest = current :: rest := by
  induction rest generalizing current with
  | nil => rfl
  | cons next rest ih =>
      obtain ⟨hfirst, hrest⟩ := List.pairwise_cons.1 h
      have hgap : current.endLine + 1 < next.startLine := hfirst next List.mem_cons_self
      rw [sweep, if_neg fun htouch => (touches_iff.1 htouch).not_gt hgap, ih hrest]

/-- The runs of a sweep come in the order of their first lines. -/
theorem pairwise_sweep (h : (current :: rest).Pairwise StartsBefore) :
    (sweep separator current rest).Pairwise StartsBefore := by
  induction rest generalizing current with
  | nil => exact List.pairwise_singleton _ _
  | cons next rest ih =>
      obtain ⟨hfirst, hrest⟩ := List.pairwise_cons.1 h
      rw [sweep]
      split
      · exact ih (pairwise_join h)
      · refine List.pairwise_cons.2 ⟨fun m hm => ?_, ih hrest⟩
        exact (hfirst next List.mem_cons_self).trans (startsBefore_of_mem_sweep hrest m hm)

end Candidate

theorem pairwise_mergeCandidates (separator : Text) (candidates : List Candidate) :
    (mergeCandidates separator candidates).Pairwise Candidate.StartsBefore := by
  have hsorted := pairwise_sortByStart candidates
  rw [mergeCandidates]
  split
  · exact .nil
  · next first rest heq =>
      rw [heq] at hsorted
      exact Candidate.pairwise_sweep hsorted

theorem mergeCandidates_of_apart (horder : candidates.Pairwise Candidate.StartsBefore)
    (hapart : candidates.Pairwise Candidate.Apart) :
    mergeCandidates separator candidates = candidates := by
  rw [mergeCandidates, sortByStart_of_pairwise horder]
  cases candidates with
  | nil => rfl
  | cons first rest => exact Candidate.sweep_of_apart hapart

/-- Merging what is merged changes nothing. -/
theorem mergeCandidates_idempotent (separator : Text) (candidates : List Candidate) :
    mergeCandidates separator (mergeCandidates separator candidates) =
      mergeCandidates separator candidates :=
  mergeCandidates_of_apart (pairwise_mergeCandidates separator candidates)
    (apart_mergeCandidates separator candidates)

/-! ## Detecting again -/

namespace Candidate

/-- A candidate as it is before source lines are attached to it. -/
structure IsBare (separator : Text) (c : Candidate) : Prop where
  start_le_end : c.startLine ≤ c.endLine
  content : c.content = ""
  joined : c.IsJoined separator

/-- The first has the lines and the statements of the second. -/
structure Absorbs (m c : Candidate) : Prop where
  liesIn : c.LiesIn m
  statements : c.statements ⊆ m.statements

variable {m c d current next : Candidate} {before after : List Candidate}

theorem IsBare.join (hm : m.IsBare separator) : (m.join separator d).IsBare separator :=
  ⟨(min_le_left _ _).trans (hm.start_le_end.trans (le_max_left _ _)), rfl, isJoined_join m d⟩

theorem absorbs_self (c : Candidate) : c.Absorbs c := ⟨⟨le_rfl, le_rfl⟩, List.Subset.refl _⟩

theorem Absorbs.join (h : m.Absorbs c) : (m.join separator d).Absorbs c :=
  ⟨h.liesIn.trans (liesIn_join_left separator m d),
    List.Subset.trans h.statements subset_addStatements_left⟩

theorem absorbs_join (m d : Candidate) : (m.join separator d).Absorbs d :=
  ⟨liesIn_join_right separator m d, subset_addStatements_right⟩

theorem Absorbs.startLine_le (h : m.Absorbs c) (hc : c.startLine ≤ c.endLine) :
    c.startLine ≤ m.endLine := hc.trans h.liesIn.2

/-- What is absorbed already leaves no trace. -/
theorem join_eq_of_absorbs (h : m.Absorbs c) (hm : m.IsBare separator) (hc : c.startLine ≤ c.endLine) :
    m.join separator c = m := by
  have hoverlaps : decide (c.startLine ≤ m.endLine) = true := decide_eq_true (h.startLine_le hc)
  have hstatements := addStatements_true_of_subset h.statements
  obtain ⟨text, startLine, endLine, origin, disposition, statements, content, hne⟩ := m
  obtain ⟨-, hcontent, hjoined⟩ := hm
  dsimp only at hcontent hoverlaps hstatements
  subst hcontent
  simp only [join, hoverlaps, hstatements, min_eq_left h.liesIn.1, max_eq_left h.liesIn.2,
    ← show text = List.intercalate separator statements from hjoined]

/-- A sweep over sorted candidates is the same without one that was there before. -/
theorem sweep_append_absorbed (hbare : ∀ d ∈ current :: before, d.IsBare separator)
    (hc : c.startLine ≤ c.endLine) (horder : ∀ d ∈ before, d.StartsBefore c)
    (hthere : current.Absorbs c ∨ c ∈ before) :
    sweep separator current (before ++ c :: after) = sweep separator current (before ++ after) := by
  induction before generalizing current with
  | nil =>
      have habsorbs : current.Absorbs c := hthere.resolve_right List.not_mem_nil
      have htouch : current.touches c = true :=
        touches_iff.2 ((habsorbs.startLine_le hc).trans (Int.lt_succ _).le)
      have hcurrent : current.IsBare separator := hbare current List.mem_cons_self
      rw [List.nil_append, sweep, if_pos htouch, join_eq_of_absorbs habsorbs hcurrent hc]
      rfl
  | cons next before ih =>
      obtain ⟨hcurrent, hrest⟩ := List.forall_mem_cons.1 hbare
      obtain ⟨hnext, horder⟩ := List.forall_mem_cons.1 horder
      rw [List.cons_append, List.cons_append, sweep, sweep]
      split
      · refine ih (List.forall_mem_cons.2 ⟨hcurrent.join, ?_⟩) horder ?_
        · exact (List.forall_mem_cons.1 hrest).2
        · rcases hthere with habsorbs | hmem
          · exact .inl habsorbs.join
          · rcases List.mem_cons.1 hmem with rfl | hmem
            · exact .inl (absorbs_join current c)
            · exact .inr hmem
      · next htouch =>
          -- a run that has absorbed the candidate touches all that starts no later
          have hmem : c ∈ next :: before := by
            refine hthere.resolve_left fun habsorbs => htouch (touches_iff.2 ?_)
            exact hnext.trans ((habsorbs.startLine_le hc).trans (Int.lt_succ _).le)
          refine congrArg (current :: ·) (ih hrest horder ?_)
          rcases List.mem_cons.1 hmem with rfl | hmem
          · exact .inl (absorbs_self c)
          · exact .inr hmem

end Candidate

open Candidate

variable {c : Candidate} {earlier later : List Candidate}

/-- What is inserted goes before or after a candidate whether or not the candidate is there. -/
theorem exists_orderedInsert_append {before after : List Candidate} (e : Candidate)
    (hbefore : ∀ d ∈ before, d.StartsBefore c) (hafter : ∀ d ∈ after, c.StartsBefore d) :
    ∃ before' after', (before ++ c :: after).orderedInsert StartsBefore e = before' ++ c :: after' ∧
      (before ++ after).orderedInsert StartsBefore e = before' ++ after' ∧
      (∀ d ∈ before', d.StartsBefore c) ∧ before ⊆ before' ∧ (e.StartsBefore c → e ∈ before') := by
  induction before with
  | nil =>
      by_cases he : e.StartsBefore c
      · have hinsert : after.orderedInsert StartsBefore e = e :: after := by
          cases after with
          | nil => rfl
          | cons d after =>
              exact List.orderedInsert_cons_of_le _ _ (he.trans (hafter d List.mem_cons_self))
        refine ⟨[e], after, List.orderedInsert_cons_of_le _ _ he, hinsert, fun d hd => ?_,
          List.nil_subset _, fun _ => List.mem_cons_self⟩
        rw [List.mem_singleton.1 hd]
        exact he
      · exact ⟨[], after.orderedInsert StartsBefore e, List.orderedInsert_of_not_le _ _ he, rfl,
          (fun d hd => nomatch hd), List.nil_subset _, fun h => absurd h he⟩
  | cons b before ih =>
      obtain ⟨hb, hrest⟩ := List.forall_mem_cons.1 hbefore
      by_cases he : e.StartsBefore b
      · refine ⟨e :: b :: before, after, List.orderedInsert_cons_of_le _ _ he,
          List.orderedInsert_cons_of_le _ _ he, ?_, List.subset_cons_self _ _,
          fun _ => List.mem_cons_self⟩
        exact List.forall_mem_cons.2 ⟨he.trans hb, hbefore⟩
      · obtain ⟨before', after', hwith, hwithout, hall, hsub, hmem⟩ := ih hrest
        refine ⟨b :: before', after', ?_, ?_, List.forall_mem_cons.2 ⟨hb, hall⟩,
          List.cons_subset_cons _ hsub, fun h => List.mem_cons_of_mem b (hmem h)⟩
        · rw [List.cons_append, List.orderedInsert_of_not_le _ _ he, hwith, List.cons_append]
        · rw [List.cons_append, List.orderedInsert_of_not_le _ _ he, hwithout, List.cons_append]

/-- Where a candidate is sorted in: after all of the earlier ones that start no later. -/
theorem exists_sortByStart_append (earlier later : List Candidate) (c : Candidate) :
    ∃ before after, sortByStart (earlier ++ c :: later) = before ++ c :: after ∧
      sortByStart (earlier ++ later) = before ++ after ∧ (∀ d ∈ before, d.StartsBefore c) ∧
      ∀ d ∈ earlier, d.StartsBefore c → d ∈ before := by
  induction earlier with
  | nil =>
      obtain ⟨before, after, hcons, hsort, hbefore, -⟩ := exists_sortByStart_cons c later
      exact ⟨before, after, hcons, hsort, fun d hd => (hbefore d hd).le, (fun d hd => nomatch hd)⟩
  | cons e earlier ih =>
      obtain ⟨before, after, hwith, hwithout, hbefore, hmem⟩ := ih
      have horder := pairwise_sortByStart (earlier ++ c :: later)
      rw [hwith] at horder
      have hafter := (List.pairwise_cons.1 (List.pairwise_append.1 horder).2.1).1
      obtain ⟨before', after', hwith', hwithout', hall, hsub, he⟩ :=
        exists_orderedInsert_append e hbefore hafter
      rw [List.cons_append, List.cons_append, sortByStart_cons, sortByStart_cons, hwith, hwithout]
      refine ⟨before', after', hwith', hwithout', hall, fun d hd hbefore => ?_⟩
      rcases List.mem_cons.1 hd with rfl | hd
      · exact he hbefore
      · exact hsub (hmem d hd hbefore)

/-- Exactly one of the merged candidates has the lines of a candidate, and it has its statements too. -/
theorem exists_absorbing (hlines : ∀ d ∈ candidates, d.startLine ≤ d.endLine) (hc : c ∈ candidates) :
    ∃ m, (mergeCandidates separator candidates).filter (c.LiesIn ·) = [m] ∧ m.Absorbs c := by
  obtain ⟨m, hm, hin⟩ := exists_liesIn_mergeCandidates separator hc
  have hparts := grownFrom_filter hlines hm
  exact ⟨m, filter_liesIn_of_apart (apart_mergeCandidates separator candidates) (hlines c hc) hm hin,
    hin, hparts.statements_subset c (mem_parts.2 ⟨hc, hin⟩)⟩

/-- A candidate that was detected before makes no difference. -/
theorem mergeCandidates_append_repeated (hbare : ∀ d ∈ earlier ++ later, d.IsBare separator)
    (hc : c ∈ earlier) :
    mergeCandidates separator (earlier ++ c :: later) =
      mergeCandidates separator (earlier ++ later) := by
  have hle : c.startLine ≤ c.endLine := (hbare c (List.mem_append_left _ hc)).start_le_end
  obtain ⟨before, after, hwith, hwithout, hbefore, hmem⟩ := exists_sortByStart_append earlier later c
  have hthere : c ∈ before := hmem c hc le_rfl
  have hbareBefore : ∀ d ∈ before, d.IsBare separator := by
    intro d hd
    refine hbare d (mem_sortByStart.1 ?_)
    rw [hwithout]
    exact List.mem_append_left _ hd
  rw [mergeCandidates, mergeCandidates, hwith, hwithout]
  cases before with
  | nil => cases hthere
  | cons first before =>
      refine sweep_append_absorbed hbareBefore hle (List.forall_mem_cons.1 hbefore).2 ?_
      rcases List.mem_cons.1 hthere with rfl | hthere
      · exact .inl (absorbs_self c)
      · exact .inr hthere

/-- Nor do several that were all detected before. -/
theorem mergeCandidates_append_again {again : List Candidate}
    (hbare : ∀ d ∈ earlier ++ later, d.IsBare separator) (hagain : again ⊆ earlier) :
    mergeCandidates separator (earlier ++ again ++ later) =
      mergeCandidates separator (earlier ++ later) := by
  induction again with
  | nil => rw [List.append_nil]
  | cons c again ih =>
      obtain ⟨hc, hagain⟩ := List.cons_subset.1 hagain
      have hbare' : ∀ d ∈ earlier ++ (again ++ later), d.IsBare separator := by
        intro d hd
        rcases List.mem_append.1 hd with hd | hd
        · exact hbare d (List.mem_append_left _ hd)
        · rcases List.mem_append.1 hd with hd | hd
          · exact hbare d (List.mem_append_left _ (hagain hd))
          · exact hbare d (List.mem_append_right _ hd)
      rw [List.append_assoc, List.cons_append, mergeCandidates_append_repeated hbare' hc,
        ← List.append_assoc, ih hagain]

theorem mergeCandidates_append_filter (hbare : ∀ d ∈ earlier ++ later, d.IsBare separator)
    (hc : c ∈ earlier) :
    mergeCandidates separator (earlier ++ later.filter fun d => !d == c) =
      mergeCandidates separator (earlier ++ later) := by
  induction later generalizing earlier with
  | nil => rfl
  | cons d later ih =>
      have hlater : ∀ e ∈ earlier ++ later, e.IsBare separator := fun e he =>
        hbare e ((List.mem_append.1 he).elim (List.mem_append_left _)
          fun he => List.mem_append_right _ (List.mem_cons_of_mem d he))
      by_cases hd : d = c
      · subst hd
        rw [List.filter_cons_of_neg (by simp), ih hlater hc, mergeCandidates_append_repeated hlater hc]
      · rw [List.filter_cons_of_pos (by simpa using hd), List.append_cons, List.append_cons _ d later]
        rw [List.append_cons] at hbare
        exact ih hbare (List.mem_append_left _ hc)

/-- Of what is detected several times only the first detection counts. -/
theorem mergeCandidates_append_eraseDups {earlier later : List Candidate}
    (hbare : ∀ d ∈ earlier ++ later, d.IsBare separator) :
    mergeCandidates separator (earlier ++ later.eraseDups) =
      mergeCandidates separator (earlier ++ later) := by
  match later, hbare with
  | [], _ => rfl
  | c :: later, hbare =>
      rw [List.append_cons] at hbare
      have hfilter : ∀ d ∈ earlier ++ [c] ++ later.filter (fun d => !d == c), d.IsBare separator :=
        fun d hd => hbare d ((List.mem_append.1 hd).elim (List.mem_append_left _)
          fun hd => List.mem_append_right _ (List.mem_filter.1 hd).1)
      rw [List.eraseDups_cons, List.append_cons, mergeCandidates_append_eraseDups hfilter,
        mergeCandidates_append_filter hbare (List.mem_append_right _ List.mem_cons_self),
        List.append_cons _ c later]
termination_by later.length
decreasing_by exact Nat.lt_succ_of_le (List.length_filter_le _ _)

/-! ## Reporting again -/

namespace FlowContext

variable {cx : FlowContext} {height : Nat} {s s' : FlowState}

/-- The candidates of a run are bare. -/
theorem Ordered.isBare_of_changes (ht : cx.Ordered height) (h : cx.Changes .start s)
    (separator : Text) : ∀ c ∈ s.candidates, c.IsBare separator := by
  have hstands : s.StandsWithin height := by
    induction h with
    | refl => exact ⟨(fun v hv => nomatch hv), fun c hc => nomatch hc⟩
    | tail _ hc ih => exact ht.change ih hc
  have hfresh : ∀ c ∈ s.candidates, c.content = "" ∧ c.IsJoined separator :=
    Changes.forall_candidates (fun text first last origin disposition =>
      ⟨rfl, isJoined_fresh text first last origin disposition⟩) h fun c hc => nomatch hc
  intro c hc
  obtain ⟨hcontent, hjoined⟩ := hfresh c hc
  exact ⟨(hstands.candidates c hc).start_le_end, hcontent, hjoined⟩

theorem Change.candidates_subset (h : cx.Change s s') : s.candidates ⊆ s'.candidates := by
  cases h with
  | found _ _ => exact List.subset_append_left _ _
  | report _ _ => exact List.subset_append_left _ _
  | finish _ _ => exact List.subset_append_left _ _
  | empty _ _ _ => exact List.subset_append_left _ _
  | _ => exact List.Subset.refl _

theorem Changes.candidates_subset (h : cx.Changes s s') : s.candidates ⊆ s'.candidates := by
  induction h with
  | refl => exact List.Subset.refl _
  | tail _ hc ih => exact List.Subset.trans ih hc.candidates_subset

/-- A run comes to state `s`, in which a variable is what it was when it was reported before, and reports
it again. -/
def ReportsUnchanged (cx : FlowContext) (s s' : FlowState) : Prop :=
  ∃ (name : String) (v w : Variable) (before reported : FlowState),
    cx.Follows .start before ∧ before.arena.get? name = some v ∧
    cx.reportNamed before name = .ok reported ∧ cx.Follows reported s ∧
    s.arena.get? name = some w ∧ w.unmarked = v.unmarked ∧ cx.reportNamed s name = .ok s'

/-- What is found by then was found before. -/
theorem ReportsUnchanged.exists_again (h : cx.ReportsUnchanged s s') :
    cx.Changes .start s ∧ ∃ again, again ⊆ s.candidates ∧ s'.candidates = s.candidates ++ again := by
  obtain ⟨name, v, w, before, reported, hstart, hv, hfirst, hlater, hw, hsame, hagain⟩ := h
  have hreported : cx.Follows .start reported :=
    hstart.trans (reportNamed_moves before name reported hfirst)
  rw [reportNamed, hv] at hfirst
  rw [reportNamed, hw] at hagain
  obtain ⟨found, hfound, rfl⟩ := ok_of_map_eq_ok hfirst
  obtain ⟨again, hreport, rfl⟩ := ok_of_map_eq_ok hagain
  -- the mark is of no account
  have hequal : cx.reportOf w.unmarked = cx.reportOf v.unmarked := congrArg cx.reportOf hsame
  change cx.reportOf w = cx.reportOf v at hequal
  obtain rfl : found = again := Except.ok.inj (hfound.symm.trans (hequal.symm.trans hreport))
  have hkept : before.candidates ++ found ⊆ s.candidates :=
    Changes.candidates_subset (Moves.changes hlater)
  exact ⟨Moves.changes (hreported.trans hlater), found,
    List.Subset.trans (List.subset_append_right _ _) hkept, rfl⟩

end FlowContext

/-- Repeated detection is harmless: a candidate that occurs already adds nothing, and exactly one of the
merged candidates has its lines and statements; of several detections only the first counts, and so it
makes no difference that a variable is reported again as it was reported before, whatever else is found in
between, in other scopes and later. -/
theorem repeatedDetection_harmless (hbare : ∀ d ∈ candidates, d.IsBare separator) :
    (∀ c ∈ candidates, mergeCandidates separator (candidates ++ [c]) =
      mergeCandidates separator candidates) ∧
    (∀ c ∈ candidates, ∃ m,
      (mergeCandidates separator candidates).filter (c.LiesIn ·) = [m] ∧ m.Absorbs c) ∧
    mergeCandidates separator candidates.eraseDups = mergeCandidates separator candidates ∧
    ∀ (cx : FlowContext) (height : Nat) (s s' : FlowState), cx.Ordered height →
      cx.ReportsUnchanged s s' → ∀ others later : List Candidate, others ++ later = candidates →
        mergeCandidates separator (others ++ s'.candidates ++ later) =
          mergeCandidates separator (others ++ s.candidates ++ later) := by
  refine ⟨fun c hc => ?_, fun c hc => ?_, ?_, ?_⟩
  · have hnil : ∀ d ∈ candidates ++ [], d.IsBare separator := by rwa [List.append_nil]
    have hrepeated := mergeCandidates_append_repeated hnil hc
    rwa [List.append_nil] at hrepeated
  · exact exists_absorbing (fun d hd => (hbare d hd).start_le_end) hc
  · have hnil : ∀ d ∈ [] ++ candidates, d.IsBare separator := hbare
    exact mergeCandidates_append_eraseDups hnil
  · rintro cx height s s' ht hreports others later rfl
    obtain ⟨hchanges, again, hsub, hagain⟩ := hreports.exists_again
    have hall : ∀ d ∈ others ++ s.candidates ++ later, d.IsBare separator := by
      intro d hd
      rw [List.append_assoc, List.mem_append, List.mem_append] at hd
      rcases hd with hd | hd | hd
      · exact hbare d (List.mem_append_left _ hd)
      · exact ht.isBare_of_changes hchanges separator d hd
      · exact hbare d (List.mem_append_right _ hd)
    rw [hagain, ← List.append_assoc]
    exact mergeCandidates_append_again hall (List.subset_append_of_subset_right _ hsub)

/-- A variable that is used by two executing calls. -/
def twoSinks : List Token :=
  significant ((tokenize "String sql = \"SELECT 1\";
stmt.executeQuery(sql);
stmt.executeQuery(sql);").toOption.getD [])

/-- It is reported by both, and by both together as by one of them, once. -/
theorem repeatedDetection_harmless_twoSinks :
    let cx := FlowContext.ofTokens .standard RuleSet.standard.classifier standardPlaceholder twoSinks
    let found : Candidate := .fresh (Text.ofString "SELECT 1") 1 1 .literal .assigned
    (∀ d ∈ [found], d.IsBare standardSeparator) ∧
      cx.run.toOption.map (·.candidates) = some [found, found] ∧
      mergeCandidates standardSeparator ([found] ++ [found]) =
        mergeCandidates standardSeparator [found] ∧
      (∃ m, (mergeCandidates standardSeparator [found]).filter (found.LiesIn ·) = [m] ∧ m.Absorbs found) ∧
      cx.Ordered 3 ∧ ∃ s s', cx.ReportsUnchanged s s' ∧
        s.candidates = [found] ∧ s'.candidates = [found, found] ∧
        mergeCandidates standardSeparator ([found] ++ s'.candidates ++ []) =
          mergeCandidates standardSeparator ([found] ++ s.candidates ++ []) := by
  intro cx found
  let sql : Variable := ⟨"sql", .plain, 1, 1, [.literal (Text.ofString "SELECT 1") 1], none⟩
  have hbare : ∀ d ∈ [found], d.IsBare standardSeparator := by
    intro d hd
    rw [List.mem_singleton.1 hd]
    exact ⟨le_rfl, rfl, isJoined_fresh _ _ _ _ _⟩
  have hrun : cx.run.toOption.map (·.candidates) = some [found, found] := by decide +kernel
  have hreports : ((cx.step .start 0).toOption.bind fun p =>
      (cx.reportNamed p.1 "sql").toOption.bind fun s => (cx.reportNamed s "sql").toOption.map fun s' =>
        (p.1.arena.get? "sql", s.arena.get? "sql", s.candidates, s'.candidates)) =
      some (some sql, some sql.markReported, [found], [found, found]) := by
    decide +kernel
  obtain ⟨⟨before, next⟩, hstep, hreports⟩ := Option.bind_eq_some_iff.1 hreports
  obtain ⟨s, hs, hreports⟩ := Option.bind_eq_some_iff.1 hreports
  obtain ⟨s', hs', hreports⟩ := Option.map_eq_some_iff.1 hreports
  simp only [Prod.mk.injEq] at hreports
  obtain ⟨hbefore, hmarked, hfirst, hboth⟩ := hreports
  have hfollows : cx.Follows .start before :=
    FlowContext.step_moves .start 0 (fun _ => trivial) _ (toOption_eq_some.1 hstep)
  have hagain : cx.ReportsUnchanged s s' :=
    ⟨"sql", sql, sql.markReported, before, s, hfollows, hbefore, toOption_eq_some.1 hs, .refl, hmarked,
      rfl, toOption_eq_some.1 hs'⟩
  have hordered : cx.Ordered 3 := ⟨by decide +kernel, by decide +kernel⟩
  obtain ⟨hrepeated, honce, -, hsinks⟩ := repeatedDetection_harmless hbare
  exact ⟨hbare, hrun, hrepeated found List.mem_cons_self, honce found List.mem_cons_self, hordered, s, s', hagain, hfirst, hboth,
    hsinks cx 3 s s' hordered hagain [found] [] rfl⟩

end EmbeddedSql
