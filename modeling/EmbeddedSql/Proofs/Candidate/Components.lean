/-
# Merged lines are connected components

Two candidates *meet* if they overlap or one begins on the line after the other.  Candidates are
*chained* if one is reached from the other through candidates each of which meets the next, and the
lines of a candidate and of all that it is chained to are its *component*.

Merging gives the components and nothing else, each of them once and in their order
(`AreComponents`): the parts of a run are chained, because every part meets one of the earlier parts
that reach furthest; and no chain leads out of a run, because runs stand apart.

A list of ranges that stand apart, in order, is determined by the lines that it covers.  Merging
neither covers nor uncovers a line, so the merged ranges depend on nothing but the lines that were
covered before: not on the order of the candidates, and not on what has been merged already.
-/
import EmbeddedSql.Proofs.Candidate.Runs

namespace EmbeddedSql

namespace Candidate

/-- The two have a line in common. -/
def Overlaps (c d : Candidate) : Prop := c.startLine ≤ d.endLine ∧ d.startLine ≤ c.endLine

/-- One begins on the line after the last one of the other. -/
def Adjoins (c d : Candidate) : Prop := d.startLine = c.endLine + 1 ∨ c.startLine = d.endLine + 1

def Meets (c d : Candidate) : Prop := c.Overlaps d ∨ c.Adjoins d

/-- Some of the candidates lead from one to the other, each of which meets the next. -/
def Chained (candidates : List Candidate) : Candidate → Candidate → Prop :=
  Relation.ReflTransGen fun c d => c ∈ candidates ∧ d ∈ candidates ∧ c.Meets d

/-- The lines of all candidates that are chained to `c`. -/
def component (candidates : List Candidate) (c : Candidate) : Set ℤ :=
  {line | ∃ d, Chained candidates c d ∧ line ∈ d.lines}

/-- The lines on which any of the candidates stands. -/
def coveredLines (candidates : List Candidate) : Set ℤ := {line | ∃ c ∈ candidates, line ∈ c.lines}

/-- The ranges of `merged` are the connected components of the candidates, in order and with a line left
free between them. -/
structure AreComponents (merged candidates : List Candidate) : Prop where
  ordered : merged.Pairwise fun m n => m.startLine < n.startLine ∧ m.endLine + 1 < n.startLine
  isComponent : ∀ m ∈ merged, ∃ c ∈ candidates, m.lines = component candidates c
  exists_component : ∀ c ∈ candidates, ∃ m ∈ merged, m.lines = component candidates c
  covered : coveredLines merged = coveredLines candidates
  container : ∀ c ∈ candidates, ∃! m, m ∈ merged ∧ c.lines ⊆ m.lines

variable {separator : Text} {candidates parts : List Candidate} {c d m n next p : Candidate}

instance : DecidableRel Overlaps := fun c d =>
  inferInstanceAs (Decidable (c.startLine ≤ d.endLine ∧ d.startLine ≤ c.endLine))

theorem overlaps_comm : c.Overlaps d ↔ d.Overlaps c := and_comm

theorem Meets.symm (h : c.Meets d) : d.Meets c := h.imp And.symm Or.symm

/-- What begins no earlier meets what it touches. -/
theorem meets_of_touch (hd : d.startLine ≤ d.endLine) (hbefore : c.StartsBefore d)
    (htouch : d.startLine ≤ c.endLine + 1) : c.Meets d := by
  rcases Int.le_iff_lt_or_eq.1 htouch with hlt | heq
  · exact .inl ⟨hbefore.trans hd, Int.lt_add_one_iff.1 hlt⟩
  · exact .inr (.inl heq)

/-- Nothing in one of two that stand apart meets anything in the other. -/
theorem Apart.not_meets (h : m.Apart n) (hc : c.startLine ≤ c.endLine) (hd : d.startLine ≤ d.endLine)
    (hcm : c.LiesIn m) (hdn : d.LiesIn n) : ¬ c.Meets d := by
  have hgap : c.endLine + 1 < d.startLine := by
    calc c.endLine + 1 ≤ m.endLine + 1 := Int.add_le_add_right hcm.2 1
      _ < n.startLine := h
      _ ≤ d.startLine := hdn.1
  rintro (⟨-, hle⟩ | heq | heq) <;> omega

theorem Chained.symm (h : Chained candidates c d) : Chained candidates d c := by
  induction h with
  | refl => exact .refl
  | tail _ hstep ih =>
      obtain ⟨hc, hd, hmeets⟩ := hstep
      exact .head ⟨hd, hc, hmeets.symm⟩ ih

namespace GrownFrom

/-- The parts of a run are chained to the first of them. -/
theorem exists_chained (h : GrownFrom separator m parts)
    (hlines : ∀ p ∈ parts, p.startLine ≤ p.endLine) (hsub : parts ⊆ candidates) :
    ∃ first, ∀ p ∈ parts, Chained candidates first p := by
  induction h with
  | single c =>
      refine ⟨c, fun p hp => ?_⟩
      rw [List.mem_singleton.1 hp]
      exact .refl
  | @join m next parts hrun hbefore htouch ih =>
      obtain ⟨hparts, hnext⟩ := List.append_subset.1 hsub
      obtain ⟨first, hfirst⟩ := ih (fun p hp => hlines p (List.mem_append_left _ hp)) hparts
      have hlast := hlines next (List.mem_append_right _ List.mem_cons_self)
      refine ⟨first, fun p hp => ?_⟩
      rcases List.mem_append.1 hp with hp | hp
      · exact hfirst p hp
      · obtain ⟨q, hq, hend⟩ := hrun.exists_last
        have hmeets : q.Meets next :=
          meets_of_touch hlast (hbefore q hq) (hend ▸ touches_iff.1 htouch)
        rw [List.mem_singleton.1 hp]
        exact .tail (hfirst q hq) ⟨hparts hq, hnext List.mem_cons_self, hmeets⟩

/-- So they are chained to each other. -/
theorem chained (h : GrownFrom separator m parts) (hlines : ∀ p ∈ parts, p.startLine ≤ p.endLine)
    (hsub : parts ⊆ candidates) (hc : c ∈ parts) (hd : d ∈ parts) : Chained candidates c d := by
  obtain ⟨first, hfirst⟩ := h.exists_chained hlines hsub
  exact (hfirst c hc).symm.trans (hfirst d hd)

end GrownFrom

/-! ## Ranges that stand apart -/

variable {line : ℤ} {ms ns : List Candidate}

theorem mem_coveredLines_cons :
    line ∈ coveredLines (m :: ms) ↔ line ∈ m.lines ∨ line ∈ coveredLines ms := by
  simp only [coveredLines, Set.mem_ofPred_eq, List.mem_cons, exists_eq_or_imp]

theorem coveredLines_cons_ne_nil (hm : m.startLine ≤ m.endLine) :
    coveredLines (m :: ms) ≠ coveredLines [] := by
  intro heq
  have hstart : m.startLine ∈ coveredLines [] := heq ▸ mem_coveredLines_cons.2 (.inl ⟨le_rfl, hm⟩)
  obtain ⟨c, hc, -⟩ := hstart
  cases hc

/-- What stands apart from the first begins after the line that is left free. -/
theorem lt_of_mem_coveredLines (h : (m :: ms).Pairwise Apart) (hline : line ∈ coveredLines ms) :
    m.endLine + 1 < line := by
  obtain ⟨n, hn, hstart, -⟩ := hline
  exact lt_of_lt_of_le ((List.pairwise_cons.1 h).1 n hn) hstart

theorem mem_coveredLines_tail (h : (m :: ms).Pairwise Apart) :
    line ∈ coveredLines ms ↔ line ∈ coveredLines (m :: ms) ∧ m.endLine < line := by
  rw [mem_coveredLines_cons]
  constructor
  · intro hline
    exact ⟨.inr hline, (Int.lt_succ m.endLine).trans (lt_of_mem_coveredLines h hline)⟩
  · rintro ⟨hline | hline, hlt⟩
    · exact absurd hline.2 hlt.not_ge
    · exact hline

/-- The first range begins on the first line of all. -/
theorem startLine_le (h : (n :: ns).Pairwise Apart) (hn : n.startLine ≤ n.endLine)
    (hline : line ∈ coveredLines (n :: ns)) : n.startLine ≤ line := by
  rcases mem_coveredLines_cons.1 hline with hline | hline
  · exact hline.1
  · have hlt := lt_of_mem_coveredLines h hline
    omega

/-- It ends before the first line that is left free. -/
theorem endLine_le (h : (n :: ns).Pairwise Apart) (hcovered : m.lines ⊆ coveredLines (n :: ns))
    (hstart : m.startLine ≤ n.endLine + 1) : m.endLine ≤ n.endLine := by
  by_contra hlt
  have hfree : n.endLine + 1 ∈ m.lines := ⟨hstart, Int.add_one_le_iff.2 (lt_of_not_ge hlt)⟩
  rcases mem_coveredLines_cons.1 (hcovered hfree) with hline | hline
  · exact absurd hline.2 (Int.lt_succ n.endLine).not_ge
  · exact (lt_of_mem_coveredLines h hline).false

/-- The first ranges agree if the same lines are covered. -/
theorem lineRange_eq (hm : (m :: ms).Pairwise Apart) (hn : (n :: ns).Pairwise Apart)
    (hmle : m.startLine ≤ m.endLine) (hnle : n.startLine ≤ n.endLine)
    (hcovered : coveredLines (m :: ms) = coveredLines (n :: ns)) : m.lineRange = n.lineRange := by
  have hsub : m.lines ⊆ coveredLines (n :: ns) := fun line hline =>
    hcovered ▸ mem_coveredLines_cons.2 (.inl hline)
  have hsup : n.lines ⊆ coveredLines (m :: ms) := fun line hline =>
    hcovered ▸ mem_coveredLines_cons.2 (.inl hline)
  have hstart : m.startLine = n.startLine :=
    le_antisymm (startLine_le hm hmle (hsup ⟨le_rfl, hnle⟩))
      (startLine_le hn hnle (hsub ⟨le_rfl, hmle⟩))
  have hend : m.endLine = n.endLine :=
    le_antisymm (endLine_le hn hsub (by omega)) (endLine_le hm hsup (by omega))
  rw [lineRange, lineRange, hstart, hend]

/-- Ranges that stand apart are determined by the lines that they cover. -/
theorem map_lineRange_eq (hm : ms.Pairwise Apart) (hn : ns.Pairwise Apart)
    (hms : ∀ m ∈ ms, m.startLine ≤ m.endLine) (hns : ∀ n ∈ ns, n.startLine ≤ n.endLine)
    (hcovered : coveredLines ms = coveredLines ns) : ms.map lineRange = ns.map lineRange := by
  induction ms generalizing ns with
  | nil =>
      cases ns with
      | nil => rfl
      | cons n ns =>
          exact absurd hcovered.symm (coveredLines_cons_ne_nil (hns n List.mem_cons_self))
  | cons m ms ih =>
      obtain ⟨hmle, hms⟩ := List.forall_mem_cons.1 hms
      cases ns with
      | nil => exact absurd hcovered (coveredLines_cons_ne_nil hmle)
      | cons n ns =>
          obtain ⟨hnle, hns⟩ := List.forall_mem_cons.1 hns
          have hfirst : m.lineRange = n.lineRange := lineRange_eq hm hn hmle hnle hcovered
          have hend : m.endLine = n.endLine := (Prod.mk.inj hfirst).2
          have hrest : coveredLines ms = coveredLines ns := by
            ext line
            rw [mem_coveredLines_tail hm, mem_coveredLines_tail hn, hcovered, hend]
          rw [List.map_cons, List.map_cons, hfirst,
            ih (List.pairwise_cons.1 hm).2 (List.pairwise_cons.1 hn).2 hms hns hrest]

end Candidate

/-! ## Merged candidates -/

open Candidate

variable {separator : Text} {candidates others : List Candidate} {c d m : Candidate}

section Lines

variable (hlines : ∀ c ∈ candidates, c.startLine ≤ c.endLine)

include hlines

theorem start_le_end_of_mem_mergeCandidates :
    ∀ m ∈ mergeCandidates separator candidates, m.startLine ≤ m.endLine := by
  intro m hm
  exact (grownFrom_filter hlines hm).start_le_end fun p hp => hlines p (mem_parts.1 hp).1

/-- No chain leads out of a run. -/
theorem liesIn_of_chained (hm : m ∈ mergeCandidates separator candidates) (hc : c.LiesIn m)
    (h : Chained candidates c d) : d.LiesIn m := by
  induction h with
  | refl => exact hc
  | @tail d e _ hstep hd =>
      obtain ⟨hdc, hec, hmeets⟩ := hstep
      obtain ⟨n, hn, he⟩ := exists_liesIn_mergeCandidates separator hec
      rcases eq_or_apart hm hn with rfl | hapart | hapart
      · exact he
      · exact absurd hmeets (hapart.not_meets (hlines d hdc) (hlines e hec) hd he)
      · exact absurd hmeets.symm (hapart.not_meets (hlines e hec) (hlines d hdc) he hd)

/-- A run stands on the component of each of its parts. -/
theorem lines_eq_component (hm : m ∈ mergeCandidates separator candidates) (hc : c ∈ candidates)
    (hin : c.LiesIn m) : m.lines = component candidates c := by
  have hrun := grownFrom_filter hlines hm
  have hparts : ∀ p ∈ (sortByStart candidates).filter (·.LiesIn m), p.startLine ≤ p.endLine :=
    fun p hp => hlines p (mem_parts.1 hp).1
  ext line
  constructor
  · intro hline
    obtain ⟨p, hp, hpl⟩ := hrun.exists_part_of_mem_lines hline
    have hchained : Chained candidates c p :=
      hrun.chained hparts (fun q hq => (mem_parts.1 hq).1) (mem_parts.2 ⟨hc, hin⟩) hp
    exact ⟨p, hchained, hpl⟩
  · rintro ⟨d, hchained, hline⟩
    exact (liesIn_of_chained hlines hm hin hchained).lines_subset hline

theorem coveredLines_mergeCandidates (separator : Text) :
    coveredLines (mergeCandidates separator candidates) = coveredLines candidates := by
  ext line
  constructor
  · rintro ⟨m, hm, hline⟩
    obtain ⟨p, hp, hpl⟩ := (grownFrom_filter hlines hm).exists_part_of_mem_lines hline
    exact ⟨p, (mem_parts.1 hp).1, hpl⟩
  · rintro ⟨c, hc, hline⟩
    obtain ⟨m, hm, hin⟩ := exists_liesIn_mergeCandidates separator hc
    exact ⟨m, hm, hin.lines_subset hline⟩

theorem areComponents_mergeCandidates (separator : Text) :
    AreComponents (mergeCandidates separator candidates) candidates where
  ordered := by
    refine (apart_mergeCandidates separator candidates).imp_of_mem fun {m n} hm _ hapart => ?_
    have hle : m.startLine ≤ m.endLine := start_le_end_of_mem_mergeCandidates hlines m hm
    have hgap : m.endLine + 1 < n.startLine := hapart
    exact ⟨by omega, hgap⟩
  isComponent := by
    intro m hm
    obtain ⟨p, hp, -⟩ := (grownFrom_filter hlines hm).exists_last
    obtain ⟨hpc, hin⟩ := mem_parts.1 hp
    exact ⟨p, hpc, lines_eq_component hlines hm hpc hin⟩
  exists_component := by
    intro c hc
    obtain ⟨m, hm, hin⟩ := exists_liesIn_mergeCandidates separator hc
    exact ⟨m, hm, lines_eq_component hlines hm hc hin⟩
  covered := coveredLines_mergeCandidates hlines separator
  container := by
    intro c hc
    obtain ⟨m, hm, hin⟩ := exists_liesIn_mergeCandidates separator hc
    refine ⟨m, ⟨hm, hin.lines_subset⟩, fun n ⟨hn, hsub⟩ => ?_⟩
    have hcn : c.LiesIn n := liesIn_of_lines_subset (hlines c hc) hsub
    rcases eq_or_apart hn hm with heq | hapart | hapart
    · exact heq
    · exact absurd hin (hapart.not_liesIn (hlines c hc) hcn)
    · exact absurd hcn (hapart.not_liesIn (hlines c hc) hin)

/-- The merged ranges depend on the covered lines alone. -/
theorem map_lineRange_mergeCandidates (hothers : ∀ c ∈ others, c.startLine ≤ c.endLine)
    (hcovered : coveredLines others = coveredLines candidates) :
    (mergeCandidates separator others).map lineRange =
      (mergeCandidates separator candidates).map lineRange := by
  refine map_lineRange_eq (apart_mergeCandidates _ _) (apart_mergeCandidates _ _)
    (start_le_end_of_mem_mergeCandidates hothers) (start_le_end_of_mem_mergeCandidates hlines) ?_
  rw [coveredLines_mergeCandidates hothers, coveredLines_mergeCandidates hlines, hcovered]

end Lines

theorem mem_coveredLines_flatMap {batches : List (List Candidate)}
    {merge : List Candidate → List Candidate} {line : ℤ} :
    line ∈ coveredLines (batches.flatMap merge) ↔
      ∃ batch ∈ batches, line ∈ coveredLines (merge batch) := by
  constructor
  · rintro ⟨c, hc, hline⟩
    obtain ⟨batch, hbatch, hc⟩ := List.mem_flatMap.1 hc
    exact ⟨batch, hbatch, c, hc, hline⟩
  · rintro ⟨batch, hbatch, c, hc, hline⟩
    exact ⟨c, List.mem_flatMap.2 ⟨batch, hbatch, hc⟩, hline⟩

/-- The merged ranges are the connected components of the candidates.  They are the same for every order
of the candidates, and when batches of candidates are merged first and then the results. -/
theorem mergeCandidates_components (separator : Text)
    (hlines : ∀ c ∈ candidates, c.startLine ≤ c.endLine) :
    AreComponents (mergeCandidates separator candidates) candidates ∧
      (∀ others : List Candidate, others.Perm candidates →
        (mergeCandidates separator others).map lineRange =
          (mergeCandidates separator candidates).map lineRange) ∧
      ∀ batches : List (List Candidate), (∀ c, c ∈ candidates ↔ ∃ batch ∈ batches, c ∈ batch) →
        (mergeCandidates separator (batches.flatMap (mergeCandidates separator))).map lineRange =
          (mergeCandidates separator candidates).map lineRange := by
  refine ⟨areComponents_mergeCandidates hlines separator, fun others hperm => ?_,
    fun batches hbatches => ?_⟩
  · refine map_lineRange_mergeCandidates hlines (fun c hc => hlines c (hperm.mem_iff.1 hc)) ?_
    simp only [coveredLines, hperm.mem_iff]
  · have hbatch : ∀ batch ∈ batches, ∀ c ∈ batch, c.startLine ≤ c.endLine := fun batch hb c hc =>
      hlines c ((hbatches c).2 ⟨batch, hb, hc⟩)
    refine map_lineRange_mergeCandidates hlines (fun m hm => ?_) ?_
    · obtain ⟨batch, hb, hm⟩ := List.mem_flatMap.1 hm
      exact start_le_end_of_mem_mergeCandidates (hbatch batch hb) m hm
    · ext line
      rw [mem_coveredLines_flatMap]
      constructor
      · rintro ⟨batch, hb, hline⟩
        rw [coveredLines_mergeCandidates (hbatch batch hb)] at hline
        obtain ⟨c, hc, hline⟩ := hline
        exact ⟨c, (hbatches c).2 ⟨batch, hb, hc⟩, hline⟩
      · rintro ⟨c, hc, hline⟩
        obtain ⟨batch, hb, hcb⟩ := (hbatches c).1 hc
        refine ⟨batch, hb, ?_⟩
        rw [coveredLines_mergeCandidates (hbatch batch hb)]
        exact ⟨c, hcb, hline⟩

/-- Candidates out of order: three that touch, one within another, and one that stands apart. -/
def scattered : List Candidate :=
  [(7, 8), (1, 2), (12, 12), (3, 6), (4, 4)].map fun (first, last) =>
    .fresh (Text.ofString "SELECT 1") first last .literal .detected

/-- They have two components, in whatever order and whatever batches they are merged. -/
theorem components_scattered :
    (∀ c ∈ scattered, c.startLine ≤ c.endLine) ∧
      AreComponents (mergeCandidates standardSeparator scattered) scattered ∧
      (mergeCandidates standardSeparator scattered.reverse).map lineRange = [(1, 8), (12, 12)] ∧
      (mergeCandidates standardSeparator ([scattered.drop 2, scattered.take 3].flatMap
        (mergeCandidates standardSeparator))).map lineRange = [(1, 8), (12, 12)] := by
  have hlines : ∀ c ∈ scattered, c.startLine ≤ c.endLine := by decide
  have hmerged : (mergeCandidates standardSeparator scattered).map lineRange = [(1, 8), (12, 12)] := by
    rw [mergeCandidates, sortByStart_eq_insertionSort]
    rfl
  have hinto : ∀ c ∈ scattered, ∃ batch ∈ [scattered.drop 2, scattered.take 3], c ∈ batch := by
    decide
  have hfrom : ∀ batch ∈ [scattered.drop 2, scattered.take 3], ∀ c ∈ batch, c ∈ scattered := by decide
  have hsame : ∀ c, c ∈ scattered ↔ ∃ batch ∈ [scattered.drop 2, scattered.take 3], c ∈ batch := by
    intro c
    refine ⟨hinto c, ?_⟩
    rintro ⟨batch, hb, hc⟩
    exact hfrom batch hb c hc
  obtain ⟨hcomponents, horder, hbatch⟩ := mergeCandidates_components standardSeparator hlines
  exact ⟨hlines, hcomponents, (horder _ scattered.reverse_perm).trans hmerged,
    (hbatch _ hsame).trans hmerged⟩

end EmbeddedSql
