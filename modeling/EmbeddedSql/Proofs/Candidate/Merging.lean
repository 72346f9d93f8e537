/-
# Merged candidates stand apart

Merging takes candidates that stand on lines of a source, in any order, and gives candidates that do so
as well and between any two of which at least one line is left free (`Candidate.Apart`).  The sweep
works because it meets the candidates in the order of their first lines: the first line of a run never
changes, and what does not touch a run begins more than one line after its end, as does everything
later.
-/
import Mathlib.Data.List.Sort
import EmbeddedSql.Candidate.Merge

namespace EmbeddedSql

namespace Candidate

/-- The candidate stands on some of the first `height` lines. -/
structure StandsWithin (height : Nat) (c : Candidate) : Prop where
  one_le : 1 ≤ c.startLine
  start_le_end : c.startLine ≤ c.endLine
  end_le : c.endLine ≤ height

/-- A line is left free between two candidates, the first of which stands before the second. -/
def Apart (c d : Candidate) : Prop := c.endLine + 1 < d.startLine

/-- The order of the sweep. -/
def StartsBefore (c d : Candidate) : Prop := c.startLine ≤ d.startLine

instance : DecidableRel StartsBefore := fun c d =>
  inferInstanceAs (Decidable (c.startLine ≤ d.startLine))

variable {separator : Text} {height : Nat} {current next : Candidate} {rest : List Candidate}

theorem StandsWithin.join (hc : current.StandsWithin height) (hn : next.StandsWithin height) :
    (current.join separator next).StandsWithin height := by
  refine ⟨le_min hc.one_le hn.one_le, ?_, max_le hc.end_le hn.end_le⟩
  calc min current.startLine next.startLine
      ≤ current.startLine := min_le_left _ _
    _ ≤ current.endLine := hc.start_le_end
    _ ≤ max current.endLine next.endLine := le_max_left _ _

/-- A run keeps its first line. -/
theorem startLine_join (h : current.StartsBefore next) :
    (current.join separator next).startLine = current.startLine :=
  min_eq_left h

/-- A run still begins before everything later after the next candidate has joined it. -/
theorem pairwise_join (h : (current :: next :: rest).Pairwise StartsBefore) :
    (current.join separator next :: rest).Pairwise StartsBefore := by
  obtain ⟨hc, htail⟩ := List.pairwise_cons.1 h
  refine List.pairwise_cons.2 ⟨fun d hd => ?_, (List.pairwise_cons.1 htail).2⟩
  show (current.join separator next).startLine ≤ d.startLine
  rw [startLine_join (hc next List.mem_cons_self)]
  exact hc d (List.mem_cons_of_mem next hd)

theorem standsWithin_of_mem_sweep (h : ∀ c ∈ current :: rest, c.StandsWithin height) :
    ∀ c ∈ sweep separator current rest, c.StandsWithin height := by
  induction rest generalizing current with
  | nil => exact h
  | cons next rest ih =>
      have hc : current.StandsWithin height := h current List.mem_cons_self
      have htail : ∀ c ∈ next :: rest, c.StandsWithin height :=
        fun c hm => h c (List.mem_cons_of_mem current hm)
      have hn : next.StandsWithin height := htail next List.mem_cons_self
      unfold sweep
      split
      · refine ih fun c hm => ?_
        rcases List.mem_cons.1 hm with rfl | hm
        · exact hc.join hn
        · exact htail c (List.mem_cons_of_mem next hm)
      · intro c hm
        rcases List.mem_cons.1 hm with rfl | hm
        · exact hc
        · exact ih htail c hm

/-- Nothing in the sweep begins before the first run. -/
theorem startsBefore_of_mem_sweep (h : (current :: rest).Pairwise StartsBefore) :
    ∀ c ∈ sweep separator current rest, current.StartsBefore c := by
  induction rest generalizing current with
  | nil =>
      intro c hm
      rw [List.mem_singleton.1 hm]
      exact le_refl current.startLine
  | cons next rest ih =>
      obtain ⟨hc, htail⟩ := List.pairwise_cons.1 h
      have hn : current.StartsBefore next := hc next List.mem_cons_self
      unfold sweep
      split
      · intro c hm
        have hcm : (current.join separator next).startLine ≤ c.startLine :=
          ih (pairwise_join h) c hm
        rw [startLine_join hn] at hcm
        exact hcm
      · intro c hm
        rcases List.mem_cons.1 hm with rfl | hm
        · exact le_refl c.startLine
        · exact le_trans hn (ih htail c hm)

/-- The runs of a sweep stand apart. -/
theorem apart_of_sweep (h : (current :: rest).Pairwise StartsBefore) :
    (sweep separator current rest).Pairwise Apart := by
  induction rest generalizing current with
  | nil => exact List.pairwise_singleton Apart current
  | cons next rest ih =>
      have htail := (List.pairwise_cons.1 h).2
      unfold sweep
      split
      · exact ih (pairwise_join h)
      · next htouch =>
          have hgap : current.endLine + 1 < next.startLine := by
            unfold touches at htouch
            exact lt_of_not_ge fun hle => htouch (decide_eq_true hle)
          refine List.pairwise_cons.2 ⟨fun d hd => ?_, ih htail⟩
          exact lt_of_lt_of_le hgap (startsBefore_of_mem_sweep htail d hd)

end Candidate

variable {separator : Text} {height : Nat} {candidates : List Candidate}

/-! ## The order of the sweep -/

theorem sortByStart_trans (a b c : Candidate) (hab : decide (a.startLine ≤ b.startLine) = true)
    (hbc : decide (b.startLine ≤ c.startLine) = true) : decide (a.startLine ≤ c.startLine) = true :=
  decide_eq_true (le_trans (of_decide_eq_true hab) (of_decide_eq_true hbc))

theorem sortByStart_total (a b : Candidate) :
    (decide (a.startLine ≤ b.startLine) || decide (b.startLine ≤ a.startLine)) = true := by
  rw [Bool.or_eq_true, decide_eq_true_eq, decide_eq_true_eq]
  exact le_total a.startLine b.startLine

theorem pairwise_sortByStart (candidates : List Candidate) :
    (sortByStart candidates).Pairwise Candidate.StartsBefore :=
  (List.pairwise_mergeSort sortByStart_trans sortByStart_total candidates).imp of_decide_eq_true

/-- Candidates that are found in the order of their first lines stay in it. -/
theorem sortByStart_of_pairwise (h : candidates.Pairwise Candidate.StartsBefore) :
    sortByStart candidates = candidates :=
  List.mergeSort_of_pairwise (h.imp fun hab => decide_eq_true hab)

/-- A candidate that is found first goes before all that start where it does. -/
theorem exists_sortByStart_cons (c : Candidate) (candidates : List Candidate) :
    ∃ before after, sortByStart (c :: candidates) = before ++ c :: after ∧
      sortByStart candidates = before ++ after ∧
      (∀ d ∈ before, d.startLine < c.startLine) ∧ ∀ d ∈ after, c.StartsBefore d := by
  obtain ⟨before, after, hcons, hsort, hbefore⟩ :=
    List.mergeSort_cons sortByStart_trans sortByStart_total c candidates
  refine ⟨before, after, hcons, hsort, fun d hd => ?_, ?_⟩
  · have hnot := hbefore d hd
    rw [Bool.not_eq_true', decide_eq_false_iff_not] at hnot
    exact lt_of_not_ge hnot
  · have horder := pairwise_sortByStart (c :: candidates)
    rw [sortByStart, hcons] at horder
    exact (List.pairwise_cons.1 (List.pairwise_append.1 horder).2.1).1

/-- So sorting inserts one candidate after the other, from the last to the first. -/
theorem sortByStart_cons (c : Candidate) (candidates : List Candidate) :
    sortByStart (c :: candidates) =
      (sortByStart candidates).orderedInsert Candidate.StartsBefore c := by
  obtain ⟨before, after, hcons, hsort, hbefore, hafter⟩ := exists_sortByStart_cons c candidates
  rw [hcons, hsort]
  clear hcons hsort
  induction before with
  | nil =>
      cases after with
      | nil => rfl
      | cons d after =>
          exact (List.orderedInsert_cons_of_le _ _ (hafter d List.mem_cons_self)).symm
  | cons b before ih =>
      obtain ⟨hb, hbefore⟩ := List.forall_mem_cons.1 hbefore
      have hnot : ¬ c.StartsBefore b := hb.not_ge
      rw [List.cons_append, List.cons_append, List.orderedInsert_of_not_le _ _ hnot, ih hbefore]

theorem sortByStart_eq_insertionSort (candidates : List Candidate) :
    sortByStart candidates = candidates.insertionSort Candidate.StartsBefore := by
  induction candidates with
  | nil => exact List.mergeSort_nil
  | cons c candidates ih => rw [sortByStart_cons, ih, List.insertionSort_cons]

/-! ## Merged candidates -/

theorem standsWithin_of_mem_mergeCandidates (h : ∀ c ∈ candidates, c.StandsWithin height) :
    ∀ c ∈ mergeCandidates separator candidates, c.StandsWithin height := by
  have hsorted : ∀ c ∈ sortByStart candidates, c.StandsWithin height :=
    fun c hm => h c (List.mem_mergeSort.1 hm)
  unfold mergeCandidates
  split
  · exact fun c hm => nomatch hm
  · next first rest heq =>
      rw [heq] at hsorted
      exact Candidate.standsWithin_of_mem_sweep hsorted

/-- Merged candidates stand apart, wherever they stood before. -/
theorem apart_mergeCandidates (separator : Text) (candidates : List Candidate) :
    (mergeCandidates separator candidates).Pairwise Candidate.Apart := by
  have hsorted := pairwise_sortByStart candidates
  unfold mergeCandidates
  split
  · exact .nil
  · next first rest heq =>
      rw [heq] at hsorted
      exact Candidate.apart_of_sweep hsorted

end EmbeddedSql
