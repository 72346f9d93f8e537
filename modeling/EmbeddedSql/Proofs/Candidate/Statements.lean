/-
# Statements of merged candidates

A merged candidate shows the statements of its *constituents*, which are the candidates that lie
within its lines.

| | |
| :-- | :-- |
| invents nothing | its statements are some of those of the constituents, each at most as often |
| loses nothing | every statement of a constituent is among them |
| drops repetitions only where lines overlap | otherwise it has all, in the order of the lines |

Its origin and disposition come from the constituent that starts first, the one that was detected
first if there are several of these.

All of it is carried along a run (`GrownFrom`).  A candidate joins it with some of its statements, and
with all of them if it begins after the last line of the run.
-/
import Mathlib.Data.Multiset.Basic
import EmbeddedSql.Proofs.Candidate.Components
import EmbeddedSql.Proofs.Candidate.Joined

namespace EmbeddedSql

namespace Candidate

variable {separator : Text} {statements more : List Text} {overlaps : Bool}
  {m : Candidate} {parts : List Candidate}

/-! ## Adding statements -/

/-- Some of the statements are put after those that there are. -/
theorem exists_addStatements (overlaps : Bool) (statements more : List Text) :
    ∃ kept, kept.Sublist more ∧ addStatements overlaps statements more = statements ++ kept := by
  induction more generalizing statements with
  | nil => exact ⟨[], .slnil, (List.append_nil statements).symm⟩
  | cons s rest ih =>
      rw [addStatements]
      split
      · obtain ⟨kept, hkept, hadd⟩ := ih statements
        exact ⟨kept, hkept.cons s, hadd⟩
      · obtain ⟨kept, hkept, hadd⟩ := ih (statements ++ [s])
        exact ⟨s :: kept, hkept.cons_cons s, hadd.trans (List.append_assoc _ _ _)⟩

theorem subset_addStatements_left : statements ⊆ addStatements overlaps statements more := by
  obtain ⟨kept, -, hadd⟩ := exists_addStatements overlaps statements more
  rw [hadd]
  exact List.subset_append_left _ _

/-- What is left out is there already. -/
theorem subset_addStatements_right : more ⊆ addStatements overlaps statements more := by
  induction more generalizing statements with
  | nil => exact List.nil_subset _
  | cons s rest ih =>
      rw [addStatements]
      split
      · next hrepeated =>
          have hs : s ∈ statements := List.contains_iff_mem.1 (Bool.and_eq_true_iff.1 hrepeated).2
          exact List.cons_subset.2 ⟨subset_addStatements_left hs, ih⟩
      · refine List.cons_subset.2 ⟨subset_addStatements_left ?_, ih⟩
        exact List.mem_append_right _ List.mem_cons_self

/-- Nothing is left out where no lines overlap. -/
theorem addStatements_false : addStatements false statements more = statements ++ more := by
  induction more generalizing statements with
  | nil => exact (List.append_nil statements).symm
  | cons s rest ih =>
      rw [addStatements, Bool.false_and, if_neg Bool.false_ne_true, ih]
      exact List.append_assoc _ _ _

/-- Statements that are all there already are left out where lines overlap. -/
theorem addStatements_true_of_subset (h : more ⊆ statements) :
    addStatements true statements more = statements := by
  induction more with
  | nil => rfl
  | cons s rest ih =>
      obtain ⟨hs, hrest⟩ := List.cons_subset.1 h
      rw [addStatements, Bool.true_and, if_pos (List.contains_iff_mem.2 hs), ih hrest]

/-! ## Runs -/

namespace GrownFrom

theorem statements_sublist (h : GrownFrom separator m parts) :
    m.statements.Sublist (parts.flatMap (·.statements)) := by
  induction h with
  | single c => rw [List.flatMap_singleton]
  | @join m next parts _ _ _ ih =>
      obtain ⟨kept, hkept, hadd⟩ := exists_addStatements (decide (next.startLine ≤ m.endLine))
        m.statements next.statements
      rw [List.flatMap_append, List.flatMap_singleton]
      change (addStatements _ m.statements next.statements).Sublist _
      rw [hadd]
      exact ih.append hkept

theorem statements_subset (h : GrownFrom separator m parts) :
    ∀ p ∈ parts, p.statements ⊆ m.statements := by
  induction h with
  | single c =>
      intro p hp
      rw [List.mem_singleton.1 hp]
      exact List.Subset.refl _
  | @join m next parts _ _ _ ih =>
      intro p hp
      rcases List.mem_append.1 hp with hp | hp
      · exact List.Subset.trans (ih p hp) subset_addStatements_left
      · rw [List.mem_singleton.1 hp]
        exact subset_addStatements_right

/-- A run of candidates that only touch has all their statements, one after the other. -/
theorem statements_eq (h : GrownFrom separator m parts)
    (hapart : parts.Pairwise fun c d => c.endLine < d.startLine) :
    m.statements = parts.flatMap (·.statements) := by
  induction h with
  | single c => rw [List.flatMap_singleton]
  | @join m next parts hrun _ _ ih =>
      obtain ⟨hparts, -, hnext⟩ := List.pairwise_append.1 hapart
      obtain ⟨last, hlast, hend⟩ := hrun.exists_last
      have hafter : m.endLine < next.startLine := hend ▸ hnext last hlast next List.mem_cons_self
      have hno : decide (next.startLine ≤ m.endLine) = false := decide_eq_false hafter.not_ge
      change addStatements (decide (next.startLine ≤ m.endLine)) _ _ = _
      rw [hno, addStatements_false, ih hparts, List.flatMap_append, List.flatMap_singleton]

end GrownFrom

end Candidate

/-! ## The first constituent -/

/-- The first of the sorted candidates that pass a test starts before all that come before it in the
list and no later than those that come after it. -/
theorem exists_split_of_sortByStart {candidates : List Candidate} {test : Candidate → Bool}
    {first : Candidate} {rest : List Candidate}
    (h : (sortByStart candidates).filter test = first :: rest) :
    ∃ earlier later, candidates.filter test = earlier ++ first :: later ∧
      (∀ d ∈ earlier, first.startLine < d.startLine) ∧
      ∀ d ∈ later, first.startLine ≤ d.startLine := by
  induction candidates generalizing rest with
  | nil =>
      rw [sortByStart, List.mergeSort_nil] at h
      cases h
  | cons c candidates ih =>
      obtain ⟨before, after, hcons, hsort, hbefore, hafter⟩ := exists_sortByStart_cons c candidates
      rw [hsort, List.filter_append] at ih
      rw [hcons, List.filter_append, List.filter_cons] at h
      rw [List.filter_cons]
      split at h
      · next hc =>
          rw [if_pos hc]
          cases hfirst : before.filter test with
          | nil =>
              rw [hfirst, List.nil_append] at h
              obtain ⟨rfl, -⟩ := List.cons.inj h
              refine ⟨[], candidates.filter test, rfl, List.forall_mem_nil _, fun d hd => ?_⟩
              obtain ⟨hd, htest⟩ := List.mem_filter.1 hd
              have hmem : d ∈ before ++ after := hsort ▸ List.mem_mergeSort.2 hd
              rcases List.mem_append.1 hmem with hd | hd
              · exact absurd htest (List.filter_eq_nil_iff.1 hfirst d hd)
              · exact hafter d hd
          | cons b more =>
              rw [hfirst, List.cons_append] at h
              obtain ⟨rfl, -⟩ := List.cons.inj h
              have hb : b ∈ before.filter test := hfirst ▸ List.mem_cons_self
              rw [hfirst, List.cons_append] at ih
              obtain ⟨earlier, later, hsplit, hearlier, hlater⟩ := ih rfl
              refine ⟨c :: earlier, later, congrArg (c :: ·) hsplit, ?_, hlater⟩
              exact List.forall_mem_cons.2 ⟨hbefore b (List.mem_filter.1 hb).1, hearlier⟩
      · next hc =>
          rw [if_neg hc]
          exact ih h

namespace Candidate

/-- The candidates that lie within the lines of a merged one. -/
def constituents (candidates : List Candidate) (m : Candidate) : List Candidate :=
  candidates.filter (·.LiesIn m)

/-- `m` shows the statements of the constituents: nothing is invented, nothing is lost, and nothing is
dropped unless lines overlap.  The rest is from the one that starts first, of several that do from the
one that was detected first. -/
structure Combines (constituents : List Candidate) (m : Candidate) : Prop where
  le : (m.statements : Multiset Text) ≤ constituents.flatMap (·.statements)
  subset : ∀ c ∈ constituents, c.statements ⊆ m.statements
  eq_of_touching : constituents.Pairwise (fun c d => ¬ c.Overlaps d) →
    ∃ ordered : List Candidate, ordered.Perm constituents ∧
      ordered.Pairwise (fun c d => c.endLine < d.startLine) ∧
      m.statements = ordered.flatMap (·.statements)
  first : ∃ earlier c later, constituents = earlier ++ c :: later ∧
    (∀ d ∈ earlier, c.startLine < d.startLine) ∧ (∀ d ∈ later, c.startLine ≤ d.startLine) ∧
    m.origin = c.origin ∧ m.disposition = c.disposition

end Candidate

open Candidate

variable {separator : Text} {candidates : List Candidate} {m : Candidate}

theorem combines_of_mem_mergeCandidates (hlines : ∀ c ∈ candidates, c.startLine ≤ c.endLine)
    (hm : m ∈ mergeCandidates separator candidates) :
    Combines (constituents candidates m) m := by
  have hrun := grownFrom_filter hlines hm
  have hperm : ((sortByStart candidates).filter (·.LiesIn m)).Perm (constituents candidates m) :=
    (List.mergeSort_perm _ _).filter _
  constructor
  · refine Multiset.coe_le.2 ?_
    exact hrun.statements_sublist.subperm.trans (hperm.flatMap_right _).subperm
  · intro c hc
    exact hrun.statements_subset c (hperm.mem_iff.2 hc)
  · intro htouching
    have hordered : ((sortByStart candidates).filter (·.LiesIn m)).Pairwise
        fun c d => c.endLine < d.startLine := by
      have hapart := (hperm.pairwise_iff fun h => overlaps_comm.not.1 h).2 htouching
      have horder := (pairwise_sortByStart candidates).filter (fun c => decide (c.LiesIn m))
      refine (hapart.and horder).imp_of_mem fun {c d} _ hd ⟨hno, hbefore⟩ => ?_
      have hle : c.startLine ≤ d.endLine := le_trans hbefore (hlines d (mem_parts.1 hd).1)
      exact lt_of_not_ge fun hover => hno ⟨hle, hover⟩
    exact ⟨_, hperm, hordered, hrun.statements_eq hordered⟩
  · obtain ⟨first, rest, hparts, -, horigin, hdisposition⟩ := hrun.exists_first
    obtain ⟨earlier, later, hsplit, hearlier, hlater⟩ := exists_split_of_sortByStart hparts
    exact ⟨earlier, first, later, hsplit, hearlier, hlater, horigin, hdisposition⟩

/-- Merging neither loses nor invents statements, and the texts show them if they did before. -/
theorem mergeCandidates_statements (separator : Text)
    (hlines : ∀ c ∈ candidates, c.startLine ≤ c.endLine) :
    (∀ m ∈ mergeCandidates separator candidates, Combines (constituents candidates m) m) ∧
      ((∀ c ∈ candidates, c.IsJoined separator) →
        ∀ m ∈ mergeCandidates separator candidates, m.IsJoined separator) :=
  ⟨fun _ hm => combines_of_mem_mergeCandidates hlines hm, isJoined_of_mem_mergeCandidates⟩

/-- Four candidates on three lines, two of which start together, and two that only touch. -/
def crowded : List Candidate :=
  [("SELECT b", 2, 3, .concatenation, .assigned), ("SELECT c", 10, 10, .literal, .detected),
    ("SELECT a", 2, 2, .literal, .detected), ("SELECT a", 4, 4, .literal, .detected),
    ("SELECT a", 3, 3, .literal, .detected), ("SELECT c", 9, 9, .builderAppend, .assigned)].map
    fun (text, first, last, origin, disposition) =>
      .fresh (Text.ofString text) first last origin disposition

/-- What is repeated on overlapping lines is dropped, what is repeated on the line after is not. -/
theorem statements_crowded :
    (∀ c ∈ crowded, c.startLine ≤ c.endLine) ∧ (∀ c ∈ crowded, c.IsJoined standardSeparator) ∧
      (mergeCandidates standardSeparator crowded).map (·.statements) =
        [["SELECT b", "SELECT a", "SELECT a"].map Text.ofString,
          ["SELECT c", "SELECT c"].map Text.ofString] ∧
      (mergeCandidates standardSeparator crowded).map (fun m =>
        decide ((constituents crowded m).Pairwise fun c d => ¬ c.Overlaps d)) = [false, true] ∧
      (∀ m ∈ mergeCandidates standardSeparator crowded, Combines (constituents crowded m) m) ∧
      ∀ m ∈ mergeCandidates standardSeparator crowded, m.IsJoined standardSeparator := by
  have hlines : ∀ c ∈ crowded, c.startLine ≤ c.endLine := by decide
  have hjoined : ∀ c ∈ crowded, c.IsJoined standardSeparator := by
    intro c hc
    obtain ⟨⟨text, first, last, origin, disposition⟩, -, rfl⟩ := List.mem_map.1 hc
    exact isJoined_fresh _ _ _ _ _
  obtain ⟨hcombines, hjoins⟩ := mergeCandidates_statements standardSeparator hlines
  refine ⟨hlines, hjoined, ?_, ?_, hcombines, hjoins hjoined⟩
  · rw [mergeCandidates, sortByStart_eq_insertionSort]
    decide +kernel
  · rw [mergeCandidates, sortByStart_eq_insertionSort]
    decide +kernel

end EmbeddedSql
