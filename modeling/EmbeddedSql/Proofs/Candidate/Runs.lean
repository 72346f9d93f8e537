/-
# What runs are made of

A sweep joins each candidate to the run before it or starts a new run with it.  So every run has its
*parts*: a stretch of the sorted candidates, each of which touches what the ones before it have become
(`GrownFrom`).  From them the run has

| | |
| :-- | :-- |
| its first line, its origin, its disposition | from the first part |
| its last line | from a part that reaches furthest |
| its lines | the lines of the parts, no more and no less |

Since runs stand apart, the parts of a merged candidate can also be told from outside: they are the
candidates whose lines lie within its lines, in the order of the sweep (`grownFrom_filter`).
-/
import Mathlib.Data.List.Pairwise
import Mathlib.Data.Set.Basic
import Mathlib.Order.MinMax
import EmbeddedSql.Proofs.Candidate.Merging

namespace EmbeddedSql

namespace Candidate

/-- The first and the last line. -/
def lineRange (c : Candidate) : ℤ × ℤ := (c.startLine, c.endLine)

/-- The lines on which a candidate stands. -/
def lines (c : Candidate) : Set ℤ := {line | c.startLine ≤ line ∧ line ≤ c.endLine}

/-- All lines of the first candidate are lines of the second. -/
def LiesIn (c m : Candidate) : Prop := m.startLine ≤ c.startLine ∧ c.endLine ≤ m.endLine

instance : DecidableRel LiesIn := fun c m =>
  inferInstanceAs (Decidable (m.startLine ≤ c.startLine ∧ c.endLine ≤ m.endLine))

/-- A run and its parts.  They have come in the order of their first lines. -/
inductive GrownFrom (separator : Text) : Candidate → List Candidate → Prop
  | single (c : Candidate) : GrownFrom separator c [c]
  | join {m next : Candidate} {parts : List Candidate} : GrownFrom separator m parts →
      (∀ p ∈ parts, p.StartsBefore next) → m.touches next = true →
      GrownFrom separator (m.join separator next) (parts ++ [next])

variable {separator : Text} {c d m n current next : Candidate} {parts rest : List Candidate}

theorem touches_iff : c.touches d = true ↔ d.startLine ≤ c.endLine + 1 := by
  rw [touches, decide_eq_true_iff]

theorem LiesIn.trans (h : c.LiesIn d) (h' : d.LiesIn m) : c.LiesIn m :=
  ⟨h'.1.trans h.1, h.2.trans h'.2⟩

theorem liesIn_join_left (separator : Text) (c d : Candidate) : c.LiesIn (c.join separator d) :=
  ⟨min_le_left _ _, le_max_left _ _⟩

theorem liesIn_join_right (separator : Text) (c d : Candidate) : d.LiesIn (c.join separator d) :=
  ⟨min_le_right _ _, le_max_right _ _⟩

theorem LiesIn.lines_subset (h : c.LiesIn m) : c.lines ⊆ m.lines := fun _ hline =>
  ⟨h.1.trans hline.1, hline.2.trans h.2⟩

/-- What has lines lies in what has all of them. -/
theorem liesIn_of_lines_subset (hc : c.startLine ≤ c.endLine) (h : c.lines ⊆ m.lines) :
    c.LiesIn m :=
  ⟨(h ⟨le_rfl, hc⟩).1, (h ⟨hc, le_rfl⟩).2⟩

/-- No candidate lies in two that stand apart. -/
theorem Apart.not_liesIn (h : m.Apart n) (hc : c.startLine ≤ c.endLine) (hm : c.LiesIn m) :
    ¬ c.LiesIn n := by
  intro hn
  have hgap : m.endLine + 1 < n.startLine := h
  have hend := hm.2
  have hstart := hn.1
  omega

/-! ## Runs -/

namespace GrownFrom

/-- A run keeps what its first part brings. -/
theorem exists_first (h : GrownFrom separator m parts) :
    ∃ first rest, parts = first :: rest ∧ m.startLine = first.startLine ∧
      m.origin = first.origin ∧ m.disposition = first.disposition := by
  induction h with
  | single c => exact ⟨c, [], rfl, rfl, rfl, rfl⟩
  | @join m next parts _ hbefore _ ih =>
      obtain ⟨first, rest, rfl, hstart, horigin, hdisposition⟩ := ih
      have hfirst : m.StartsBefore next := hstart.trans_le (hbefore first List.mem_cons_self)
      exact ⟨first, rest ++ [next], rfl, (startLine_join hfirst).trans hstart, horigin, hdisposition⟩

/-- What starts after all parts starts after the run. -/
theorem startsBefore (h : GrownFrom separator m parts) (hbefore : ∀ p ∈ parts, p.StartsBefore next) :
    m.StartsBefore next := by
  obtain ⟨first, rest, rfl, hstart, -⟩ := h.exists_first
  exact hstart.trans_le (hbefore first List.mem_cons_self)

/-- Some part reaches as far as the run. -/
theorem exists_last (h : GrownFrom separator m parts) : ∃ p ∈ parts, p.endLine = m.endLine := by
  induction h with
  | single c => exact ⟨c, List.mem_cons_self, rfl⟩
  | @join m next parts _ _ _ ih =>
      obtain ⟨p, hp, hend⟩ := ih
      rcases le_total m.endLine next.endLine with hle | hle
      · exact ⟨next, List.mem_append_right _ List.mem_cons_self, (max_eq_right hle).symm⟩
      · exact ⟨p, List.mem_append_left _ hp, hend.trans (max_eq_left hle).symm⟩

theorem liesIn (h : GrownFrom separator m parts) : ∀ p ∈ parts, p.LiesIn m := by
  induction h with
  | single c =>
      intro p hp
      rw [List.mem_singleton.1 hp]
      exact ⟨le_rfl, le_rfl⟩
  | @join m next parts _ _ _ ih =>
      intro p hp
      rcases List.mem_append.1 hp with hp | hp
      · exact (ih p hp).trans (liesIn_join_left separator m next)
      · rw [List.mem_singleton.1 hp]
        exact liesIn_join_right separator m next

theorem start_le_end (h : GrownFrom separator m parts)
    (hparts : ∀ p ∈ parts, p.startLine ≤ p.endLine) : m.startLine ≤ m.endLine := by
  obtain ⟨p, hp, -⟩ := h.exists_last
  obtain ⟨hstart, hend⟩ := h.liesIn p hp
  exact hstart.trans ((hparts p hp).trans hend)

/-- Between a run and what touches it no line is left free, so the run has no lines but those of its
parts. -/
theorem exists_part_of_mem_lines (h : GrownFrom separator m parts) {line : ℤ}
    (hline : line ∈ m.lines) : ∃ p ∈ parts, line ∈ p.lines := by
  induction h with
  | single c => exact ⟨c, List.mem_cons_self, hline⟩
  | @join m next parts hrun hbefore htouch ih =>
      by_cases hm : line ∈ m.lines
      · obtain ⟨p, hp, hpl⟩ := ih hm
        exact ⟨p, List.mem_append_left _ hp, hpl⟩
      · have hstart : m.startLine ≤ line := startLine_join (hrun.startsBefore hbefore) ▸ hline.1
        have hbeyond : m.endLine < line := lt_of_not_ge fun hle => hm ⟨hstart, hle⟩
        have hnext : next.startLine ≤ line := (touches_iff.1 htouch).trans hbeyond
        have hend : line ≤ next.endLine := (le_max_iff.1 hline.2).resolve_left hbeyond.not_ge
        exact ⟨next, List.mem_append_right _ List.mem_cons_self, hnext, hend⟩

end GrownFrom

/-! ## Sweeps -/

/-- A sweep cuts the candidates before it into the parts of its runs. -/
theorem exists_groups_of_sweep (hrun : GrownFrom separator current parts)
    (horder : (parts ++ rest).Pairwise StartsBefore) :
    ∃ groups : List (List Candidate), groups.flatten = parts ++ rest ∧
      List.Forall₂ (GrownFrom separator) (sweep separator current rest) groups := by
  induction rest generalizing current parts with
  | nil => exact ⟨[parts], List.flatten_singleton.trans (List.append_nil parts).symm, .cons hrun .nil⟩
  | cons next rest ih =>
      obtain ⟨-, hrest, hbefore⟩ := List.pairwise_append.1 horder
      rw [sweep]
      split
      · next htouch =>
          have hassoc : parts ++ [next] ++ rest = parts ++ next :: rest :=
            (List.append_cons parts next rest).symm
          rw [← hassoc] at horder ⊢
          exact ih (hrun.join (fun p hp => hbefore p hp next List.mem_cons_self) htouch) horder
      · obtain ⟨groups, hflat, hgroups⟩ := ih (.single next) hrest
        exact ⟨parts :: groups, congrArg (parts ++ ·) hflat, .cons hrun hgroups⟩

theorem exists_groups_of_mergeCandidates (separator : Text) (candidates : List Candidate) :
    ∃ groups : List (List Candidate), groups.flatten = sortByStart candidates ∧
      List.Forall₂ (GrownFrom separator) (mergeCandidates separator candidates) groups := by
  have horder := pairwise_sortByStart candidates
  rw [mergeCandidates]
  split
  · next heq => exact ⟨[], heq.symm, .nil⟩
  · next first rest heq =>
      rw [heq] at horder ⊢
      exact exists_groups_of_sweep (.single first) horder

variable {ms : List Candidate} {groups : List (List Candidate)}

theorem exists_liesIn_of_groups (h : List.Forall₂ (GrownFrom separator) ms groups) :
    ∀ c ∈ groups.flatten, ∃ m ∈ ms, c.LiesIn m := by
  induction h with
  | nil => exact fun c hc => nomatch hc
  | @cons m parts ms groups hrun _ ih =>
      intro c hc
      rw [List.flatten_cons, List.mem_append] at hc
      rcases hc with hc | hc
      · exact ⟨m, List.mem_cons_self, hrun.liesIn c hc⟩
      · obtain ⟨n, hn, hin⟩ := ih c hc
        exact ⟨n, List.mem_cons_of_mem m hn, hin⟩

/-- The parts of runs that stand apart are told by their lines. -/
theorem grownFrom_filter_of_groups (h : List.Forall₂ (GrownFrom separator) ms groups)
    (hapart : ms.Pairwise Apart) (hlines : ∀ c ∈ groups.flatten, c.startLine ≤ c.endLine) :
    ∀ m ∈ ms, GrownFrom separator m (groups.flatten.filter (·.LiesIn m)) := by
  induction h with
  | nil => exact fun m hm => nomatch hm
  | @cons m parts ms groups hrun hruns ih =>
      obtain ⟨hfirst, hrest⟩ := List.pairwise_cons.1 hapart
      rw [List.flatten_cons] at hlines ⊢
      have hle : ∀ c ∈ groups.flatten, c.startLine ≤ c.endLine := fun c hc =>
        hlines c (List.mem_append_right _ hc)
      intro n hn
      rw [List.filter_append]
      rcases List.mem_cons.1 hn with rfl | hn
      · have hown : parts.filter (·.LiesIn n) = parts :=
          List.filter_eq_self.2 fun p hp => decide_eq_true (hrun.liesIn p hp)
        have hothers : groups.flatten.filter (·.LiesIn n) = [] := by
          refine List.filter_eq_nil_iff.2 fun c hc hin => ?_
          obtain ⟨k, hk, hck⟩ := exists_liesIn_of_groups hruns c hc
          exact (hfirst k hk).not_liesIn (hle c hc) (of_decide_eq_true hin) hck
        rw [hown, hothers, List.append_nil]
        exact hrun
      · have hothers : parts.filter (·.LiesIn n) = [] := by
          refine List.filter_eq_nil_iff.2 fun p hp hin => ?_
          have hp' := hlines p (List.mem_append_left _ hp)
          exact (hfirst n hn).not_liesIn hp' (hrun.liesIn p hp) (of_decide_eq_true hin)
        rw [hothers, List.nil_append]
        exact ih hrest hle n hn

end Candidate

/-! ## Merged candidates -/

open Candidate

variable {separator : Text} {candidates : List Candidate} {c m n : Candidate}

theorem mem_sortByStart : c ∈ sortByStart candidates ↔ c ∈ candidates := List.mem_mergeSort

/-- The parts of a merged candidate are the candidates within its lines. -/
theorem grownFrom_filter (hlines : ∀ c ∈ candidates, c.startLine ≤ c.endLine)
    (hm : m ∈ mergeCandidates separator candidates) :
    GrownFrom separator m ((sortByStart candidates).filter (·.LiesIn m)) := by
  obtain ⟨groups, hflat, hgroups⟩ := exists_groups_of_mergeCandidates separator candidates
  rw [← hflat]
  refine grownFrom_filter_of_groups hgroups (apart_mergeCandidates separator candidates) ?_ m hm
  intro c hc
  rw [hflat] at hc
  exact hlines c (mem_sortByStart.1 hc)

theorem mem_parts :
    c ∈ (sortByStart candidates).filter (·.LiesIn m) ↔ c ∈ candidates ∧ c.LiesIn m := by
  rw [List.mem_filter, mem_sortByStart, decide_eq_true_iff]

/-- Every candidate has gone into a merged one. -/
theorem exists_liesIn_mergeCandidates (separator : Text) (hc : c ∈ candidates) :
    ∃ m ∈ mergeCandidates separator candidates, c.LiesIn m := by
  obtain ⟨groups, hflat, hgroups⟩ := exists_groups_of_mergeCandidates separator candidates
  refine exists_liesIn_of_groups hgroups c ?_
  rw [hflat]
  exact mem_sortByStart.2 hc

/-- Of candidates that stand apart only one can contain another. -/
theorem filter_liesIn_of_apart {ms : List Candidate} (h : ms.Pairwise Apart) (hc : c.startLine ≤ c.endLine)
    (hm : m ∈ ms) (hin : c.LiesIn m) : ms.filter (c.LiesIn ·) = [m] := by
  induction ms with
  | nil => cases hm
  | cons n ms ih =>
      obtain ⟨hfirst, hrest⟩ := List.pairwise_cons.1 h
      rcases List.mem_cons.1 hm with rfl | hm
      · have hothers : ms.filter (c.LiesIn ·) = [] := by
          refine List.filter_eq_nil_iff.2 fun k hk hck => ?_
          exact (hfirst k hk).not_liesIn hc hin (of_decide_eq_true hck)
        rw [List.filter_cons, decide_eq_true hin, if_pos rfl, hothers]
      · have hn : ¬ c.LiesIn n := fun hn => (hfirst m hm).not_liesIn hc hn hin
        rw [List.filter_cons, decide_eq_false hn, if_neg Bool.false_ne_true, ih hrest hm]

/-- Of two merged candidates that are not the same one stands before the other. -/
theorem eq_or_apart (hm : m ∈ mergeCandidates separator candidates)
    (hn : n ∈ mergeCandidates separator candidates) : m = n ∨ m.Apart n ∨ n.Apart m := by
  have hsymm : Std.Symm fun m n : Candidate => m = n ∨ m.Apart n ∨ n.Apart m :=
    ⟨fun _ _ h => h.imp Eq.symm Or.symm⟩
  have hapart : (mergeCandidates separator candidates).Pairwise
      fun m n => m = n ∨ m.Apart n ∨ n.Apart m :=
    (apart_mergeCandidates separator candidates).imp fun h => .inr (.inl h)
  exact hapart.forall_of_forall (fun _ _ => .inl rfl) hm hn

end EmbeddedSql
