/-
# The text of a candidate shows its statements

A candidate is joined if its text is its statements with the separator between them.  A fresh candidate
is joined, because its text is its only statement; joining two candidates writes the text anew; and
attaching source lines leaves both alone.  So every candidate of a scan is joined, and no statement
holds a code point that the text does not show.
-/
import EmbeddedSql.Proofs.Fallible
import EmbeddedSql.Proofs.Flow.Moves
import EmbeddedSql.Scan.Source

namespace EmbeddedSql

namespace Candidate

/-- The text is made of the statements. -/
def IsJoined (separator : Text) (c : Candidate) : Prop :=
  c.text = List.intercalate separator c.statements

variable {separator : Text}

theorem isJoined_fresh (text : Text) (startLine endLine : Int) (origin : Origin)
    (disposition : Disposition) :
    (fresh text startLine endLine origin disposition).IsJoined separator := by
  show text = List.intercalate separator [text]
  simp

theorem isJoined_join (current next : Candidate) :
    (current.join separator next).IsJoined separator := rfl

theorem isJoined_attach {lines : List (List Char)} {c : Candidate} (h : c.IsJoined separator) :
    (c.attach lines).IsJoined separator := h

/-- Every code point of a statement is one of the text. -/
theorem IsJoined.statement_subset {c : Candidate} (h : c.IsJoined separator) {statement : Text}
    (hs : statement ∈ c.statements) : statement ⊆ c.text := by
  intro p hp
  rw [h]
  refine List.mem_flatten.2 ?_
  refine ⟨statement, ?_, hp⟩
  generalize c.statements = statements at hs
  induction statements with
  | nil => cases hs
  | cons first rest ih =>
      cases rest with
      | nil => exact hs
      | cons second rest =>
          rw [List.intersperse_cons_cons]
          rcases List.mem_cons.1 hs with rfl | hs
          · exact List.mem_cons_self
          · exact List.mem_cons_of_mem _ (List.mem_cons_of_mem _ (ih hs))

/-! ## Merging -/

theorem isJoined_of_mem_sweep {current : Candidate} {rest : List Candidate}
    (hc : current.IsJoined separator) (hr : ∀ c ∈ rest, c.IsJoined separator) :
    ∀ c ∈ sweep separator current rest, c.IsJoined separator := by
  induction rest generalizing current with
  | nil =>
      intro c hm
      rw [List.mem_singleton.1 hm]
      exact hc
  | cons next rest ih =>
      have hrest : ∀ c ∈ rest, c.IsJoined separator := fun c hm => hr c (List.mem_cons_of_mem _ hm)
      unfold sweep
      split
      · exact ih (isJoined_join current next) hrest
      · intro c hm
        rcases List.mem_cons.1 hm with rfl | hm
        · exact hc
        · exact ih (hr next List.mem_cons_self) hrest c hm

theorem isJoined_of_mem_mergeCandidates {candidates : List Candidate}
    (h : ∀ c ∈ candidates, c.IsJoined separator) :
    ∀ c ∈ mergeCandidates separator candidates, c.IsJoined separator := by
  have hsort : ∀ c ∈ sortByStart candidates, c.IsJoined separator := fun c hm =>
    h c (List.mem_mergeSort.1 hm)
  unfold mergeCandidates
  split
  · intro c hm
    cases hm
  · next first rest heq =>
      rw [heq] at hsort
      exact isJoined_of_mem_sweep (hsort first List.mem_cons_self) fun c hm =>
        hsort c (List.mem_cons_of_mem _ hm)

end Candidate

/-! ## Runs -/

namespace FlowContext

variable {cx : FlowContext} {s s' : FlowState} {found : List Candidate} {P : Candidate → Prop}

section Fresh

variable (hfresh : ∀ text startLine endLine origin disposition,
  P (.fresh text startLine endLine origin disposition))

include hfresh

theorem forall_mem_reportOf {v : Variable} (h : cx.reportOf v = .ok found) : ∀ c ∈ found, P c := by
  intro c hc
  obtain ⟨text, -, rfl⟩ := exists_of_mem_reportOf h c hc
  exact hfresh _ _ _ _ _

theorem forall_mem_lastReport {v : Variable} (h : cx.lastReport v = .ok found) :
    ∀ c ∈ found, P c := by
  intro c hc
  obtain ⟨text, -, rfl⟩ := exists_of_mem_lastReport h c hc
  exact hfresh _ _ _ _ _

theorem forall_mem_looseCandidates {start i stop : Nat} {fragments : List Fragment}
    (h : cx.looseCandidates start i stop fragments = .ok found) : ∀ c ∈ found, P c := by
  intro c hc
  obtain ⟨text, first, last, -, -, -, rfl⟩ := exists_of_mem_looseCandidates h c hc
  exact hfresh _ _ _ _ _

/-- What is true of every fresh candidate stays true of all candidates. -/
theorem Change.forall_candidates (hc : cx.Change s s') (h : ∀ c ∈ s.candidates, P c) :
    ∀ c ∈ s'.candidates, P c := by
  have happend : ∀ found : List Candidate, (∀ c ∈ found, P c) →
      ∀ c ∈ s.candidates ++ found, P c := fun found hf c hm =>
    (List.mem_append.1 hm).elim (h c) (hf c)
  cases hc with
  | commit _ => exact h
  | found _ hf => exact happend _ (forall_mem_looseCandidates hfresh hf)
  | begin _ _ _ _ _ => exact h
  | grow _ _ _ => exact h
  | report _ hf => exact happend _ (forall_mem_reportOf hfresh hf)
  | finish _ hf => exact happend _ (forall_mem_lastReport hfresh hf)
  | empty _ hf _ => exact happend _ (forall_mem_lastReport hfresh hf)
  | declare _ => exact h

theorem Changes.forall_candidates (hc : cx.Changes s s') (h : ∀ c ∈ s.candidates, P c) :
    ∀ c ∈ s'.candidates, P c := by
  induction hc with
  | refl => exact h
  | tail _ hc ih => exact hc.forall_candidates hfresh ih

end Fresh

theorem isJoined_of_mem_run {separator : Text} (h : cx.run = .ok s) :
    ∀ c ∈ s.candidates, c.IsJoined separator := by
  have hchanges : cx.Changes .start s := (run_moves (fun _ => trivial)).leads s h
  exact hchanges.forall_candidates Candidate.isJoined_fresh fun c hm => nomatch hm

end FlowContext

/-! ## Scans -/

theorem isJoined_of_mem_scopeCandidates {settings : Settings} {classifier : Classifier}
    {separator : Text} {scopes : List (List Token)} {found : List Candidate}
    (h : scopeCandidates settings classifier scopes = .ok found) :
    ∀ c ∈ found, c.IsJoined separator := by
  induction scopes generalizing found with
  | nil =>
      cases h
      intro c hm
      cases hm
  | cons scope rest ih =>
      rw [scopeCandidates] at h
      obtain ⟨s, hr, h⟩ := ok_of_bind_eq_ok h
      obtain ⟨others, ho, h⟩ := ok_of_bind_eq_ok h
      cases h
      intro c hm
      exact (List.mem_append.1 hm).elim (FlowContext.isJoined_of_mem_run hr c) (ih ho c)

/-- The candidates of a scan are joined. -/
theorem isJoined_of_mem_scanSource {settings : Settings} {filePath source : String}
    {r : ScanResult} (h : scanSource settings filePath source = .ok r) :
    ∀ c ∈ r.candidates, c.IsJoined settings.separator := by
  unfold scanSource at h
  dsimp only at h
  split at h
  · cases h
    intro c hm
    cases hm
  · obtain ⟨merged, hmerged, h⟩ := ok_of_bind_eq_ok h
    obtain ⟨found, hf, hmerged⟩ := ok_of_bind_eq_ok hmerged
    cases hmerged
    cases h
    intro c hm
    obtain ⟨d, hd, rfl⟩ := List.mem_map.1 hm
    refine Candidate.isJoined_attach ?_
    exact Candidate.isJoined_of_mem_mergeCandidates (isJoined_of_mem_scopeCandidates hf) d hd

end EmbeddedSql
