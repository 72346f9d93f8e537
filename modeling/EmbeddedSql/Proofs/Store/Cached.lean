/-
# What the store gives back

A result that was saved is given back as it was, until something else is saved for the same path and
content: the candidates are taken apart into findings and put together again, in their order.  The
texts of the statements go through JSON, which keeps them as long as they are made of characters.  The
store checks this of the text of a candidate only; for the statements it follows, because the text of
a joined candidate shows them all.

What is saved for one path and content does not show for another, and runs and events have nothing to
do with results.
-/
import EmbeddedSql.Journal.Basic
import EmbeddedSql.Proofs.Candidate.Joined
import EmbeddedSql.Proofs.Json.ReadingBack

namespace EmbeddedSql

/-! ## Statements -/

theorem strings_arr_str (statements : List Text) :
    (Json.arr (statements.map .str)).strings = statements := by
  show (statements.map Json.str).filterMap _ = statements
  induction statements with
  | nil => rfl
  | cons s rest ih => rw [List.map_cons, List.filterMap_cons, ih]

theorem decodeStatements_encodeStatements {statements : List Text}
    (h : ∀ s ∈ statements, ∃ cs : List Char, s = cs.map .char) :
    decodeStatements (encodeStatements statements) = statements := by
  have hread : (Json.arr (statements.map .str)).ReadsBack := by
    refine Json.readsBack_arr fun v hv => ?_
    obtain ⟨s, hs, rfl⟩ := List.mem_map.1 hv
    obtain ⟨cs, hcs⟩ := h s hs
    exact Json.readsBack_str hcs
  unfold decodeStatements encodeStatements Json.toLine
  rw [String.toList_ofList, Json.read_compact hread]
  exact strings_arr_str statements

/-- A part of a text of characters is made of characters. -/
theorem exists_chars_of_subset {t s : Text} {text : String} (ht : t.toString? = some text)
    (h : s ⊆ t) : ∃ cs : List Char, s = cs.map .char := by
  rw [← Text.ofString_toString? ht] at h
  clear ht
  induction s with
  | nil => exact ⟨[], rfl⟩
  | cons p s ih =>
      obtain ⟨cs, rfl⟩ := ih fun q hq => h (List.mem_cons_of_mem _ hq)
      obtain ⟨c, -, rfl⟩ := List.mem_map.1 (h List.mem_cons_self)
      exact ⟨c :: cs, rfl⟩

/-- A candidate of which every statement is made of characters. -/
def Candidate.IsPlain (c : Candidate) : Prop :=
  ∀ s ∈ c.statements, ∃ cs : List Char, s = cs.map .char

namespace Store

variable {separator : Text} {s s' : Store} {runId filePath contentHash : String}

/-! ## Findings -/

theorem toCandidate_findingOf {ordinal : Nat} {c : Candidate} {f : Finding}
    (h : findingOf runId filePath contentHash ordinal c = .ok f) (hc : c.IsPlain) :
    f.toCandidate = c := by
  unfold findingOf at h
  split at h
  · cases h
  · split at h
    · cases h
    · next text ht =>
        split at h
        · cases h
        · cases h
          have hs : decodeStatements (encodeStatements c.statements) = c.statements :=
            decodeStatements_encodeStatements hc
          unfold Finding.toCandidate Candidate.ofParts
          obtain ⟨text', startLine, endLine, origin, disposition, statements, content, hne⟩ := c
          dsimp only at hs ht ⊢
          congr 1
          · exact Text.ofString_toString? ht
          · rw [hs]
            exact Candidate.statementsOr_of_ne_nil hne

/-- A joined candidate that becomes a finding is plain, because its text is. -/
theorem isPlain_of_findingOf {ordinal : Nat} {c : Candidate} {f : Finding}
    (h : findingOf runId filePath contentHash ordinal c = .ok f) (hc : c.IsJoined separator) :
    c.IsPlain := by
  unfold findingOf at h
  split at h
  · cases h
  · split at h
    · cases h
    · next text ht => exact fun s hs => exists_chars_of_subset ht (hc.statement_subset hs)

theorem isPlain_of_findingsOf {ordinal : Nat} {cs : List Candidate} {fs : List Finding}
    (h : findingsOf runId filePath contentHash ordinal cs = .ok fs)
    (hc : ∀ c ∈ cs, c.IsJoined separator) : ∀ c ∈ cs, c.IsPlain := by
  induction cs generalizing ordinal fs with
  | nil => exact fun c hc => nomatch hc
  | cons c cs ih =>
      rw [List.forall_mem_cons] at hc ⊢
      rw [findingsOf] at h
      obtain ⟨f, hf, h⟩ := ok_of_bind_eq_ok h
      obtain ⟨fs', hfs, -⟩ := ok_of_bind_eq_ok h
      exact ⟨isPlain_of_findingOf hf hc.1, ih hfs hc.2⟩

theorem key_findingOf {ordinal : Nat} {c : Candidate} {f : Finding}
    (h : findingOf runId filePath contentHash ordinal c = .ok f) :
    f.filePath = filePath ∧ f.contentHash = contentHash ∧ f.ordinal = ordinal := by
  unfold findingOf at h
  split at h
  · cases h
  · split at h
    · cases h
    · split at h
      · cases h
      · cases h
        exact ⟨rfl, rfl, rfl⟩

/-- The findings of candidates: under their path and content, in their order, and the candidates
again when they are put together. -/
theorem of_findingsOf {ordinal : Nat} {cs : List Candidate} {fs : List Finding}
    (h : findingsOf runId filePath contentHash ordinal cs = .ok fs) :
    (∀ f ∈ fs, f.filePath = filePath ∧ f.contentHash = contentHash ∧ ordinal ≤ f.ordinal) ∧
      fs.Pairwise (fun f g => Finding.precedes true f g) ∧
      ((∀ c ∈ cs, c.IsPlain) → fs.map Finding.toCandidate = cs) := by
  induction cs generalizing ordinal fs with
  | nil =>
      cases h
      refine ⟨fun f hf => ?_, .nil, fun _ => rfl⟩
      cases hf
  | cons c cs ih =>
      rw [findingsOf] at h
      obtain ⟨f, hf, h⟩ := ok_of_bind_eq_ok h
      obtain ⟨fs', hfs, h⟩ := ok_of_bind_eq_ok h
      cases h
      obtain ⟨hkey, hsorted, hback⟩ := ih hfs
      obtain ⟨hp, hh, ho⟩ := key_findingOf hf
      refine ⟨?_, ?_, ?_⟩
      · intro g hg
        rcases List.mem_cons.1 hg with rfl | hg
        · exact ⟨hp, hh, Nat.le_of_eq ho.symm⟩
        · obtain ⟨hp', hh', ho'⟩ := hkey g hg
          exact ⟨hp', hh', Nat.le_of_succ_le ho'⟩
      · refine .cons (fun g hg => ?_) hsorted
        obtain ⟨hp', -, ho'⟩ := hkey g hg
        have hlt : f.ordinal < g.ordinal := by omega
        simp [Finding.precedes, hp, hp', hlt]
      · intro hc
        rw [List.map_cons, toCandidate_findingOf hf (hc c List.mem_cons_self),
          hback fun d hd => hc d (List.mem_cons_of_mem _ hd)]

/-! ## Saving -/

theorem isOther_self (filePath contentHash : String) :
    isOther filePath contentHash filePath contentHash = false := by
  simp [isOther]

theorem isOther_of_ne {p h : String} (hne : (p, h) ≠ (filePath, contentHash)) :
    isOther filePath contentHash p h = true := by
  unfold isOther
  rw [Bool.not_eq_true']
  refine Bool.eq_false_iff.2 fun heq => hne ?_
  rw [Bool.and_eq_true, beq_iff_eq, beq_iff_eq] at heq
  rw [heq.1, heq.2]

theorem save_eq {r : ScanResult} {hash : String} (hr : r.contentHash = some hash)
    (h : s.save (some runId) r = .ok s') :
    ∃ added, findingsOf runId r.filePath hash 0 r.candidates = .ok added ∧
      s'.files = s.files.filter (fun f => isOther r.filePath hash f.filePath f.contentHash)
        ++ [⟨r.filePath, hash, runId, r.error⟩] ∧
      s'.findings = s.findings.filter (fun f => isOther r.filePath hash f.filePath f.contentHash)
        ++ added := by
  unfold save at h
  rw [hr] at h
  dsimp only at h
  split at h
  · cases h
  · obtain ⟨added, hadded, h⟩ := ok_of_bind_eq_ok h
    cases h
    exact ⟨added, hadded, rfl, rfl⟩

theorem selects_iff {p h : String} {f : Finding} :
    FindingQuery.selects ⟨none, some p, some h⟩ f = true ↔ f.filePath = p ∧ f.contentHash = h := by
  simp [FindingQuery.selects, agrees]

/-- A saved result of plain candidates is given back, unless it has an error. -/
theorem cached?_save_of_isPlain {r : ScanResult} {hash : String} (hr : r.contentHash = some hash)
    (hc : ∀ c ∈ r.candidates, c.IsPlain) (h : s.save (some runId) r = .ok s') :
    s'.cached? r.filePath hash = if r.isOk then some r else none := by
  obtain ⟨added, hadded, hfiles, hfindings⟩ := save_eq hr h
  obtain ⟨hkey, hsorted, hback⟩ := of_findingsOf hadded
  have hfile : s'.scannedFile? r.filePath hash = some ⟨r.filePath, hash, runId, r.error⟩ := by
    unfold scannedFile?
    rw [hfiles, List.find?_append, List.find?_eq_none.2]
    · simp
    · intro f hf hsame
      have hother := (List.mem_filter.1 hf).2
      rw [Bool.and_eq_true, beq_iff_eq, beq_iff_eq] at hsame
      rw [hsame.1, hsame.2, isOther_self] at hother
      cases hother
  have hlist : s'.listFindings ⟨none, some r.filePath, some hash⟩ = added := by
    unfold listFindings
    have hnone : (s.findings.filter fun f =>
        isOther r.filePath hash f.filePath f.contentHash).filter
          (FindingQuery.selects ⟨none, some r.filePath, some hash⟩) = [] := by
      refine List.filter_eq_nil_iff.2 fun f hf hsel => ?_
      have hother := (List.mem_filter.1 hf).2
      obtain ⟨hp, hh⟩ := selects_iff.1 hsel
      rw [hp, hh, isOther_self] at hother
      cases hother
    have hall : added.filter (FindingQuery.selects ⟨none, some r.filePath, some hash⟩) = added := by
      refine List.filter_eq_self.2 fun f hf => ?_
      obtain ⟨hp, hh, -⟩ := hkey f hf
      exact selects_iff.2 ⟨hp, hh⟩
    rw [hfindings, List.filter_append, hnone, hall, List.nil_append]
    exact List.mergeSort_of_pairwise hsorted
  unfold cached?
  rw [hfile]
  obtain ⟨path, candidates, contentHash', error⟩ := r
  cases error with
  | some e => rfl
  | none =>
      dsimp only at hr hlist hback hc ⊢
      rw [hlist, hback hc, hr]
      rfl

/-- So is one of joined candidates. -/
theorem cached?_save_self {r : ScanResult} {hash : String} (hr : r.contentHash = some hash)
    (hc : ∀ c ∈ r.candidates, c.IsJoined separator) (h : s.save (some runId) r = .ok s') :
    s'.cached? r.filePath hash = if r.isOk then some r else none := by
  obtain ⟨added, hadded, -⟩ := save_eq hr h
  exact cached?_save_of_isPlain hr (isPlain_of_findingsOf hadded hc) h

/-- A saved result does not show for another path or another content. -/
theorem cached?_save_of_ne {r : ScanResult} {hash p h : String} (hr : r.contentHash = some hash)
    (hs : s.save (some runId) r = .ok s') (hne : (p, h) ≠ (r.filePath, hash)) :
    s'.cached? p h = s.cached? p h := by
  obtain ⟨added, hadded, hfiles, hfindings⟩ := save_eq hr hs
  obtain ⟨hkey, -⟩ := of_findingsOf hadded
  have hfile : s'.scannedFile? p h = s.scannedFile? p h := by
    unfold scannedFile?
    rw [hfiles, List.find?_append, List.find?_filter]
    have hlast : [(⟨r.filePath, hash, runId, r.error⟩ : ScannedFile)].find?
        (fun f => f.filePath == p && f.contentHash == h) = none := by
      refine List.find?_eq_none.2 fun f hf hsame => hne ?_
      rw [Bool.and_eq_true, beq_iff_eq, beq_iff_eq] at hsame
      rw [List.mem_singleton.1 hf] at hsame
      exact Prod.ext hsame.1.symm hsame.2.symm
    rw [hlast, Option.or_none]
    congr 1
    funext f
    by_cases hsame : f.filePath = p ∧ f.contentHash = h
    · rw [hsame.1, hsame.2, isOther_of_ne hne]
      simp
    · have hfalse : (f.filePath == p && f.contentHash == h) = false := by
        refine Bool.eq_false_iff.2 fun heq => hsame ?_
        rwa [Bool.and_eq_true, beq_iff_eq, beq_iff_eq] at heq
      rw [hfalse]
      simp
  have hlist : s'.listFindings ⟨none, some p, some h⟩ = s.listFindings ⟨none, some p, some h⟩ := by
    unfold listFindings
    have hnone : added.filter (FindingQuery.selects ⟨none, some p, some h⟩) = [] := by
      refine List.filter_eq_nil_iff.2 fun f hf hsel => hne ?_
      obtain ⟨hp, hh, -⟩ := hkey f hf
      obtain ⟨hp', hh'⟩ := selects_iff.1 hsel
      rw [← hp, ← hh, hp', hh']
    have hrest : (s.findings.filter fun f =>
        isOther r.filePath hash f.filePath f.contentHash).filter
          (FindingQuery.selects ⟨none, some p, some h⟩) =
        s.findings.filter (FindingQuery.selects ⟨none, some p, some h⟩) := by
      rw [List.filter_filter]
      refine List.filter_congr fun f _ => ?_
      by_cases hsel : FindingQuery.selects ⟨none, some p, some h⟩ f
      · obtain ⟨hp, hh⟩ := selects_iff.1 hsel
        rw [hp, hh, isOther_of_ne hne, Bool.and_true]
      · rw [Bool.not_eq_true] at hsel
        rw [hsel, Bool.false_and]
    rw [hfindings, List.filter_append, hnone, hrest, List.append_nil]
  unfold cached?
  rw [hfile, hlist]

/-! ## Runs, events and schemas -/

/-- The same files and findings. -/
def SameResults (s s' : Store) : Prop := s'.files = s.files ∧ s'.findings = s.findings

theorem SameResults.cached?_eq (h : SameResults s s') : s'.cached? = s.cached? := by
  funext filePath contentHash
  unfold cached? scannedFile? listFindings
  rw [h.1, h.2]

theorem sameResults_migrate (s : Store) : SameResults s s.migrate.1 := ⟨rfl, rfl⟩

theorem sameResults_createRun {now id : String} {root : Option String} {run : Run}
    (h : s.createRun now id root = .ok (run, s')) : SameResults s s' := by
  unfold createRun at h
  split at h
  · cases h
    exact ⟨rfl, rfl⟩
  · cases h
  · cases h
    exact ⟨rfl, rfl⟩

theorem sameResults_finishRun {now id : String} {status : RunStatus} {run : Run}
    (h : s.finishRun now id status = .ok (run, s')) : SameResults s s' := by
  unfold finishRun at h
  dsimp only at h
  split at h
  · cases h
    exact ⟨rfl, rfl⟩
  · cases h

theorem sameResults_logEvent? {runId eventType : Option String} {data : Json}
    {duration : Option Int} (h : s.logEvent? runId eventType data duration = some s') :
    SameResults s s' := by
  cases eventType with
  | none => cases h
  | some eventType =>
      unfold logEvent? at h
      generalize (if data.isVoid then Json.obj [] else data) = data at h
      dsimp only at h
      split at h
      · cases h
        exact ⟨rfl, rfl⟩
      · cases h

end Store

end EmbeddedSql
