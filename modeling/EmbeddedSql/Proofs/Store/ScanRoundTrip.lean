/-
# Which scans the store can keep

A scan without an error is meant to be saved and given back as it was.  The store does so unless it cannot
write a candidate down: a text goes into the database as UTF-8, which has no half of a surrogate pair,
and a line number takes 64 bits (`Candidate.IsStorable`).  The first candidate that is not storable stops
the saving (`scanSource_save_iff`).

| | |
| :-- | :-- |
| all candidates are storable | the result is saved, and given back for its path and content |
| one is not | saving fails with what the store refuses in the first such candidate |
| no literal denotes half of a pair | all candidates are storable, on less than `2 ^ 63` lines |

The other things that the store checks or loses are of no account here: a scan ends no candidate before
it starts, and the statements, which go through JSON, hold nothing that the text does not show.
-/
import EmbeddedSql.Proofs.Scan.Surrogates
import EmbeddedSql.Proofs.Scan.WellFormed
import EmbeddedSql.Proofs.Store.Cached

namespace EmbeddedSql

/-! ## Encodable texts -/

theorem Text.toString?_eq_none {t : Text} {o : Fin 2048} (h : CodePoint.surrogate o ∈ t) :
    t.toString? = none := by
  cases ht : t.toString? with
  | none => rfl
  | some s =>
      rw [← ofString_toString? ht] at h
      exact absurd h (surrogate_not_mem_chars _)

theorem Text.exists_toString? {t : Text} (h : ∀ o, CodePoint.surrogate o ∉ t) :
    ∃ s, t.toString? = some s := by
  have hchars : ∃ cs : List Char, t = cs.map .char := by
    induction t with
    | nil => exact ⟨[], rfl⟩
    | cons p t ih =>
        obtain ⟨cs, rfl⟩ := ih fun o ho => h o (List.mem_cons_of_mem p ho)
        cases p with
        | char c => exact ⟨c :: cs, rfl⟩
        | surrogate o => exact absurd List.mem_cons_self (h o)
  obtain ⟨cs, rfl⟩ := hchars
  exact ⟨String.ofList cs, by rw [toString?, toChars?_map_char, Option.map_some]⟩

namespace Candidate

/-- A candidate that the store can write down: its last line is below `2 ^ 63`. -/
structure IsStorable (c : Candidate) : Prop where
  encodable : ∀ o, CodePoint.surrogate o ∉ c.text
  endLine_lt : c.endLine < 9223372036854775808

/-- What the store refuses in a candidate that it cannot write down. -/
def refusal (c : Candidate) : StoreError :=
  if c.endLine < 9223372036854775808 then .loneSurrogate c.text else .hugeNumber

/-- Where not all candidates are storable, one is the first that is not. -/
theorem exists_first_not_storable {cs : List Candidate} (h : ¬ ∀ c ∈ cs, c.IsStorable) :
    ∃ before c after, cs = before ++ c :: after ∧ (∀ d ∈ before, d.IsStorable) ∧ ¬ c.IsStorable := by
  induction cs with
  | nil => exact absurd (fun c hc => nomatch hc) h
  | cons c cs ih =>
      by_cases hc : c.IsStorable
      · have hrest : ¬ ∀ d ∈ cs, d.IsStorable := fun hcs => h (List.forall_mem_cons.2 ⟨hc, hcs⟩)
        obtain ⟨before, d, after, rfl, hbefore, hd⟩ := ih hrest
        exact ⟨c :: before, d, after, rfl, List.forall_mem_cons.2 ⟨hc, hbefore⟩, hd⟩
      · exact ⟨[], c, cs, rfl, fun d hd => (nomatch hd), hc⟩

end Candidate

namespace Store

variable {s s' : Store} {runId filePath hash : String} {height ordinal : Nat} {c : Candidate}
  {cs : List Candidate}

/-- Of the lines of a scan only the last can be too large. -/
theorem isHuge_iff (hc : c.StandsWithin height) :
    (!isWord64 c.startLine || !isWord64 c.endLine) = true ↔ ¬ c.endLine < 9223372036854775808 := by
  have hone := hc.one_le
  have hle := hc.start_le_end
  simp only [isWord64, Bool.or_eq_true, Bool.not_eq_true', Bool.and_eq_false_iff,
    decide_eq_false_iff_not]
  omega

/-! ## Findings -/

theorem exists_findingOf (ordinal : Nat) (hc : c.StandsWithin height) (h : c.IsStorable) :
    ∃ f, findingOf runId filePath hash ordinal c = .ok f := by
  obtain ⟨text, htext⟩ := Text.exists_toString? h.encodable
  have hnext : ¬ (!isWord64 c.startLine || !isWord64 c.endLine) = true := fun hhuge =>
    (isHuge_iff hc).1 hhuge h.endLine_lt
  rw [findingOf, if_neg hnext, htext]
  exact ⟨_, if_neg (Int.not_lt.2 hc.start_le_end)⟩

theorem findingOf_eq_error (hc : c.StandsWithin height) (h : ¬ c.IsStorable) :
    findingOf runId filePath hash ordinal c = .error c.refusal := by
  rw [findingOf, Candidate.refusal]
  by_cases hend : c.endLine < 9223372036854775808
  · obtain ⟨o, ho⟩ : ∃ o, CodePoint.surrogate o ∈ c.text := by
      by_contra hnone
      exact h ⟨fun o ho => hnone ⟨o, ho⟩, hend⟩
    rw [if_neg fun hhuge => (isHuge_iff hc).1 hhuge hend, Text.toString?_eq_none ho, if_pos hend]
  · rw [if_pos ((isHuge_iff hc).2 hend), if_neg hend]

theorem exists_findingsOf (ordinal : Nat) (hc : ∀ c ∈ cs, c.StandsWithin height)
    (h : ∀ c ∈ cs, c.IsStorable) :
    ∃ fs, findingsOf runId filePath hash ordinal cs = .ok fs := by
  induction cs generalizing ordinal with
  | nil => exact ⟨[], rfl⟩
  | cons c cs ih =>
      rw [List.forall_mem_cons] at hc h
      obtain ⟨f, hf⟩ := exists_findingOf ordinal hc.1 h.1
      obtain ⟨fs, hfs⟩ := ih (ordinal + 1) hc.2 h.2
      refine ⟨f :: fs, ?_⟩
      rw [findingsOf, hf]
      show (findingsOf runId filePath hash (ordinal + 1) cs >>= _) = _
      rw [hfs]
      rfl

/-- The first candidate that cannot be written down decides. -/
theorem findingsOf_eq_error {before after : List Candidate}
    (hc : ∀ d ∈ before ++ c :: after, d.StandsWithin height)
    (hbefore : ∀ d ∈ before, d.IsStorable) (h : ¬ c.IsStorable) :
    findingsOf runId filePath hash ordinal (before ++ c :: after) = .error c.refusal := by
  induction before generalizing ordinal with
  | nil =>
      rw [List.nil_append, findingsOf, findingOf_eq_error (hc c List.mem_cons_self) h]
      rfl
  | cons d before ih =>
      rw [List.cons_append, List.forall_mem_cons] at hc
      rw [List.forall_mem_cons] at hbefore
      obtain ⟨f, hf⟩ := exists_findingOf ordinal hc.1 hbefore.1
      rw [List.cons_append, findingsOf, hf]
      show (findingsOf runId filePath hash (ordinal + 1) (before ++ c :: after) >>= _) = _
      rw [ih hc.2 hbefore.2]
      rfl

/-- Saving under a run that is there fails only where a candidate cannot be written down. -/
theorem save_eq_map {r : ScanResult} (hr : r.contentHash = some hash)
    (hrun : (s.run? runId).isSome) :
    ∃ store, s.save (some runId) r =
      (findingsOf runId r.filePath hash 0 r.candidates).map store := by
  obtain ⟨run, hrun⟩ := Option.isSome_iff_exists.1 hrun
  rw [save.eq_def, hr]
  dsimp only
  rw [hrun]
  exact ⟨_, rfl⟩

end Store

/-! ## Scans -/

variable {settings : Settings} {filePath source : String} {r : ScanResult}

/-- A scan without an error has cut the source into tokens. -/
theorem tokenize_of_scanSource (h : scanSource settings filePath source = .ok r)
    (herror : r.error = none) :
    ∃ tokens, tokenize source = .ok tokens ∧ r.contentHash = some (contentHash source) := by
  rw [scanSource] at h
  cases htokens : tokenize source with
  | error e =>
      rw [htokens] at h
      cases h
      cases herror
  | ok tokens =>
      rw [htokens] at h
      obtain ⟨found, -, h⟩ := ok_of_bind_eq_ok h
      cases h
      exact ⟨tokens, rfl, rfl⟩

theorem standsWithin_of_mem_scanSource {tokens : List Token} (htokens : tokenize source = .ok tokens)
    (h : scanSource settings filePath source = .ok r) :
    ∀ c ∈ r.candidates, c.StandsWithin (sourceLines source).length := by
  obtain ⟨found, hfound, hcandidates⟩ := candidates_of_scanSource htokens h
  have hscopes : ∀ scope ∈ splitScopes (significant tokens),
      OrderedTokens 1 (sourceLines source).length scope := fun scope hs =>
    (tokenize_ordered htokens).sublist
      ((sublist_of_mem_splitScopes hs).trans List.filter_sublist)
  rw [hcandidates]
  intro c hc
  obtain ⟨d, hd, rfl⟩ := List.mem_map.1 hc
  obtain ⟨hone, hle, hend⟩ :=
    standsWithin_of_mem_mergeCandidates (standsWithin_of_mem_scopeCandidates hscopes hfound) d hd
  exact ⟨hone, hle, hend⟩

/-- The result of a scan without an error, saved under a run that is there, is given back as it was if and
only if all of its candidates are storable.  If not, saving fails with what is refused in the first one
that is not.  They are all storable if no literal of the source and no separator brings in half of a
surrogate pair, unless the source has `2 ^ 63` lines. -/
theorem scanSource_save_iff (h : scanSource settings filePath source = .ok r)
    (herror : r.error = none) {s : Store} {runId : String} (hrun : (s.run? runId).isSome) :
    r.contentHash = some (contentHash source) ∧
    ((∃ s', s.save (some runId) r = .ok s' ∧
        s'.cached? r.filePath (contentHash source) = some r) ↔
      ∀ c ∈ r.candidates, c.IsStorable) ∧
    (∀ before c after, r.candidates = before ++ c :: after →
      (∀ d ∈ before, d.IsStorable) → ¬ c.IsStorable →
      s.save (some runId) r = .error c.refusal) ∧
    ((∀ tokens o, tokenize source = .ok tokens → ¬ DenotedIn tokens (.surrogate o)) →
      (∀ o, CodePoint.surrogate o ∉ settings.separator) →
      (sourceLines source).length < 9223372036854775808 → ∀ c ∈ r.candidates, c.IsStorable) := by
  obtain ⟨tokens, htokens, hhash⟩ := tokenize_of_scanSource h herror
  have hlines := standsWithin_of_mem_scanSource htokens h
  obtain ⟨store, hsave⟩ := Store.save_eq_map hhash hrun
  have hrefused : ∀ before c after, r.candidates = before ++ c :: after →
      (∀ d ∈ before, d.IsStorable) → ¬ c.IsStorable →
      s.save (some runId) r = .error c.refusal := by
    intro before c after hcandidates hbefore hc
    rw [hsave, hcandidates, Store.findingsOf_eq_error (hcandidates ▸ hlines) hbefore hc]
    rfl
  refine ⟨hhash, ⟨?_, ?_⟩, hrefused, ?_⟩
  · rintro ⟨s', hsaved, -⟩
    by_contra hnot
    obtain ⟨before, c, after, hcandidates, hbefore, hc⟩ := Candidate.exists_first_not_storable hnot
    rw [hrefused before c after hcandidates hbefore hc] at hsaved
    cases hsaved
  · intro hstorable
    obtain ⟨fs, hfs⟩ := Store.exists_findingsOf 0 hlines hstorable
    have hsaved : s.save (some runId) r = .ok (store fs) := by
      rw [hsave, hfs]
      rfl
    refine ⟨store fs, hsaved, ?_⟩
    rw [Store.cached?_save_self hhash (isJoined_of_mem_scanSource h) hsaved, ScanResult.isOk,
      herror]
    rfl
  · intro hliterals hseparator hheight c hc
    refine ⟨fun o ho => ?_, ?_⟩
    · rcases surrogate_of_mem_scanSource htokens h hc ho with ho | ho
      · exact hliterals tokens o htokens ho
      · exact hseparator o ho
    · have := (hlines c hc).end_le
      omega

/-- A statement that is written with the two halves of a pair. -/
def writtenPair : String := "class A \x7b String s = \"SELECT '\\ud83d\\ude00' FROM t\"; \x7d"

/-- What the statement denotes: the halves stay two. -/
def pairText : Text :=
  Text.ofString "SELECT '" ++ [.surrogate 0x03D, .surrogate 0x600] ++ Text.ofString "' FROM t"

/-- A store in which a run has been started. -/
def startedStore : Store := { Store.empty with runs := [⟨"r1", "src", "", none, .running, 0, 0, 0⟩] }

/-- Such a scan cannot be saved. -/
theorem scanSource_save_writtenPair :
    ∃ r, scanSource .standard "A.java" writtenPair = .ok r ∧ r.error = none ∧
      (startedStore.run? "r1").isSome ∧
      startedStore.save (some "r1") r = .error (.loneSurrogate pairText) := by
  let c : Candidate := .fresh pairText 1 1 .literal .assigned
  have hfound : (tokenize writtenPair).toOption.bind (fun tokens =>
      (scopeCandidates .standard RuleSet.standard.classifier
        (splitScopes (significant tokens))).toOption) = some [c] := by
    decide +kernel
  obtain ⟨tokens, htokens, hscopes⟩ := Option.bind_eq_some_iff.1 hfound
  rw [toOption_eq_some] at htokens hscopes
  have hscan := scanSource_eq_ok htokens hscopes "A.java"
  have hsorted : sortByStart [c] = [c] := sortByStart_of_pairwise (by decide)
  rw [mergeCandidates, hsorted] at hscan
  have hrun : (startedStore.run? "r1").isSome := by decide
  obtain ⟨-, -, hrefused, -⟩ := scanSource_save_iff hscan rfl hrun
  have hpair : ¬ (c.attach (sourceLines writtenPair)).IsStorable := fun h =>
    h.encodable 0x03D (by decide)
  exact ⟨_, hscan, rfl, hrun, hrefused [] _ [] rfl (List.forall_mem_nil _) hpair⟩

end EmbeddedSql
