/-
# Results agree with their source

What a scan reports can be checked against the source alone, whatever the rules and the other settings.
A candidate stands on lines of the source; it has at least one statement, and its text shows all of
them; its content is the lines it stands on and nothing else (`Candidate.Excerpts`).  Between two
candidates at least one line is left free.

The lines come from the tokens, which stand on the lines of the source in order, and no scope mixes up
the order of its tokens.  From there it is carried through runs, merging and the attachment of source
lines.
-/
import EmbeddedSql.Proofs.Candidate.Joined
import EmbeddedSql.Proofs.Flow.Lines

namespace EmbeddedSql

/-- The candidate reports a stretch of these lines. -/
structure Candidate.Excerpts (separator : Text) (lines : List (List Char)) (c : Candidate) : Prop
    extends c.StandsWithin lines.length where
  statements_ne_nil : c.statements ≠ []
  joined : c.IsJoined separator
  content : c.content.toList =
    List.intercalate ['\n'] ((lines.take c.endLine.toNat).drop (c.startLine - 1).toNat)
  height : (splitAtEach '\n' c.content.toList).length = c.endLine - c.startLine + 1

theorem Candidate.excerpts_attach {separator : Text} {lines : List (List Char)} {c : Candidate}
    (hlines : ∀ line ∈ lines, '\n' ∉ line) (hc : c.StandsWithin lines.length)
    (hj : c.IsJoined separator) : (c.attach lines).Excerpts separator lines := by
  obtain ⟨hone, hle, hend⟩ := hc
  refine ⟨⟨hone, hle, hend⟩, c.statements_ne_nil, isJoined_attach hj, ?_, ?_⟩
  · exact String.toList_ofList
  · show ((splitAtEach '\n' (excerpt lines c.startLine c.endLine).toList).length : Int) =
      c.endLine - c.startLine + 1
    rw [splitAtEach_excerpt hlines hone hle hend, List.length_drop, List.length_take]
    omega

variable {settings : Settings}

/-- Every scope keeps the order of the tokens, and so its run keeps to their lines. -/
theorem standsWithin_of_mem_scopeCandidates {classifier : Classifier} {height : Nat}
    {scopes : List (List Token)} (ht : ∀ scope ∈ scopes, OrderedTokens 1 height scope)
    {found : List Candidate} (h : scopeCandidates settings classifier scopes = .ok found) :
    ∀ c ∈ found, c.StandsWithin height := by
  induction scopes generalizing found with
  | nil =>
      cases h
      exact fun c hm => nomatch hm
  | cons scope rest ih =>
      rw [scopeCandidates] at h
      obtain ⟨s, hr, h⟩ := ok_of_bind_eq_ok h
      obtain ⟨others, ho, h⟩ := ok_of_bind_eq_ok h
      cases h
      have hscope : (FlowContext.ofTokens settings.rules classifier settings.template
          scope).Ordered height := ht scope List.mem_cons_self
      intro c hm
      rcases List.mem_append.1 hm with hm | hm
      · exact (hscope.run hr).candidates c hm
      · exact ih (fun scope hs => ht scope (List.mem_cons_of_mem _ hs)) ho c hm

/-- Merged candidates stand on lines of the source. -/
theorem standsWithin_of_mem_tokenCandidates {source : String} {tokens : List Token}
    {merged : List Candidate} (htokens : tokenize source = .ok tokens)
    (h : tokenCandidates settings tokens = .ok merged) :
    ∀ c ∈ merged, c.StandsWithin (sourceLines source).length := by
  obtain ⟨found, hfound, h⟩ := ok_of_bind_eq_ok h
  cases h
  have hscopes : ∀ scope ∈ splitScopes (significant tokens),
      OrderedTokens 1 (sourceLines source).length scope := fun scope hs =>
    (tokenize_ordered htokens).sublist
      ((sublist_of_mem_splitScopes hs).trans List.filter_sublist)
  exact standsWithin_of_mem_mergeCandidates (standsWithin_of_mem_scopeCandidates hscopes hfound)

/-- Every candidate of a scan is an excerpt of the source, and between two of them a line is left
free. -/
theorem scanSource_wellFormed {filePath source : String} {r : ScanResult}
    (h : scanSource settings filePath source = .ok r) :
    (∀ c ∈ r.candidates, c.Excerpts settings.separator (sourceLines source)) ∧
      r.candidates.Pairwise Candidate.Apart := by
  unfold scanSource at h
  dsimp only at h
  split at h
  · cases h
    exact ⟨fun c hm => absurd hm List.not_mem_nil, .nil⟩
  · next tokens htokens =>
      obtain ⟨merged, hmerged, h⟩ := ok_of_bind_eq_ok h
      cases h
      have hstands := standsWithin_of_mem_tokenCandidates htokens hmerged
      obtain ⟨found, hfound, hmerged⟩ := ok_of_bind_eq_ok hmerged
      cases hmerged
      constructor
      · intro c hm
        obtain ⟨d, hd, rfl⟩ := List.mem_map.1 hm
        refine Candidate.excerpts_attach (fun line => newline_not_mem_of_mem_sourceLines)
          (hstands d hd) ?_
        exact Candidate.isJoined_of_mem_mergeCandidates (isJoined_of_mem_scopeCandidates hfound)
          d hd
      · exact List.pairwise_map.2 (apart_mergeCandidates settings.separator found)

/-- Three statements, the last two of which stand on touching lines. -/
def threeCalls : String := "f(\"SELECT 1\");\r\n\nf(\"SELECT 2\");\nf(\"SELECT 3\");"

/-- What is found in the calls before it is merged. -/
def threeFound : List Candidate :=
  [("SELECT 1", 1), ("SELECT 2", 3), ("SELECT 3", 4)].map fun (text, line) =>
    .fresh (Text.ofString text) line line .methodArgument .detected

/-- The two calls that touch become one candidate, and both candidates are excerpts of the source. -/
theorem scanSource_threeCalls :
    ∃ r, scanSource .standard "A.java" threeCalls = .ok r ∧
      r.candidates.map (fun c => (c.startLine, c.endLine)) = [(1, 1), (3, 4)] ∧
      (∀ c ∈ r.candidates, c.Excerpts standardSeparator (sourceLines threeCalls)) ∧
      r.candidates.Pairwise Candidate.Apart := by
  have hfound : (tokenize threeCalls).toOption.bind (fun tokens =>
      (scopeCandidates .standard RuleSet.standard.classifier
        (splitScopes (significant tokens))).toOption) = some threeFound := by
    decide +kernel
  have hsorted : sortByStart threeFound = threeFound := sortByStart_of_pairwise (by decide)
  cases htokens : tokenize threeCalls with
  | error e =>
      rw [htokens] at hfound
      cases hfound
  | ok tokens =>
      rw [htokens, Except.toOption, Option.bind_some] at hfound
      cases hscopes : scopeCandidates .standard RuleSet.standard.classifier
          (splitScopes (significant tokens)) with
      | error e =>
          rw [hscopes] at hfound
          cases hfound
      | ok found =>
          rw [hscopes] at hfound
          obtain rfl := Option.some.inj hfound
          have hr : scanSource .standard "A.java" threeCalls = .ok
              ⟨"A.java", (mergeCandidates standardSeparator threeFound).map
                (.attach (sourceLines threeCalls)), some (contentHash threeCalls), none⟩ := by
            rw [scanSource, htokens]
            show (tokenCandidates .standard tokens >>= _) = _
            rw [tokenCandidates]
            show ((scopeCandidates .standard RuleSet.standard.classifier
              (splitScopes (significant tokens)) >>= _) >>= _) = _
            rw [hscopes]
            rfl
          obtain ⟨hwell, hapart⟩ := scanSource_wellFormed hr
          refine ⟨_, hr, ?_, hwell, hapart⟩
          rw [mergeCandidates, hsorted]
          decide

end EmbeddedSql
