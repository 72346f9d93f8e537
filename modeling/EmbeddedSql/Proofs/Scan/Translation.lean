/-
# A source further down

Newlines in front of a source move everything in it down by as many lines and change nothing else.

| the source | with `n` newlines in front |
| :-- | :-- |
| has an unclosed construct on a line | has it `n` lines further down (`tokensFrom_add`) |
| is cut into tokens | is cut into the same, `n` lines further down |
| is stopped by a literal or a template | is stopped by the same |
| has candidates | has the same `n` lines further down, with the same excerpts (`attach_down`) |

The newlines are no token of their own where blanks follow them, so what is compared is `significantFrom`.
-/
import EmbeddedSql.Proofs.Flow.Translation
import EmbeddedSql.Proofs.Scan.Comments
import EmbeddedSql.Proofs.Scan.WellFormed

namespace EmbeddedSql

/-- Newlines in front of a source. -/
def newlines (n : Nat) : String := String.ofList (List.replicate n '\n')

/-- The unclosed construct further down by some lines. -/
def LexError.down (n : Nat) (e : LexError) : LexError := { e with line := e.line + n }

variable {n : Nat}

/-! ## Cutting -/

namespace Lexer

variable {line last : Nat} {cs left : List Char} {tokens : List Token}

/-- A text that stands further down is cut further down. -/
theorem Cuts.lower (h : Cuts line cs tokens last left) (n : Nat) :
    Cuts (line + n) cs (tokens.map (Token.down n)) (last + n) left := by
  induction h with
  | done => exact .done
  | @token line last k c rest left kind tokens hl _ ih =>
      rw [List.map_cons, ← tokenAt_add]
      refine .token hl ?_
      rw [tokenAt_add]
      exact ih

theorem tokensFrom_add (line n : Nat) (cs : List Char) :
    tokensFrom (line + n) cs =
      ((tokensFrom line cs).map (List.map (Token.down n))).mapError (LexError.down n) := by
  cases h : tokensFrom line cs with
  | ok tokens =>
      obtain ⟨last, hcuts⟩ := tokensFrom_eq_ok_iff.1 h
      exact tokensFrom_eq_ok_iff.2 ⟨last + n, hcuts.lower n⟩
  | error e =>
      obtain ⟨tokens, c, rest, hcuts, hl⟩ := tokensFrom_eq_error_iff.1 h
      exact tokensFrom_eq_error_iff.2 ⟨_, c, rest, hcuts.lower n, hl⟩

/-- The significant tokens of a source with newlines in front. -/
theorem significantFrom_newlines (source : String) (n : Nat) :
    significantFrom 1 (newlines n ++ source).toList =
      ((significantFrom 1 source.toList).map (List.map (Token.down n))).mapError
        (LexError.down n) := by
  have hblank : ∀ b ∈ List.replicate n '\n', isBlank b = true := fun b hb => by
    rw [List.eq_of_mem_replicate hb]
    rfl
  rw [String.toList_append, newlines, String.toList_ofList, significantFrom_blanks hblank,
    List.count_replicate_self, significantFrom, significantFrom, tokensFrom_add]
  cases tokensFrom 1 source.toList with
  | error e => rfl
  | ok tokens => exact congrArg Except.ok ((Token.retouching_down n).significant tokens)

end Lexer

/-! ## Lines -/

theorem sourceLines_newlines (source : String) (n : Nat) :
    sourceLines (newlines n ++ source) = List.replicate n [] ++ sourceLines source := by
  rw [sourceLines, sourceLines, newlines, String.toList_append, String.toList_ofList]
  induction n with
  | zero => rfl
  | succ n ih =>
      rw [List.replicate_succ, List.cons_append, splitAtEach, if_pos rfl, List.map_cons, ih]
      rfl

/-- A candidate further down has the excerpt that it had. -/
theorem Candidate.attach_down {c : Candidate} {height : Nat} (hc : c.StandsWithin height)
    (lines : List (List Char)) :
    (c.down n).attach (List.replicate n [] ++ lines) = (c.attach lines).down n := by
  obtain ⟨hone, hle, -⟩ := hc
  have hlast : (c.endLine + n).toNat = n + c.endLine.toNat := by omega
  have hfirst : (c.startLine + n - 1).toNat = n + (c.startLine - 1).toNat := by omega
  have hexcerpt : excerpt (List.replicate n [] ++ lines) (c.startLine + n) (c.endLine + n) =
      excerpt lines c.startLine c.endLine := by
    rw [excerpt, excerpt, hlast, hfirst, List.take_append, List.length_replicate,
      Nat.add_sub_cancel_left, List.take_of_length_le (by simp), List.drop_append,
      List.length_replicate, Nat.add_sub_cancel_left, List.drop_eq_nil_of_le (by simp),
      List.nil_append]
  simp only [attach, down, hexcerpt]

/-! ## Scanning -/

/-- Cutting fails further down, or gives the same significant tokens further down. -/
theorem tokenize_newlines (source : String) (n : Nat) :
    (∃ e, tokenize source = .error e ∧ tokenize (newlines n ++ source) = .error (e.down n)) ∨
    ∃ tokens tokens', tokenize source = .ok tokens ∧ tokenize (newlines n ++ source) = .ok tokens' ∧
      significant tokens' = significant (tokens.map (Token.down n)) := by
  have h := Lexer.significantFrom_newlines source n
  rw [Lexer.significantFrom, Lexer.significantFrom] at h
  change (tokenize _).map _ = (((tokenize _).map _).map _).mapError _ at h
  cases hs : tokenize source <;> cases ht : tokenize (newlines n ++ source) <;> rw [hs, ht] at h
  · exact .inl ⟨_, rfl, congrArg Except.error (Except.error.inj h)⟩
  · cases h
  · cases h
  · refine .inr ⟨_, _, rfl, rfl, ?_⟩
    rw [(Token.retouching_down n).significant]
    exact Except.ok.inj h

example : tokenize (newlines 2 ++ "f(\"a") = .error ⟨.stringLiteral, 3⟩ := by cbv

/-- A source with newlines in front is scanned to the same end: it has the same unclosed construct, as
many lines further down, or the same candidates, as many lines further down and the same in everything
else, or its scan fails in the same way. -/
theorem scanSource_newlines (settings : Settings) (filePath source : String) (n : Nat) :
    (∃ e, tokenize source = .error e ∧ tokenize (newlines n ++ source) = .error (e.down n) ∧
      scanSource settings filePath source =
        .ok ⟨filePath, [], some (contentHash source), some e.message⟩ ∧
      scanSource settings filePath (newlines n ++ source) =
        .ok ⟨filePath, [], some (contentHash (newlines n ++ source)),
          some (e.down n).message⟩) ∨
    (∃ found,
      scanSource settings filePath source =
        .ok ⟨filePath, found, some (contentHash source), none⟩ ∧
      scanSource settings filePath (newlines n ++ source) =
        .ok ⟨filePath, found.map (Candidate.down n), some (contentHash (newlines n ++ source)),
          none⟩) ∨
    ∃ e, scanSource settings filePath source = .error e ∧
      scanSource settings filePath (newlines n ++ source) = .error e := by
  rcases tokenize_newlines source n with ⟨e, hs, ht⟩ | ⟨tokens, tokens', hs, ht, hsame⟩
  · refine .inl ⟨e, hs, ht, ?_, ?_⟩
    · rw [scanSource, hs]
    · rw [scanSource, ht]
  · have hfound : tokenCandidates settings tokens' =
        (tokenCandidates settings tokens).map (List.map (Candidate.down n)) := by
      rw [tokenCandidates_congr hsame, tokenCandidates_down]
    right
    cases hc : tokenCandidates settings tokens with
    | error e =>
        rw [hc] at hfound
        refine .inr ⟨e, ?_, ?_⟩
        · simp only [scanSource, hs, hc]
          rfl
        · simp only [scanSource, ht, hfound]
          rfl
    | ok found =>
        have hattach : (found.map (Candidate.down n)).map
            (.attach (sourceLines (newlines n ++ source))) =
              (found.map (.attach (sourceLines source))).map (Candidate.down n) := by
          rw [sourceLines_newlines, List.map_map, List.map_map]
          have hstands := standsWithin_of_mem_tokenCandidates hs hc
          exact List.map_congr_left fun c hm => Candidate.attach_down (hstands c hm) _
        rw [hc] at hfound
        refine .inl ⟨found.map (.attach (sourceLines source)), ?_, ?_⟩
        · simp only [scanSource, hs, hc]
          rfl
        · simp only [scanSource, ht, hfound, ← hattach]
          rfl

end EmbeddedSql
