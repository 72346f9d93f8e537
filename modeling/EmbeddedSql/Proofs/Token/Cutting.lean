/-
# Every character of a source lands in exactly one token

Cutting a source goes on token by token, each taken off the front of what is left: `Cuts` is that
relation, between a text with the line it begins on and what is left of it with the line that begins
on.  It says where the tokens come from but leaves open where the cutting ends, so it also describes
the tokens before a construct that is never closed.

`tokensFrom_eq_ok_iff` and `tokensFrom_eq_error_iff` say that the lexer computes this relation: it
gives the tokens that leave nothing, or it stops in front of the unclosed construct.  What is true of
tokens is then proved by induction over `Cuts`:

| | |
| :-- | :-- |
| `Cuts.text` | the texts of the tokens and what is left make up the text |
| `Cuts.last_line` | the line of what is left counts the newlines before it |
| `Cuts.lines` | each token begins on the line where the ones before it end |
| `Cuts.ordered` | no token begins before the ones before it end |

Losslessness asks for no fact about single constructs.  A token takes one character and a number of the
following ones, whatever the lexer found there.
-/
import EmbeddedSql.Proofs.Token.Extent
import EmbeddedSql.Text.Lines

namespace EmbeddedSql

/-- Tokens on the lines from `first` to `last`, none of which begins before the ones before it end. -/
structure OrderedTokens (first last : Nat) (tokens : List Token) : Prop where
  within : ∀ t ∈ tokens, first ≤ t.startLine ∧ t.startLine ≤ t.endLine ∧ t.endLine ≤ last
  order : tokens.Pairwise fun t u => t.endLine ≤ u.startLine

theorem OrderedTokens.sublist {first last : Nat} {tokens chosen : List Token}
    (h : OrderedTokens first last tokens) (hs : chosen.Sublist tokens) :
    OrderedTokens first last chosen :=
  ⟨fun t ht => h.within t (hs.subset ht), h.order.sublist hs⟩

namespace Lexer

/-- The text that tokens were cut from. -/
def textOf (tokens : List Token) : List Char := tokens.flatMap fun t => t.text.toList

/-- The token of a kind that begins with `c` on a line and takes `n` characters of `rest`. -/
def tokenAt (line : Nat) (c : Char) (rest : List Char) (kind : TokenKind) (n : Nat) : Token :=
  ⟨kind, String.ofList (c :: rest.take n), line, line + (c :: rest.take n).count '\n'⟩

theorem textOf_tokenAt (line : Nat) (c : Char) (rest : List Char) (kind : TokenKind) (n : Nat)
    (tokens : List Token) :
    textOf (tokenAt line c rest kind n :: tokens) = (c :: rest.take n) ++ textOf tokens := by
  show (String.ofList (c :: rest.take n)).toList ++ textOf tokens = _
  rw [String.toList_ofList]

theorem endLine_tokenAt (line : Nat) (c : Char) (rest : List Char) (kind : TokenKind) (n : Nat) :
    (tokenAt line c rest kind n).endLine =
      line + (tokenAt line c rest kind n).text.toList.count '\n' := by
  show line + (c :: rest.take n).count '\n'
    = line + (String.ofList (c :: rest.take n)).toList.count '\n'
  rw [String.toList_ofList]

/-- What follows a token is not part of it. -/
theorem tokenAt_take_append {line n : Nat} {c : Char} {rest : List Char} (hn : n ≤ rest.length)
    (kind : TokenKind) (w : List Char) :
    tokenAt line c (rest.take n ++ w) kind n = tokenAt line c rest kind n := by
  rw [tokenAt, tokenAt, List.take_left' (List.length_take_of_le hn)]

/-- From a text that begins on a line, tokens are cut off one after the other; what is left begins on
a line of its own. -/
inductive Cuts : Nat → List Char → List Token → Nat → List Char → Prop
  | done {line : Nat} {cs : List Char} : Cuts line cs [] line cs
  | token {line last n : Nat} {c : Char} {rest left : List Char} {kind : TokenKind}
      {tokens : List Token} : lexeme c rest = .ok (kind, n) →
      Cuts (tokenAt line c rest kind n).endLine (rest.drop n) tokens last left →
      Cuts line (c :: rest) (tokenAt line c rest kind n :: tokens) last left

/-! ## The lexer cuts -/

theorem tokensFrom_cons_ok {line n : Nat} {c : Char} {rest : List Char} {kind : TokenKind}
    (h : lexeme c rest = .ok (kind, n)) :
    tokensFrom line (c :: rest) =
      (tokensFrom (tokenAt line c rest kind n).endLine (rest.drop n)).map
        (tokenAt line c rest kind n :: ·) := by
  rw [tokensFrom.eq_def]
  dsimp only
  rw [h]
  dsimp only
  show _ = (tokensFrom (line + (c :: rest.take n).count '\n') (rest.drop n)).map _
  cases tokensFrom (line + (c :: rest.take n).count '\n') (rest.drop n) <;> rfl

theorem tokensFrom_cons_error {line : Nat} {c : Char} {rest : List Char} {construct : Construct}
    (h : lexeme c rest = .error construct) :
    tokensFrom line (c :: rest) = .error ⟨construct, line⟩ := by
  rw [tokensFrom.eq_def]
  dsimp only
  rw [h]

/-- After tokens have been cut off, the lexer goes on with what is left. -/
theorem Cuts.tokensFrom_eq {line last : Nat} {cs left : List Char} {tokens : List Token}
    (h : Cuts line cs tokens last left) :
    tokensFrom line cs = (tokensFrom last left).map (tokens ++ ·) := by
  induction h with
  | @done line cs => cases tokensFrom line cs <;> rfl
  | @token _ last _ _ _ left _ _ hl _ ih =>
      rw [tokensFrom_cons_ok hl, ih]
      cases tokensFrom last left <;> rfl

/-- Either nothing is left in the end, or the cutting stops in front of a construct that is never
closed. -/
theorem exists_cuts (line : Nat) (cs : List Char) :
    (∃ tokens last, Cuts line cs tokens last [] ∧ tokensFrom line cs = .ok tokens) ∨
      ∃ tokens last c rest construct, Cuts line cs tokens last (c :: rest) ∧
        lexeme c rest = .error construct ∧ tokensFrom line cs = .error ⟨construct, last⟩ := by
  cases cs with
  | nil => exact .inl ⟨[], line, .done, tokensFrom.eq_def line []⟩
  | cons c rest =>
      cases hl : lexeme c rest with
      | error construct =>
          exact .inr ⟨[], line, c, rest, construct, .done, hl, tokensFrom_cons_error hl⟩
      | ok taken =>
          obtain ⟨kind, n⟩ := taken
          rcases exists_cuts (tokenAt line c rest kind n).endLine (rest.drop n) with
            ⟨tokens, last, hc, ht⟩ | ⟨tokens, last, d, left, construct, hc, hd, ht⟩
          · refine .inl ⟨_ :: tokens, last, .token hl hc, ?_⟩
            rw [tokensFrom_cons_ok hl, ht]
            rfl
          · refine .inr ⟨_ :: tokens, last, d, left, construct, .token hl hc, hd, ?_⟩
            rw [tokensFrom_cons_ok hl, ht]
            rfl
termination_by cs.length
decreasing_by
  rw [List.length_drop, List.length_cons]
  exact Nat.lt_succ_of_le (Nat.sub_le _ _)

/-- The lexer gives the tokens that leave nothing. -/
theorem tokensFrom_eq_ok_iff {line : Nat} {cs : List Char} {tokens : List Token} :
    tokensFrom line cs = .ok tokens ↔ ∃ last, Cuts line cs tokens last [] := by
  constructor
  · intro h
    rcases exists_cuts line cs with ⟨tokens', last, hc, ht⟩ | ⟨_, _, _, _, _, _, _, ht⟩
    · rw [ht] at h
      obtain rfl := Except.ok.inj h
      exact ⟨last, hc⟩
    · rw [ht] at h
      cases h
  · rintro ⟨last, hc⟩
    rw [hc.tokensFrom_eq, tokensFrom.eq_def]
    show Except.ok (tokens ++ []) = _
    rw [List.append_nil]

/-- The lexer stops in front of a construct that is never closed, and says on which line that is. -/
theorem tokensFrom_eq_error_iff {line : Nat} {cs : List Char} {e : LexError} :
    tokensFrom line cs = .error e ↔
      ∃ tokens c rest, Cuts line cs tokens e.line (c :: rest) ∧
        lexeme c rest = .error e.construct := by
  constructor
  · intro h
    rcases exists_cuts line cs with ⟨_, _, _, ht⟩ | ⟨tokens, last, c, rest, construct, hc, hl, ht⟩
    · rw [ht] at h
      cases h
    · rw [ht] at h
      obtain rfl := Except.error.inj h
      exact ⟨tokens, c, rest, hc, hl⟩
  · rintro ⟨tokens, c, rest, hc, hl⟩
    rw [hc.tokensFrom_eq, tokensFrom_cons_error hl]
    rfl

/-! ## What tokens are made of -/

namespace Cuts

variable {line last : Nat} {cs left : List Char} {tokens : List Token}

/-- Nothing is lost: tokens hold the characters that are no longer there. -/
theorem text (h : Cuts line cs tokens last left) : cs = textOf tokens ++ left := by
  induction h with
  | done => rfl
  | @token line last n c rest left kind tokens _ _ ih =>
      calc c :: rest
          = (c :: rest.take n) ++ rest.drop n := by rw [List.cons_append, List.take_append_drop]
        _ = (c :: rest.take n) ++ (textOf tokens ++ left) := by rw [← ih]
        _ = textOf (tokenAt line c rest kind n :: tokens) ++ left := by
            rw [textOf_tokenAt, List.append_assoc]

theorem last_line (h : Cuts line cs tokens last left) :
    last = line + (textOf tokens).count '\n' := by
  induction h with
  | done => rfl
  | @token line last n c rest left kind tokens _ _ ih =>
      rw [ih, textOf_tokenAt, List.count_append, ← Nat.add_assoc]
      rfl

/-- A token takes at least one character. -/
theorem text_ne_empty (h : Cuts line cs tokens last left) : ∀ t ∈ tokens, t.text ≠ "" := by
  induction h with
  | done => exact fun t ht => nomatch ht
  | @token line last n c rest left kind tokens _ _ ih =>
      intro t ht
      rcases List.mem_cons.1 ht with rfl | ht
      · intro hempty
        have hlist : c :: rest.take n = [] := String.ofList_injective hempty
        cases hlist
      · exact ih t ht

/-- The tokens before one decide on which line it begins, and its own text on which line it ends. -/
theorem lines {before after : List Token} {t : Token}
    (h : Cuts line cs (before ++ t :: after) last left) :
    t.startLine = line + (textOf before).count '\n' ∧
      t.endLine = t.startLine + t.text.toList.count '\n' := by
  induction before generalizing line cs with
  | nil =>
      cases h with
      | token _ _ => exact ⟨rfl, endLine_tokenAt line _ _ _ _⟩
  | cons u before ih =>
      cases h with
      | token _ hc =>
          obtain ⟨hs, he⟩ := ih hc
          refine ⟨?_, he⟩
          rw [hs, textOf_tokenAt, List.count_append, ← Nat.add_assoc]
          rfl

/-- Each token begins on the line where the one before it ends, and the rest of them later still. -/
theorem ordered (h : Cuts line cs tokens last left) :
    line ≤ last ∧ OrderedTokens line last tokens := by
  induction h with
  | done => exact ⟨Nat.le_refl _, fun t ht => (nomatch ht), .nil⟩
  | @token line last n c rest left kind tokens _ _ ih =>
      obtain ⟨hlast, hrest⟩ := ih
      have hend : line ≤ (tokenAt line c rest kind n).endLine := Nat.le_add_right line _
      refine ⟨Nat.le_trans hend hlast, ?_, ?_⟩
      · intro t ht
        rcases List.mem_cons.1 ht with rfl | ht
        · exact ⟨Nat.le_refl line, hend, hlast⟩
        · exact ⟨Nat.le_trans hend (hrest.within t ht).1, (hrest.within t ht).2⟩
      · exact List.pairwise_cons.2 ⟨fun u hu => (hrest.within u hu).1, hrest.order⟩

theorem append {mid : Nat} {rest : List Char} {before after : List Token}
    (h : Cuts line cs before mid rest) (h' : Cuts mid rest after last left) :
    Cuts line cs (before ++ after) last left := by
  induction h with
  | done => exact h'
  | token hl _ ih => exact .token hl (ih h')

/-- Where some of the tokens end and the others begin. -/
theorem split {before after : List Token} (h : Cuts line cs (before ++ after) last left) :
    ∃ mid rest, Cuts line cs before mid rest ∧ Cuts mid rest after last left := by
  induction before generalizing line cs with
  | nil => exact ⟨line, cs, .done, h⟩
  | cons t before ih =>
      cases h with
      | token hl hcuts =>
          obtain ⟨mid, rest, hbefore, hafter⟩ := ih hcuts
          exact ⟨mid, rest, .token hl hbefore, hafter⟩

end Cuts

theorem toList_join (tokens : List Token) :
    (String.join (tokens.map (·.text))).toList = textOf tokens := by
  induction tokens with
  | nil => rfl
  | cons t rest ih =>
      rw [List.map_cons, String.join_cons, String.toList_append, ih]
      rfl

end Lexer

/-- A source either is cut into tokens, none of them empty, whose texts put together are the source
and whose lines count the newlines before and inside of each; or the tokens before an unclosed
construct are read in the same way, and the line of that construct is reported. -/
theorem tokenize_lossless (source : String) :
    (∃ tokens, tokenize source = .ok tokens ∧
      (∀ t ∈ tokens, t.text ≠ "") ∧
      String.join (tokens.map (·.text)) = source ∧
      ∀ before t after, tokens = before ++ t :: after →
        t.startLine = 1 + (String.join (before.map (·.text))).toList.count '\n' ∧
        t.endLine = t.startLine + t.text.toList.count '\n') ∨
    ∃ e, tokenize source = .error e ∧
      ∃ (read : List Token) (c : Char) (rest : List Char),
        source.toList = (String.join (read.map (·.text))).toList ++ c :: rest ∧
        Lexer.lexeme c rest = .error e.construct ∧
        e.line = 1 + (String.join (read.map (·.text))).toList.count '\n' := by
  cases ht : tokenize source with
  | ok tokens =>
      obtain ⟨last, hc⟩ := Lexer.tokensFrom_eq_ok_iff.1 ht
      refine .inl ⟨tokens, rfl, hc.text_ne_empty, ?_, ?_⟩
      · apply String.toList_injective
        rw [Lexer.toList_join, hc.text, List.append_nil]
      · rintro before t after rfl
        rw [Lexer.toList_join]
        exact hc.lines
  | error e =>
      obtain ⟨read, c, rest, hc, hl⟩ := Lexer.tokensFrom_eq_error_iff.1 ht
      refine .inr ⟨e, rfl, read, c, rest, ?_, hl, ?_⟩
      · rw [Lexer.toList_join]
        exact hc.text
      · rw [Lexer.toList_join]
        exact hc.last_line

/-- The tokens of a source stand on its lines, in order. -/
theorem tokenize_ordered {source : String} {tokens : List Token}
    (h : tokenize source = .ok tokens) :
    OrderedTokens 1 (sourceLines source).length tokens := by
  obtain ⟨last, hc⟩ := Lexer.tokensFrom_eq_ok_iff.1 h
  have hlast : last = (sourceLines source).length := by
    rw [hc.last_line, length_sourceLines, hc.text, List.append_nil, Nat.add_comm]
  rw [← hlast]
  exact hc.ordered.2

end EmbeddedSql
