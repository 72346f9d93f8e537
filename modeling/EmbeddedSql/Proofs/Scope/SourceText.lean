/-
# Reading source text back

The source text of a stretch of code is made of the texts of its tokens, with a blank between two that are
both letters or digits where they meet.  So it reads as the tokens that it is made of as long as none of
them runs on with what is put behind it, and only then (`sourceText_reads_iff`).

For tokens that stood next to each other in the source nothing else could be expected, since the source
kept them apart by itself; but white space and comments are left out, and the blank does not stand for
all of these:

| put together | keeps them apart | does not |
| :-- | :-- | :-- |
| `new A`, `return 1` | the blank | |
| `new _A`, `x_ instanceof` | | letters and digits are not all that words are made of |
| `a + ++b`, `a & &b` | | two operators make a third one |
| `1 .5`, `1. 5` | | the point belongs to the number |

If a token runs on, the cutting takes more than the token or fails, and what is left cannot make up for
it: a comment that two slashes open would take slashes that the tokens have and give none of them back.
-/
import Mathlib.Data.List.Flatten
import EmbeddedSql.Proofs.Flow.StraightLine.Program
import EmbeddedSql.Proofs.Scan.Comments
import EmbeddedSql.Proofs.Token.RunningOn
import EmbeddedSql.Scope.Basic

namespace EmbeddedSql

open StraightLine (lexeme)

/-- The token takes in characters of a text that is put behind it. -/
def Token.RunsOn (t : Token) (next : List Char) : Prop := Lexer.RunsOn t.kind t.text.toList next

/-- A token of code whose text, on its own, is cut as this token. -/
structure Token.IsWhole (t : Token) : Prop where
  code : t.kind.isTrivia = false
  cut : ∃ c p, t.text.toList = c :: p ∧ Lexer.lexeme c p = .ok (t.kind, p.length)

namespace Lexer

variable {line last : Nat} {cs left : List Char} {tokens rest : List Token} {t : Token}

/-- A token that is cut from a text is cut from its own text. -/
theorem Cuts.lexeme_alone (h : Cuts line cs tokens last left) (ht : t ∈ tokens) :
    ∃ c p, t.text.toList = c :: p ∧ lexeme c p = .ok (t.kind, p.length) := by
  induction h with
  | done => cases ht
  | @token line last n c rest left kind tokens hl hcuts ih =>
      rcases List.mem_cons.1 ht with rfl | ht
      · have hn : n ≤ rest.length := lexeme_le hl
        have hlength : (rest.take n).length = n := List.length_take_of_le hn
        refine ⟨c, rest.take n, String.toList_ofList, ?_⟩
        rw [hlength]
        refine lexeme_local (u := rest.drop n) ?_ hlength.ge
        rwa [List.take_append_drop]
      · exact ih ht

/-! ## Slashes -/

/-- What is cut from a text holds no more slashes than the text. -/
theorem count_significantFrom {read : List Token} (h : significantFrom line cs = .ok read) :
    (textOf read).count '/' ≤ cs.count '/' := by
  rw [significantFrom] at h
  cases hcut : tokensFrom line cs with
  | error e =>
      rw [hcut] at h
      cases h
  | ok tokens =>
      rw [hcut] at h
      obtain rfl := Except.ok.inj h
      obtain ⟨last, hcuts⟩ := tokensFrom_eq_ok_iff.1 hcut
      rw [hcuts.text, List.append_nil]
      exact (List.filter_sublist.flatMap _).count_le '/'

theorem count_joinTexts (tokens : List Token) (last : Option Char) :
    (joinTexts last tokens).count '/' = (textOf tokens).count '/' := by
  induction tokens generalizing last with
  | nil => rfl
  | cons t rest ih =>
      rw [joinTexts, textOf, List.flatMap_cons, List.count_append, List.count_append, ih,
        List.count_append]
      split
      · rw [List.count_singleton, if_neg (by decide), Nat.zero_add]
        rfl
      · rw [List.count_nil, Nat.zero_add]
        rfl

/-- A text is cut as tokens like these, apart from their lines. -/
def ReadsAs (line : Nat) (cs : List Char) (tokens : List Token) : Prop :=
  ∃ read, significantFrom line cs = .ok read ∧
    read.map StraightLine.lexeme = tokens.map StraightLine.lexeme

theorem ReadsAs.count_le (h : ReadsAs line cs tokens) :
    (textOf tokens).count '/' ≤ cs.count '/' := by
  obtain ⟨read, hread, hsame⟩ := h
  have htexts := congrArg (List.flatMap fun l : StraightLine.Lexeme => l.2.toList) hsame
  rw [List.flatMap_map, List.flatMap_map] at htexts
  have htexts : textOf read = textOf tokens := htexts
  rw [← htexts]
  exact count_significantFrom hread

/-! ## One token after the other -/

variable {c : Char} {p next : List Char} {kind : TokenKind} {n : Nat}

/-- What is cut first is the first of the tokens, and the others are cut from what is left. -/
theorem readsAs_cons_iff (h : lexeme c p = .ok (kind, n)) (hcode : kind.isTrivia = false) :
    ReadsAs line (c :: p) (t :: rest) ↔
      (kind = t.kind ∧ String.ofList (c :: p.take n) = t.text) ∧
        ReadsAs (tokenAt line c p kind n).endLine (p.drop n) rest := by
  have hfirst : significant [tokenAt line c p kind n] = [tokenAt line c p kind n] :=
    List.filter_cons_of_pos (by rw [Bool.not_eq_true']; exact hcode)
  rw [ReadsAs, ReadsAs, significantFrom_cons h, hfirst]
  cases significantFrom (tokenAt line c p kind n).endLine (p.drop n) with
  | error e =>
      constructor
      · rintro ⟨_, ⟨⟩, -⟩
      · rintro ⟨-, _, ⟨⟩, -⟩
  | ok read =>
      constructor
      · rintro ⟨_, h, hsame⟩
        obtain rfl := Except.ok.inj h
        obtain ⟨hface, hothers⟩ := List.cons.inj hsame
        exact ⟨Prod.mk.inj hface, read, rfl, hothers⟩
      · rintro ⟨⟨hkind, htext⟩, _, h, hothers⟩
        obtain rfl := Except.ok.inj h
        refine ⟨_, rfl, List.cons_eq_cons.2 ⟨Prod.ext hkind htext, hothers⟩⟩

/-- What is cut first is trivia. -/
theorem readsAs_trivia_iff (h : lexeme c p = .ok (kind, n)) (htrivia : kind.isTrivia = true) :
    ReadsAs line (c :: p) tokens ↔
      ReadsAs (tokenAt line c p kind n).endLine (p.drop n) tokens := by
  have hfirst : significant [tokenAt line c p kind n] = [] :=
    List.filter_cons_of_neg (by rw [Bool.not_eq_true', Bool.not_eq_false]; exact htrivia)
  rw [ReadsAs, ReadsAs, significantFrom_cons h, hfirst]
  cases significantFrom (tokenAt line c p kind n).endLine (p.drop n) <;> rfl

/-- If anything else than the first of the tokens is cut first, the tokens are not read. -/
theorem not_readsAs (htext : t.text.toList = c :: p) (hblank : isBlank c = false)
    (hnext : next.count '/' = (textOf rest).count '/')
    (h : lexeme c (p ++ next) ≠ .ok (t.kind, p.length)) :
    ¬ ReadsAs line (c :: (p ++ next)) (t :: rest) := by
  intro hreads
  cases hcut : lexeme c (p ++ next) with
  | error construct =>
      obtain ⟨read, hread, -⟩ := hreads
      rw [significantFrom, tokensFrom_cons_error hcut] at hread
      cases hread
  | ok taken =>
      obtain ⟨kind, n⟩ := taken
      cases htrivia : kind.isTrivia with
      | true =>
          -- a comment, whose first slash nothing behind it makes up for
          obtain rfl := slash_of_trivia hblank hcut htrivia
          have hcount := ((readsAs_trivia_iff hcut htrivia).1 hreads).count_le
          have hdrop := (List.drop_sublist n (p ++ next)).count_le '/'
          rw [List.count_append, hnext] at hdrop
          rw [textOf, List.flatMap_cons, htext, List.count_append, List.count_cons_self] at hcount
          rw [textOf] at hdrop
          omega
      | false =>
          obtain ⟨⟨rfl, htaken⟩, -⟩ := (readsAs_cons_iff hcut htrivia).1 hreads
          have hlist := congrArg String.toList htaken
          rw [String.toList_ofList, htext] at hlist
          have hlength := congrArg List.length (List.cons.inj hlist).2
          rw [List.length_take_of_le (lexeme_le hcut)] at hlength
          exact h (hlength ▸ hcut)

end Lexer

/-- A quote that comes first in the texts of tokens begins one of them. -/
theorem opensTextBlock_of_joinTexts {tokens : List Token} (h : ∀ t ∈ tokens, t.IsWhole)
    {last : Option Char} {q : List Char} (hq : joinTexts last tokens = '"' :: q) :
    Lexer.opensTextBlock q = false := by
  cases tokens with
  | nil => cases hq
  | cons t rest =>
      obtain ⟨c, p, htext, hcut⟩ := (h t List.mem_cons_self).cut
      rw [joinTexts, htext] at hq
      split at hq
      · cases hq
      · obtain ⟨rfl, rfl⟩ := List.cons.inj hq
        exact Lexer.opensTextBlock_of_literal hcut _

theorem isBlank_gap {gap : Bool} : ∀ b ∈ if gap then [' '] else [], isBlank b = true := by
  cases gap with
  | false => rintro b ⟨⟩
  | true => exact List.forall_mem_singleton.2 rfl

/-- The first token, and what is put behind it. -/
theorem readsAs_joinTexts_cons_iff {t : Token} {rest : List Token} (ht : t.IsWhole)
    (hrest : ∀ u ∈ rest, u.IsWhole) (last : Option Char) (line : Nat) :
    ∃ mid, Lexer.ReadsAs line (joinTexts last (t :: rest)) (t :: rest) ↔
      ¬ t.RunsOn (joinTexts t.text.toList.getLast? rest) ∧
        Lexer.ReadsAs mid (joinTexts t.text.toList.getLast? rest) rest := by
  obtain ⟨c, p, htext, hcut⟩ := ht.cut
  have hblank : isBlank c = false := by
    refine Bool.eq_false_iff.2 fun hblank => ?_
    rw [Lexer.lexeme_blank hblank] at hcut
    have hcode := ht.code
    rw [← (Prod.mk.inj (Except.ok.inj hcut)).1] at hcode
    cases hcode
  generalize hnext : joinTexts t.text.toList.getLast? rest = next
  -- the blank that may come first is left out by the cutting
  obtain ⟨first, hgap⟩ : ∃ first, Lexer.ReadsAs line (joinTexts last (t :: rest)) (t :: rest) ↔
      Lexer.ReadsAs first (c :: (p ++ next)) (t :: rest) := by
    rw [joinTexts, hnext, List.append_assoc, htext, Lexer.ReadsAs,
      Lexer.significantFrom_blanks isBlank_gap]
    exact ⟨_, Iff.rfl⟩
  have hmunch := Lexer.lexeme_append_iff hcut ht.code fun q hq =>
    opensTextBlock_of_joinTexts hrest (hnext.trans hq)
  rw [Token.RunsOn, htext, ← hmunch, hgap]
  by_cases hsame : Lexer.lexeme c (p ++ next) = .ok (t.kind, p.length)
  · have hfirst : String.ofList (c :: (p ++ next).take p.length) = t.text := by
      rw [List.take_left, ← htext, String.ofList_toList]
    refine ⟨(Lexer.tokenAt first c (p ++ next) t.kind p.length).endLine, ?_⟩
    rw [Lexer.readsAs_cons_iff hsame ht.code, List.drop_left, and_iff_right ⟨rfl, hfirst⟩, and_iff_right hsame]
  · have hcount : next.count '/' = (Lexer.textOf rest).count '/' := by
      rw [← hnext, Lexer.count_joinTexts]
    exact ⟨0, iff_of_false (Lexer.not_readsAs htext hblank hcount hsame) fun h => hsame h.1⟩

/-- No token runs on with what is put behind it. -/
def KeepApart (tokens : List Token) : Prop :=
  ∀ before t after, tokens = before ++ t :: after →
    ¬ t.RunsOn (joinTexts t.text.toList.getLast? after)

theorem keepApart_cons_iff {t : Token} {rest : List Token} :
    KeepApart (t :: rest) ↔ ¬ t.RunsOn (joinTexts t.text.toList.getLast? rest) ∧ KeepApart rest := by
  constructor
  · intro h
    exact ⟨h [] t rest rfl, fun before u after hrest => h (t :: before) u after (by rw [hrest]; rfl)⟩
  · rintro ⟨ht, hrest⟩ before u after hsplit
    cases before with
    | nil =>
        obtain ⟨rfl, rfl⟩ := List.cons.inj hsplit
        exact ht
    | cons v before => exact hrest before u after (List.cons.inj hsplit).2

/-- The texts of tokens, put together, are cut as these tokens if and only if none of them runs on. -/
theorem readsAs_joinTexts_iff {tokens : List Token} (h : ∀ t ∈ tokens, t.IsWhole)
    (last : Option Char) (line : Nat) :
    Lexer.ReadsAs line (joinTexts last tokens) tokens ↔ KeepApart tokens := by
  induction tokens generalizing last line with
  | nil =>
      refine iff_of_true ⟨[], ?_, rfl⟩ fun before t after hsplit => ?_
      · rw [joinTexts, Lexer.significantFrom, Lexer.tokensFrom.eq_def]
        rfl
      · cases before <;> cases hsplit
  | cons t rest ih =>
      obtain ⟨ht, hrest⟩ := List.forall_mem_cons.1 h
      obtain ⟨mid, hstep⟩ := readsAs_joinTexts_cons_iff ht hrest last line
      rw [hstep, ih hrest, keepApart_cons_iff]

/-! ## Source text -/

/-- For any tokens of code of a source and any slice of them: the source text of the slice is cut into
tokens of the same kinds and texts, white space and comments left out, if and only if none of the tokens
of the slice takes in characters of what is put behind it. -/
theorem sourceText_reads_iff {source : String} {all tokens : List Token}
    (h : tokenize source = .ok all) (htokens : ∀ t ∈ tokens, t ∈ significant all)
    (start stop : Nat) :
    (∃ read, tokenize ((Brackets.ofTokens tokens).sourceText start stop) = .ok read ∧
        (significant read).map lexeme =
          ((Brackets.ofTokens tokens).slice start stop).map lexeme) ↔
      ∀ before t after, (Brackets.ofTokens tokens).slice start stop = before ++ t :: after →
        ¬ t.RunsOn (joinTexts t.text.toList.getLast? after) := by
  have hwhole : ∀ t ∈ (Brackets.ofTokens tokens).slice start stop, t.IsWhole := by
    intro t ht
    have hmem : t ∈ significant all := by
      refine htokens t ?_
      rw [Brackets.slice, Array.toList_extract] at ht
      exact List.mem_of_mem_drop (List.mem_of_mem_take ht)
    obtain ⟨hall, hcode⟩ := List.mem_filter.1 hmem
    obtain ⟨last, hcuts⟩ := Lexer.tokensFrom_eq_ok_iff.1 h
    exact ⟨by simpa using hcode, hcuts.lexeme_alone hall⟩
  refine Iff.trans ?_ (readsAs_joinTexts_iff hwhole none 1)
  rw [tokenize, Brackets.sourceText, String.toList_ofList, Lexer.ReadsAs, Lexer.significantFrom]
  cases Lexer.tokensFrom 1 _ with
  | error e =>
      constructor
      · rintro ⟨_, ⟨⟩, -⟩
      · rintro ⟨_, ⟨⟩, -⟩
  | ok read =>
      constructor
      · rintro ⟨_, h, hsame⟩
        obtain rfl := Except.ok.inj h
        exact ⟨_, rfl, hsame⟩
      · rintro ⟨_, h, hsame⟩
        obtain rfl := Except.ok.inj h
        exact ⟨_, rfl, hsame⟩

/-- An object of a class whose name begins with a bar. -/
def barredCreation : String := "new _Query ( x )"

/-- The word `new` runs on into the name, and nothing runs on behind it. -/
theorem sourceText_reads_barredCreation :
    ∃ all, tokenize barredCreation = .ok all ∧
      (Brackets.ofTokens (significant all)).sourceText 0 5 = "new_Query(x)" ∧
      (¬ ∃ read, tokenize ((Brackets.ofTokens (significant all)).sourceText 0 5) = .ok read ∧
        (significant read).map lexeme =
          ((Brackets.ofTokens (significant all)).slice 0 5).map lexeme) ∧
      (Brackets.ofTokens (significant all)).sourceText 1 5 = "_Query(x)" ∧
      ∀ before t after, (Brackets.ofTokens (significant all)).slice 1 5 = before ++ t :: after →
        ¬ t.RunsOn (joinTexts t.text.toList.getLast? after) := by
  let new : Token := ⟨.identifier, "new", 1, 1⟩
  let call : List Token := [⟨.identifier, "_Query", 1, 1⟩, ⟨.punctuation, "(", 1, 1⟩,
    ⟨.identifier, "x", 1, 1⟩, ⟨.punctuation, ")", 1, 1⟩]
  obtain ⟨all, htokens, hcode⟩ : ∃ all, tokenize barredCreation = .ok all ∧
      significant all = new :: call := by
    refine ⟨[⟨.identifier, "new", 1, 1⟩, ⟨.whitespace, " ", 1, 1⟩, ⟨.identifier, "_Query", 1, 1⟩,
      ⟨.whitespace, " ", 1, 1⟩, ⟨.punctuation, "(", 1, 1⟩, ⟨.whitespace, " ", 1, 1⟩,
      ⟨.identifier, "x", 1, 1⟩, ⟨.whitespace, " ", 1, 1⟩, ⟨.punctuation, ")", 1, 1⟩], ?_, ?_⟩ <;>
      decide +kernel
  have hreads := sourceText_reads_iff htokens (fun t ht => ht)
  refine ⟨all, htokens, ?_, ?_, ?_, (hreads 1 5).1 ?_⟩
  · rw [hcode]
    decide +kernel
  · rw [hreads 0 5, hcode]
    intro hapart
    have hnext : joinTexts new.text.toList.getLast? call = "_Query(x)".toList := by decide +kernel
    refine hapart [] new call rfl ⟨'_', ?_, by decide⟩
    rw [hnext]
    rfl
  · rw [hcode]
    decide +kernel
  · rw [hcode]
    exact ⟨call, by decide +kernel, rfl⟩

end EmbeddedSql
