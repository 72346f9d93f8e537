/-
# Comments are invisible

A comment gives way to one blank and as many newlines as it holds.  The two sources then have the same
significant tokens, on the same lines, and scanning them comes to the same, but for the digest and for the
excerpts of the source (`comment_invisible`).

The two are cut side by side, and they do not stay in step: a blank that takes the place of a comment
joins the blanks around it, so where one source has two white spaces and a comment the other has one token.
What is compared is `significantFrom`, the cutting of a text without its trivia.

| the text | its cutting |
| :-- | :-- |
| blanks come first | as if they were not there, further down (`significantFrom_blanks`) |
| a token that ends before the comment | the same token, and then the same (`lexeme_replace`) |
| the comment | trivia, and what follows is the same text on the same line |
-/
import Mathlib.Data.List.Count
import EmbeddedSql.Proofs.Token.Cutting
import EmbeddedSql.Proofs.Token.Lookahead
import EmbeddedSql.Scan.Source

namespace EmbeddedSql

theorem significant_append (tokens others : List Token) :
    significant (tokens ++ others) = significant tokens ++ significant others :=
  List.filter_append ..

theorem significant_without {t : Token} (ht : t.kind.isTrivia = true)
    (before after : List Token) :
    significant (before ++ t :: after) = significant before ++ significant after := by
  have hfilter : significant (t :: after) = significant after :=
    List.filter_cons_of_neg (by rw [ht]; exact Bool.false_ne_true)
  rw [significant_append, hfilter]

namespace Lexer

/-- The significant tokens of a text that begins on a line. -/
def significantFrom (line : Nat) (cs : List Char) : Except LexError (List Token) :=
  (tokensFrom line cs).map significant

variable {line last mid n : Nat} {c : Char} {cs left rest : List Char} {kind : TokenKind}
  {before after tokens : List Token}

theorem significantFrom_cons (h : lexeme c rest = .ok (kind, n)) :
    significantFrom line (c :: rest) =
      (significantFrom (tokenAt line c rest kind n).endLine (rest.drop n)).map
        fun tokens => significant [tokenAt line c rest kind n] ++ tokens := by
  rw [significantFrom, significantFrom, tokensFrom_cons_ok h]
  cases tokensFrom (tokenAt line c rest kind n).endLine (rest.drop n) with
  | error e => rfl
  | ok tokens => exact congrArg Except.ok (significant_append [_] tokens)

/-! ## Blanks -/

/-- Blanks in front of a text leave a mark on the lines only. -/
theorem significantFrom_dropWhile (line : Nat) (cs : List Char) :
    significantFrom line cs =
      significantFrom (line + (cs.takeWhile isBlank).count '\n') (cs.dropWhile isBlank) := by
  cases cs with
  | nil => rfl
  | cons c rest =>
      cases hc : isBlank c with
      | false => rw [List.takeWhile_cons, List.dropWhile_cons, hc]; rfl
      | true =>
          rw [significantFrom_cons (lexeme_blank hc rest), List.takeWhile_cons, List.dropWhile_cons,
            if_pos hc, if_pos hc, ← drop_spanLength, ← takeWhile_eq_take]
          show Except.map ([] ++ ·) _ = significantFrom (line + (c :: _).count '\n') _
          exact congrFun Except.map_id _

theorem significantFrom_blanks {blanks : List Char} (hb : ∀ b ∈ blanks, isBlank b = true)
    (line : Nat) (cs : List Char) :
    significantFrom line (blanks ++ cs) = significantFrom (line + blanks.count '\n') cs := by
  rw [significantFrom_dropWhile line (blanks ++ cs), List.takeWhile_append_of_pos hb,
    List.dropWhile_append_of_pos hb, List.count_append, ← Nat.add_assoc,
    ← significantFrom_dropWhile]

/-! ## Three quotes

Whether they open a text block is seen at what comes after the blanks behind them.  If they do not, the
first two are an empty literal and the third one opens a literal of its own, which is closed. -/

/-- Three quotes that begin what has been cut are followed by another one in there. -/
theorem mem_of_three_quotes {q : List Char} (h : lexeme '"' rest = .ok (kind, n))
    (hcuts : Cuts mid (rest.drop n) tokens last left)
    (hq : rest.take n ++ textOf tokens = '"' :: '"' :: q) : '"' ∈ q := by
  have hrest : rest = '"' :: '"' :: (q ++ left) := by
    rw [← List.take_append_drop n rest, hcuts.text, ← List.append_assoc, hq]
    rfl
  subst hrest
  have hlen : n ≤ q.length + 2 := by
    have := congrArg List.length hq
    have := lexeme_le h
    simp only [List.length_append, List.length_take, List.length_cons] at *
    omega
  rw [lexeme_quote] at h
  split at h
  · obtain ⟨m, hm, rfl⟩ := Option.map_eq_some_iff.1 (closed_eq_ok h).2
    have hmem := mem_take_of_textBlockEnd? hm
    rw [List.drop_succ_cons, List.drop_succ_cons, List.drop_zero,
      List.take_append_of_le_length (by omega)] at hmem
    exact List.mem_of_mem_take hmem
  · -- the empty literal ends at the second quote, and the third one begins a literal
    obtain rfl : 1 = n := Option.some.inj (closed_eq_ok h).2
    have hnext : textOf tokens = '"' :: q := (List.cons.inj hq).2
    generalize List.drop 1 ('"' :: '"' :: (q ++ left)) = cs at hcuts
    cases hcuts with
    | done => cases hnext
    | token hl hcuts =>
        rw [textOf_tokenAt, List.cons_append, List.cons.injEq] at hnext
        obtain ⟨rfl, rfl⟩ := hnext
        exact List.mem_append_left _ (mem_take_of_lexeme_quote hl)

/-! ## In place of a slash -/

/-- The first of the tokens in front of a slash is the first in front of a blank. -/
theorem significantFrom_token {y : List Char} (hblank : isBlank c = false)
    (h : lexeme c rest = .ok (kind, n)) (hcuts : Cuts mid (rest.drop n) tokens last ('/' :: y))
    (z : List Char) :
    significantFrom line (c :: (rest.take n ++ (textOf tokens ++ ' ' :: z))) =
      (significantFrom (tokenAt line c rest kind n).endLine (textOf tokens ++ ' ' :: z)).map
        fun tokens => significant [tokenAt line c rest kind n] ++ tokens := by
  have hn : n ≤ rest.length := lexeme_le h
  have hrest : rest = (rest.take n ++ textOf tokens) ++ '/' :: y := by
    rw [List.append_assoc, ← hcuts.text, List.take_append_drop]
  have hquotes : c = '"' → ∀ q, rest.take n ++ textOf tokens = '"' :: '"' :: q → '"' ∈ q := by
    rintro rfl q hq
    exact mem_of_three_quotes h hcuts hq
  have hsame : lexeme c (rest.take n ++ (textOf tokens ++ ' ' :: z)) = .ok (kind, n) := by
    rw [hrest] at h
    rw [← List.append_assoc]
    refine lexeme_replace (.inl rfl) (.inr (.inl rfl)) nofun hblank h ?_ fun hc =>
      opensBlock_replace (by decide) (by decide) (hquotes hc) y z
    rw [List.length_append, List.length_take_of_le hn]
    exact Nat.le_add_right _ _
  rw [significantFrom_cons hsame, tokenAt_take_append hn,
    List.drop_left' (List.length_take_of_le hn)]

/-- What was cut off in front of a slash is cut off in front of a blank as well, but for trivia. -/
theorem significantFrom_replace {y : List Char} (h : Cuts line cs before last ('/' :: y))
    (z : List Char) :
    significantFrom line (textOf before ++ ' ' :: z) =
      (significantFrom last (' ' :: z)).map fun tokens => significant before ++ tokens := by
  generalize hleft : '/' :: y = left at h
  induction h with
  | done => exact (congrFun Except.map_id _).symm
  | @token line last n c rest left kind tokens hl hcuts ih =>
      subst hleft
      have hsplit : significant (tokenAt line c rest kind n :: tokens) =
          significant [tokenAt line c rest kind n] ++ significant tokens := significant_append [_] _
      rw [textOf_tokenAt, hsplit, List.append_assoc, List.cons_append]
      cases hblank : isBlank c with
      | true =>
          obtain ⟨rfl, rfl⟩ : kind = .whitespace ∧ n = spanLength isBlank rest := by
            rw [lexeme_blank hblank] at hl
            cases hl
            exact ⟨rfl, rfl⟩
          have hblanks : ∀ b ∈ c :: rest.take (spanLength isBlank rest), isBlank b = true := by
            rw [takeWhile_eq_take]
            exact List.forall_mem_cons.2 ⟨hblank, fun b hb => List.mem_takeWhile_imp hb⟩
          exact (significantFrom_blanks hblanks line _).trans (ih rfl)
      | false =>
          rw [significantFrom_token hblank hl hcuts, ih rfl]
          cases significantFrom last (' ' :: z) with
          | error e => rfl
          | ok others => exact congrArg Except.ok (List.append_assoc ..).symm

/-! ## The comment -/

/-- Words, numbers and symbols are significant. -/
theorem symbolLexeme_code (c : Char) (rest : List Char) :
    (symbolLexeme c rest).1.isTrivia = false := by
  rw [symbolLexeme]
  split
  · rfl
  split
  · rfl
  split
  · rfl
  split
  · rfl
  split <;> rfl

/-- Trivia that begin with no blank begin with a slash. -/
theorem slash_of_trivia (hblank : isBlank c = false) (h : lexeme c rest = .ok (kind, n))
    (htrivia : kind.isTrivia = true) : c = '/' := by
  by_contra hslash
  have hcode : kind.isTrivia = false := by
    by_cases hquote : c = '"'
    · subst hquote
      rw [lexeme_quote] at h
      split at h <;> rw [(closed_eq_ok h).1] <;> rfl
    · by_cases hchar : c = '\''
      · subst hchar
        rw [lexeme_charQuote] at h
        rw [(closed_eq_ok h).1]
        rfl
      · rw [lexeme_of_symbol hblank hquote hchar fun hc => absurd hc hslash] at h
        have hcode := symbolLexeme_code c rest
        rwa [Except.ok.inj h] at hcode
  rw [hcode] at htrivia
  cases htrivia

/-- A comment begins with a slash. -/
theorem slash_of_comment (h : lexeme c rest = .ok (kind, n))
    (hkind : kind = .lineComment ∨ kind = .blockComment) : c = '/' := by
  cases hblank : isBlank c with
  | true =>
      rw [lexeme_blank hblank] at h
      cases h
      rcases hkind with hkind | hkind <;> cases hkind
  | false =>
      refine slash_of_trivia hblank h ?_
      rcases hkind with rfl | rfl <;> rfl

end Lexer

/-- The source in which a comment between tokens gives way to one blank and its newlines. -/
def withoutComment (before : List Token) (comment : Token) (after : List Token) : String :=
  String.join (before.map (·.text)) ++ " " ++
    String.ofList (List.replicate (comment.text.toList.count '\n') '\n') ++
    String.join (after.map (·.text))

theorem toList_withoutComment (before : List Token) (comment : Token) (after : List Token) :
    (withoutComment before comment after).toList =
      Lexer.textOf before ++ ' ' ::
        (List.replicate (comment.text.toList.count '\n') '\n' ++ Lexer.textOf after) := by
  rw [withoutComment]
  simp only [String.toList_append, Lexer.toList_join, String.toList_ofList, List.append_assoc]
  rfl

/-- The significant tokens, with their lines, are the ones from before. -/
theorem significantFrom_withoutComment {source : String} {before after : List Token}
    {comment : Token} (h : tokenize source = .ok (before ++ comment :: after))
    (hkind : comment.kind = .lineComment ∨ comment.kind = .blockComment) :
    Lexer.significantFrom 1 (withoutComment before comment after).toList =
      .ok (significant (before ++ comment :: after)) := by
  obtain ⟨last, hcuts⟩ := Lexer.tokensFrom_eq_ok_iff.1 h
  obtain ⟨mid, left, hbefore, hrest⟩ := hcuts.split
  cases hrest with
  | @token _ _ n c rest _ kind _ hl hafter =>
      obtain rfl := Lexer.slash_of_comment hl hkind
      have htrivia : (Lexer.tokenAt mid '/' rest kind n).kind.isTrivia = true := by
        rcases hkind with hkind | hkind <;> rw [hkind] <;> rfl
      generalize hcount :
        (Lexer.tokenAt mid '/' rest kind n).text.toList.count '\n' = k
      have hblanks : ∀ b ∈ ' ' :: List.replicate k '\n', isBlank b = true := by
        intro b hb
        rcases List.mem_cons.1 hb with rfl | hb
        · rfl
        · rw [List.eq_of_mem_replicate hb]
          rfl
      have hline : mid + (' ' :: List.replicate k '\n').count '\n' =
          (Lexer.tokenAt mid '/' rest kind n).endLine := by
        rw [Lexer.endLine_tokenAt, hcount, List.count_cons_of_ne (by decide),
          List.count_replicate_self]
      have htext : Lexer.textOf after = rest.drop n := by
        rw [hafter.text, List.append_nil]
      rw [toList_withoutComment, hcount, Lexer.significantFrom_replace hbefore,
        ← List.cons_append, Lexer.significantFrom_blanks hblanks, hline, htext,
        Lexer.significantFrom, Lexer.tokensFrom_eq_ok_iff.2 ⟨last, hafter⟩]
      exact congrArg Except.ok (significant_without htrivia before after).symm

/-! ## The scan -/

/-- What a result says but for the digest of the source and for excerpts of it. -/
def ScanResult.withoutSource (r : ScanResult) : ScanResult :=
  { r with
    contentHash := none
    candidates := r.candidates.map fun c => { c with content := "" } }

/-- Of the tokens a scan looks at the significant ones. -/
theorem scanSource_withoutSource {source : String} {tokens : List Token}
    (h : tokenize source = .ok tokens) (settings : Settings) (filePath : String) :
    (scanSource settings filePath source).map ScanResult.withoutSource =
      (tokenCandidates settings tokens).map fun found =>
        ⟨filePath, found.map fun c => { c with content := "" }, none, none⟩ := by
  rw [scanSource, h]
  cases hfound : tokenCandidates settings tokens with
  | error e => simp only [hfound]; rfl
  | ok found =>
      simp only [hfound]
      show Except.ok (ScanResult.mk _ ((found.map _).map _) _ _) = Except.ok _
      rw [List.map_map]
      rfl

theorem tokenCandidates_congr {tokens tokens' : List Token}
    (h : significant tokens = significant tokens') (settings : Settings) :
    tokenCandidates settings tokens = tokenCandidates settings tokens' := by
  rw [tokenCandidates, tokenCandidates, h]

/-- A source without one of its comments has the same significant tokens, on the same lines, and a scan
of it ends in the same way: with the same error, or with the same candidates but for their excerpts. -/
theorem comment_invisible {source : String} {before after : List Token} {comment : Token}
    (h : tokenize source = .ok (before ++ comment :: after))
    (hkind : comment.kind = .lineComment ∨ comment.kind = .blockComment) :
    (∃ tokens, tokenize (withoutComment before comment after) = .ok tokens ∧
      significant tokens = significant (before ++ comment :: after)) ∧
    ∀ settings filePath,
      (scanSource settings filePath (withoutComment before comment after)).map
          ScanResult.withoutSource =
        (scanSource settings filePath source).map ScanResult.withoutSource := by
  have hsame := significantFrom_withoutComment h hkind
  obtain ⟨tokens, ht, hs⟩ : ∃ tokens, tokenize (withoutComment before comment after) = .ok tokens ∧
      significant tokens = significant (before ++ comment :: after) := by
    rw [Lexer.significantFrom] at hsame
    cases ht : tokenize (withoutComment before comment after) with
    | error e =>
        rw [tokenize] at ht
        rw [ht] at hsame
        cases hsame
    | ok tokens =>
        rw [tokenize] at ht
        rw [ht] at hsame
        exact ⟨tokens, rfl, Except.ok.inj hsame⟩
  refine ⟨⟨tokens, ht, hs⟩, fun settings filePath => ?_⟩
  rw [scanSource_withoutSource ht, scanSource_withoutSource h, tokenCandidates_congr hs]

/-- Two signs and the comment between them. -/
def partedSigns : String := "x +/* not\nan increment */+ y"

/-- The blank keeps the signs apart as well. -/
theorem comment_invisible_partedSigns :
    (∃ tokens, tokenize "x + \n+ y" = .ok tokens ∧
      (significant tokens).map (fun t => (t.text, t.startLine)) =
        [("x", 1), ("+", 1), ("+", 2), ("y", 2)]) ∧
    ∀ settings filePath,
      (scanSource settings filePath "x + \n+ y").map ScanResult.withoutSource =
        (scanSource settings filePath partedSigns).map ScanResult.withoutSource := by
  let comment : Token := ⟨.blockComment, "/* not\nan increment */", 1, 2⟩
  let before : List Token :=
    [⟨.identifier, "x", 1, 1⟩, ⟨.whitespace, " ", 1, 1⟩, ⟨.operator, "+", 1, 1⟩]
  let after : List Token :=
    [⟨.operator, "+", 2, 2⟩, ⟨.whitespace, " ", 2, 2⟩, ⟨.identifier, "y", 2, 2⟩]
  have htokens : tokenize partedSigns = .ok (before ++ comment :: after) := by decide +kernel
  have hwithout : withoutComment before comment after = "x + \n+ y" := by decide +kernel
  obtain ⟨⟨tokens, ht, hs⟩, hscan⟩ := comment_invisible htokens (.inr rfl)
  rw [hwithout] at ht hscan
  refine ⟨⟨tokens, ht, ?_⟩, hscan⟩
  rw [hs]
  rfl

end EmbeddedSql
