/-
# Cutting is local

A source can be cut at the end of any of its tokens, and both parts read on their own as they read together:
the tokens before are those of the first part, and the tokens after those of the second, where the lines
are counted anew (`tokenize_split`).

For the second part this is how the lexer works.  It goes on with what is left and remembers nothing but
the line, so moving a text down moves its tokens (`Cuts.down`).  In the first part every token loses what
was behind it, and its end was found by looking at just that:

| what is looked for | why it is found in the first part |
| :-- | :-- |
| the end of a comment or of a literal | nothing is looked at behind it (`closed_replace`) |
| the end of digits, of a word, of blanks | a stretch that ends within a text ends there if the text does |
| the longest operator | one that is longer would be found in the whole as well |
| the end of the line after three quotes | it belongs to the text block that it opens |

A measure is *local* if it has the second property.  Measures of stretches that follow one another add up to
local ones (`IsLocal.then`), and the end of a number is measured in this way.
-/
import EmbeddedSql.Proofs.Token.Inert

namespace EmbeddedSql

/-- The token further down by some lines. -/
def Token.down (n : Nat) (t : Token) : Token :=
  { t with startLine := t.startLine + n, endLine := t.endLine + n }

namespace Lexer

/-! ## Measures -/

/-- What is measured within a text does not change if the text ends there. -/
def IsLocal (measure : List Char → Nat) : Prop :=
  ∀ p u, measure (p ++ u) ≤ p.length → measure p = measure (p ++ u)

theorem isLocal_spanLength (q : Char → Bool) : IsLocal (spanLength q) := by
  intro p u h
  rw [spanLength, List.takeWhile_append] at h
  rw [spanLength, spanLength, List.takeWhile_append]
  split at h
  · next hall =>
      rw [List.length_append] at h
      have hnone : (u.takeWhile q).length = 0 := by omega
      rw [if_pos hall, List.length_append, hnone, Nat.add_zero, hall]
  · next hends => rw [if_neg hends]

/-- More text does not shorten a stretch. -/
theorem spanLength_le_append (q : Char → Bool) (p u : List Char) :
    spanLength q p ≤ spanLength q (p ++ u) := by
  rw [spanLength, spanLength, List.takeWhile_append]
  split
  · next hall =>
      rw [List.length_append, hall]
      exact Nat.le_add_right _ _
  · exact Nat.le_refl _

theorem isLocal_optionalLength (q : Char → Bool) : IsLocal (optionalLength q) := by
  intro p u h
  cases p with
  | nil => exact (Nat.le_zero.1 h).symm
  | cons c p => rfl

/-- One stretch, and another one behind it. -/
theorem IsLocal.then {f g : List Char → Nat} (hf : IsLocal f) (hg : IsLocal g) :
    IsLocal fun cs => f cs + g (cs.drop (f cs)) := by
  intro p u h
  dsimp only at h ⊢
  have hfirst : f p = f (p ++ u) := hf p u (by omega)
  rw [← hfirst] at h ⊢
  have hle : f p ≤ p.length := by omega
  rw [List.drop_append_of_le_length hle] at h ⊢
  have hsecond : g (p.drop (f p)) = g (p.drop (f p) ++ u) := by
    refine hg _ u ?_
    rw [List.length_drop]
    omega
  rw [hsecond]

theorem isLocal_fractionLength : IsLocal fractionLength := by
  intro p u h
  cases p with
  | nil => exact (Nat.le_zero.1 h).symm
  | cons c p =>
      rw [List.cons_append, fractionLength] at h
      rw [List.cons_append, fractionLength, fractionLength]
      split at h
      · next hc =>
          rw [List.length_cons] at h
          rw [if_pos hc, if_pos hc, isLocal_spanLength isDigitOrBar p u (by omega)]
      · next hc => rw [if_neg hc, if_neg hc]

theorem isLocal_exponentLength : IsLocal exponentLength := by
  intro p u h
  match p with
  | [] => exact (Nat.le_zero.1 h).symm
  | [e] =>
      -- an exponent has a digit, which would not be there
      rw [List.cons_append, exponentLength] at h
      dsimp only at h
      rw [List.cons_append, exponentLength, exponentLength]
      dsimp only
      split at h
      · next he =>
          rw [if_pos he, if_pos he]
          split at h
          · next hdigits =>
              rw [if_pos hdigits]
              rfl
          · rw [List.length_cons, List.length_nil] at h
            omega
      · next he => rw [if_neg he, if_neg he]
  | e :: d :: p =>
      rw [List.cons_append, exponentLength] at h
      rw [List.cons_append, exponentLength, exponentLength]
      have hsign : optionalLength (fun c => c == '+' || c == '-') (d :: p ++ u) =
          optionalLength (fun c => c == '+' || c == '-') (d :: p) := rfl
      have hle := optionalLength_le (fun c => c == '+' || c == '-') (d :: p)
      dsimp only at h ⊢
      rw [hsign, List.drop_append_of_le_length hle] at h
      rw [hsign, List.drop_append_of_le_length hle]
      generalize optionalLength (fun c => c == '+' || c == '-') (d :: p) = sign at h hle ⊢
      have hmore := spanLength_le_append isDecimalDigit ((d :: p).drop sign) u
      split at h
      · next he =>
          rw [if_pos he, if_pos he]
          split at h
          · next hdigits =>
              rw [if_pos hdigits, if_pos (by omega)]
          · next hdigits =>
              have hsame : spanLength isDecimalDigit ((d :: p).drop sign) =
                  spanLength isDecimalDigit ((d :: p).drop sign ++ u) := by
                refine isLocal_spanLength isDecimalDigit _ u ?_
                rw [List.length_drop]
                rw [List.length_cons] at h
                omega
              rw [hsame]
      · next he => rw [if_neg he, if_neg he]

theorem isLocal_numberTailLength : IsLocal numberTailLength :=
  isLocal_exponentLength.then (isLocal_optionalLength isNumberSuffix)

/-! ## Numbers

A number that ends within a text is one if the text ends there, and where there is none in the whole, no
number comes to light when the text is cut. -/

variable {c : Char} {p u : List Char}

theorem markedNumberLength?_local {q : Char → Bool}
    (h : ∀ n ∈ markedNumberLength? q (p ++ u), n ≤ p.length + 1) :
    markedNumberLength? q p = markedNumberLength? q (p ++ u) := by
  have hmore := spanLength_le_append q p u
  have hspan := isLocal_spanLength q p u
  have hboth := (isLocal_spanLength q).then (isLocal_optionalLength isLongSuffix) p u
  rw [markedNumberLength?] at h
  rw [markedNumberLength?, markedNumberLength?]
  dsimp only at h hboth ⊢
  split at h
  · next hnone => rw [if_pos hnone, if_pos (by omega)]
  · next hdigits =>
      have hle := h _ rfl
      have hsame := hboth (by omega)
      rw [if_neg hdigits, if_neg (by rwa [hspan (by omega)]), Nat.add_assoc, Nat.add_assoc, hsame]

/-- The mark and at least one digit come after the zero. -/
theorem two_le_of_radixNumberLength? {cs : List Char} {n : Nat}
    (h : radixNumberLength? c cs = some n) : 2 ≤ n := by
  have hmarked : ∀ {q : Char → Bool} {cs}, markedNumberLength? q cs = some n → 2 ≤ n := by
    intro q cs h
    rw [markedNumberLength?] at h
    split at h
    · cases h
    · obtain rfl := Option.some.inj h
      omega
  unfold radixNumberLength? at h
  split at h
  · split at h
    · cases h
    · split at h
      · exact hmarked h
      · split at h
        · exact hmarked h
        · cases h
  · cases h

theorem radixNumberLength?_local (h : ∀ n ∈ radixNumberLength? c (p ++ u), n ≤ p.length) :
    radixNumberLength? c p = radixNumberLength? c (p ++ u) := by
  cases p with
  | nil =>
      cases hradix : radixNumberLength? c ([] ++ u) with
      | none => rfl
      | some n =>
          have := two_le_of_radixNumberLength? hradix
          have := h n hradix
          simp at this
          omega
  | cons mark p =>
      rw [List.cons_append, radixNumberLength?] at h
      rw [List.cons_append, radixNumberLength?, radixNumberLength?]
      split
      · rfl
      · next hzero =>
          rw [if_neg hzero] at h
          split
          · next hmark =>
              rw [if_pos hmark] at h
              exact markedNumberLength?_local h
          · next hmark =>
              rw [if_neg hmark] at h
              split
              · next hmark =>
                  rw [if_pos hmark] at h
                  exact markedNumberLength?_local h
              · rfl

/-- A number without a mark: digits, a point and digits after it, an exponent and a suffix. -/
theorem isLocal_decimalLength :
    IsLocal fun cs =>
      let n := spanLength isDigitOrBar cs + fractionLength (cs.drop (spanLength isDigitOrBar cs))
      n + numberTailLength (cs.drop n) :=
  ((isLocal_spanLength isDigitOrBar).then isLocal_fractionLength).then isLocal_numberTailLength

/-- A number that begins with the point. -/
theorem isLocal_pointLength :
    IsLocal fun cs =>
      spanLength isDigitOrBar cs + numberTailLength (cs.drop (spanLength isDigitOrBar cs)) :=
  (isLocal_spanLength isDigitOrBar).then isLocal_numberTailLength

theorem one_le_spanLength {cs : List Char} (h : (cs.head?.map isDecimalDigit).getD false = true) :
    1 ≤ spanLength isDigitOrBar cs := by
  cases cs with
  | nil => cases h
  | cons d cs =>
      have hd : isDigitOrBar d = true := Bool.or_eq_true_iff.2 (.inl h)
      rw [spanLength, List.takeWhile_cons, if_pos hd]
      exact Nat.succ_pos _

theorem numberLength?_local (h : ∀ n ∈ numberLength? c (p ++ u), n ≤ p.length) :
    numberLength? c p = numberLength? c (p ++ u) := by
  have hradix : radixNumberLength? c p = radixNumberLength? c (p ++ u) := by
    refine radixNumberLength?_local fun n hn => h n ?_
    rw [Option.mem_def] at hn ⊢
    rw [numberLength?, hn]
  rw [numberLength?] at h
  rw [numberLength?, numberLength?, hradix]
  cases hradix' : radixNumberLength? c (p ++ u) with
  | some n => rfl
  | none =>
      rw [hradix'] at h
      dsimp only at h ⊢
      by_cases hdigit : isDecimalDigit c = true
      · rw [if_pos hdigit] at h ⊢
        rw [if_pos hdigit]
        exact congrArg some (isLocal_decimalLength p u (h _ rfl))
      rw [if_neg hdigit] at h ⊢
      rw [if_neg hdigit]
      by_cases hpoint : (c == '.' && ((p ++ u).head?.map isDecimalDigit).getD false) = true
      · rw [if_pos hpoint] at h ⊢
        have hle := h _ rfl
        have hsame := isLocal_pointLength p u hle
        cases p with
        | nil =>
            -- the digit would not be there
            have hdigits := one_le_spanLength (Bool.and_eq_true_iff.1 hpoint).2
            rw [List.length_nil] at hle
            omega
        | cons d p =>
            rw [if_pos (by exact hpoint)]
            exact congrArg some hsame
      · rw [if_neg hpoint, if_neg]
        cases p with
        | nil => simp
        | cons d p => exact hpoint

/-! ## Words and symbols -/

theorem followedBy_local {a b : Char} (h : followedBy a b (p ++ u) = true → 2 ≤ p.length) :
    followedBy a b p = followedBy a b (p ++ u) := by
  match p with
  | _ :: _ :: _ => rfl
  | [] | [_] =>
      refine (Bool.eq_false_iff.2 fun hshort => ?_).symm
      have := h hshort
      simp at this

/-- An operator that ends within the text is its longest, and one of the text is one of the whole. -/
theorem operator?_local (h : ∀ op ∈ operator? (c :: (p ++ u)), op.length ≤ (c :: p).length) :
    operator? (c :: p) = operator? (c :: (p ++ u)) := by
  have hlonger : ∀ op : String, op.toList.isPrefixOf (c :: p) = true →
      op.toList.isPrefixOf (c :: (p ++ u)) = true := by
    intro op hop
    exact List.isPrefixOf_iff_prefix.2 ((List.isPrefixOf_iff_prefix.1 hop).trans ⟨u, rfl⟩)
  cases hfind : operator? (c :: (p ++ u)) with
  | none =>
      have hnone := List.find?_eq_none.1 hfind
      exact List.find?_eq_none.2 fun op hmem hop => hnone op hmem (hlonger op hop)
  | some op =>
      obtain ⟨hop, longer, shorter, hall, hearlier⟩ := List.find?_eq_some_iff_append.1 hfind
      have hprefix : op.toList <+: c :: p :=
        List.prefix_of_prefix_length_le (List.isPrefixOf_iff_prefix.1 hop) ⟨u, rfl⟩ (h op hfind)
      refine List.find?_eq_some_iff_append.2
        ⟨List.isPrefixOf_iff_prefix.2 hprefix, longer, shorter, hall, fun o ho => ?_⟩
      have hnot := hearlier o ho
      rw [Bool.not_eq_true'] at hnot ⊢
      exact Bool.eq_false_iff.2 fun hop => Bool.eq_false_iff.1 hnot (hlonger o hop)

theorem symbolLexeme_local (h : (symbolLexeme c (p ++ u)).2 ≤ p.length) :
    symbolLexeme c p = symbolLexeme c (p ++ u) := by
  have hnumber : numberLength? c p = numberLength? c (p ++ u) := by
    refine numberLength?_local fun n hn => ?_
    rwa [symbolLexeme, Option.mem_def.1 hn] at h
  rw [symbolLexeme] at h
  rw [symbolLexeme, symbolLexeme, hnumber]
  split at h
  · rfl
  split at h
  · next hword => rw [if_pos hword, if_pos hword, isLocal_spanLength isIdentChar p u h]
  · next hword =>
      rw [if_neg hword, if_neg hword]
      have hdots : (c == '.' && followedBy '.' '.' p) =
          (c == '.' && followedBy '.' '.' (p ++ u)) := by
        cases hc : c == '.' with
        | false => rfl
        | true =>
            rw [Bool.true_and, Bool.true_and]
            refine followedBy_local fun hthree => ?_
            rwa [hc, hthree, Bool.and_true, if_pos rfl] at h
      rw [hdots]
      split at h
      · next hthree => rw [if_pos hthree, if_pos hthree]
      · next hthree =>
          rw [if_neg hthree, if_neg hthree]
          split at h
          · next hpunct => rw [if_pos hpunct, if_pos hpunct]
          · next hpunct =>
              rw [if_neg hpunct, if_neg hpunct]
              have hop : operator? (c :: p) = operator? (c :: (p ++ u)) := by
                refine operator?_local fun op hop => ?_
                rw [Option.mem_def.1 hop] at h
                exact Nat.le_add_of_sub_le h
              rw [hop]

/-! ## Tokens -/

theorem opensBlock_le_append (h : opensBlock p = true) (u : List Char) :
    opensBlock (p ++ u) = true := by
  obtain ⟨hthree, hopens⟩ := Bool.and_eq_true_iff.1 h
  obtain ⟨q, rfl⟩ := exists_of_followedBy hthree
  exact opensTextBlock_append hopens u

variable {kind : TokenKind} {n : Nat}

/-- A literal that ends within the text. -/
theorem lexeme_quote_local (h : lexeme '"' (p ++ u) = .ok (kind, n)) (hn : n ≤ p.length) :
    lexeme '"' p = .ok (kind, n) := by
  rw [lexeme_quote] at h
  rw [lexeme_quote]
  split at h
  · next hblock =>
      obtain ⟨hthree, hopens⟩ := Bool.and_eq_true_iff.1 hblock
      obtain ⟨m, hm, rfl⟩ := Option.map_eq_some_iff.1 (closed_eq_ok h).2
      have hthree' : followedBy '"' '"' p = true := by
        rw [followedBy_local fun _ => by omega]
        exact hthree
      obtain ⟨q, rfl⟩ := exists_of_followedBy hthree'
      have hm' : m ≤ q.length := by
        rw [List.length_cons, List.length_cons] at hn
        omega
      -- the quotes that close the text block come after the end of the line
      have hquote : '"' ∈ q := by
        have hmem := mem_take_of_textBlockEnd? hm
        rw [List.cons_append, List.cons_append, List.drop_succ_cons, List.drop_succ_cons,
          List.drop_zero, List.take_append_of_le_length hm'] at hmem
        exact List.mem_of_mem_take hmem
      have hsame := opensTextBlock_replace (s := '"') rfl hquote u []
      rw [List.append_nil] at hsame
      have hblock' : opensBlock ('"' :: '"' :: q) = true := hsame.symm.trans hopens
      rw [if_pos hblock']
      have hend := closed_replace (p := q) (fun _ _ h => textBlockEnd?_append h) h (by omega) []
      rwa [List.append_nil] at hend
  · next hstring =>
      rw [if_neg fun hblock => hstring (opensBlock_le_append hblock u), ← List.append_nil p]
      exact closed_quote_replace h hn []

/-- A number, a word or a symbol. -/
theorem lexeme_symbol_local (hblank : isBlank c = false) (hquote : c ≠ '"') (hchar : c ≠ '\'')
    (hslash : c = '/' → (p ++ u).head? ≠ some '/' ∧ (p ++ u).head? ≠ some '*')
    (h : lexeme c (p ++ u) = .ok (kind, n)) (hn : n ≤ p.length) : lexeme c p = .ok (kind, n) := by
  rw [lexeme_of_symbol hblank hquote hchar hslash] at h
  have hsymbol := Except.ok.inj h
  rw [lexeme_of_symbol hblank hquote hchar fun hc =>
      ⟨head?_ne_of_append (hslash hc).1, head?_ne_of_append (hslash hc).2⟩,
    symbolLexeme_local (p := p) (u := u) (by rwa [hsymbol]), hsymbol]

/-- A comment that ends within the text, or a sign of division. -/
theorem lexeme_slash_local (h : lexeme '/' (p ++ u) = .ok (kind, n)) (hn : n ≤ p.length) :
    lexeme '/' p = .ok (kind, n) := by
  cases p with
  | nil =>
      -- a comment takes more than its slash
      refine lexeme_symbol_local rfl (by decide) (by decide)
        (fun _ => ⟨fun hline => ?_, fun hblock => ?_⟩) h hn
      · obtain ⟨q, hq⟩ := List.head?_eq_some_iff.1 hline
        rw [hq, lexeme_lineComment] at h
        obtain ⟨rfl, rfl⟩ := Prod.mk.inj (Except.ok.inj h)
        cases hn
      · obtain ⟨q, hq⟩ := List.head?_eq_some_iff.1 hblock
        rw [hq, lexeme_blockComment] at h
        obtain ⟨m, -, rfl⟩ := Option.map_eq_some_iff.1 (closed_eq_ok h).2
        rw [List.length_nil] at hn
        omega
  | cons d p =>
      by_cases hline : d = '/'
      · subst hline
        rw [List.cons_append, lexeme_lineComment] at h
        obtain ⟨rfl, rfl⟩ := Prod.mk.inj (Except.ok.inj h)
        rw [lexeme_lineComment, isLocal_spanLength (· != '\n') ('/' :: p) u hn]
        rfl
      · by_cases hblock : d = '*'
        · subst hblock
          rw [List.cons_append, lexeme_blockComment] at h
          rw [lexeme_blockComment, ← List.append_nil p]
          rw [List.length_cons, Nat.add_comm] at hn
          exact closed_replace (fun _ _ h => commentEnd?_append h) h hn []
        · refine lexeme_symbol_local rfl (by decide) (by decide) (fun _ => ?_) h hn
          exact ⟨fun h => hline (Option.some.inj h), fun h => hblock (Option.some.inj h)⟩

/-- A token that ends within the text is there if the text ends. -/
theorem lexeme_local (h : lexeme c (p ++ u) = .ok (kind, n)) (hn : n ≤ p.length) :
    lexeme c p = .ok (kind, n) := by
  cases hblank : isBlank c with
  | true =>
      rw [lexeme_blank hblank] at h ⊢
      obtain ⟨rfl, rfl⟩ := Prod.mk.inj (Except.ok.inj h)
      rw [isLocal_spanLength isBlank p u hn]
  | false =>
      by_cases hquote : c = '"'
      · subst hquote
        exact lexeme_quote_local h hn
      by_cases hchar : c = '\''
      · subst hchar
        rw [lexeme_charQuote] at h ⊢
        rw [← List.append_nil p]
        exact closed_quote_replace h hn []
      by_cases hslash : c = '/'
      · subst hslash
        exact lexeme_slash_local h hn
      · exact lexeme_symbol_local hblank hquote hchar (fun hc => absurd hc hslash) h hn

/-! ## Tokens in a row -/

variable {line last : Nat} {cs left : List Char} {tokens : List Token}

/-- Tokens are cut from their own text as from a longer one. -/
theorem Cuts.alone (h : Cuts line cs tokens last left) : Cuts line (textOf tokens) tokens last [] := by
  induction h with
  | done => exact .done
  | @token line last n c rest left kind tokens hl hcuts ih =>
      have hn : n ≤ rest.length := lexeme_le hl
      have hsame : lexeme c (rest.take n ++ textOf tokens) = .ok (kind, n) := by
        refine lexeme_local (u := left) ?_ ?_
        · rwa [List.append_assoc, ← hcuts.text, List.take_append_drop]
        · rw [List.length_append, List.length_take_of_le hn]
          exact Nat.le_add_right _ _
      rw [← tokenAt_take_append hn kind (textOf tokens)] at ih
      rw [textOf_tokenAt, List.cons_append, ← tokenAt_take_append hn kind (textOf tokens)]
      refine .token hsame ?_
      rwa [List.drop_left' (List.length_take_of_le hn)]

theorem tokenAt_add (line k : Nat) (c : Char) (rest : List Char) (kind : TokenKind) (n : Nat) :
    tokenAt (line + k) c rest kind n = (tokenAt line c rest kind n).down k := by
  rw [tokenAt, Nat.add_right_comm]
  rfl

/-- The tokens of a text that stands further down are further down. -/
theorem Cuts.down {k first : Nat} (h : Cuts first cs tokens last left) (hfirst : first = line + k) :
    ∃ tokens' last', Cuts line cs tokens' last' left ∧ tokens = tokens'.map (Token.down k) := by
  induction h generalizing line with
  | done => exact ⟨[], line, .done, rfl⟩
  | @token first last n c rest left kind tokens hl _ ih =>
      subst hfirst
      have hend : (tokenAt (line + k) c rest kind n).endLine =
          (tokenAt line c rest kind n).endLine + k := by
        rw [tokenAt_add]
        rfl
      obtain ⟨tokens', last', hcuts, rfl⟩ := ih hend
      exact ⟨_ :: tokens', last', .token hl hcuts, by rw [List.map_cons, tokenAt_add]⟩

end Lexer

/-- The text of tokens, put together. -/
def joinedText (tokens : List Token) : String := String.join (tokens.map (·.text))

theorem toList_joinedText (tokens : List Token) :
    (joinedText tokens).toList = Lexer.textOf tokens := Lexer.toList_join tokens

/-- A source is cut in two at the end of any of its tokens.  The first part has the tokens up to there,
and the second one those from there on, as many lines up as the first part goes down. -/
theorem tokenize_split {source : String} {tokens : List Token} (h : tokenize source = .ok tokens)
    (k : Nat) :
    joinedText (tokens.take k) ++ joinedText (tokens.drop k) = source ∧
      tokenize (joinedText (tokens.take k)) = .ok (tokens.take k) ∧
      ∃ rest n, tokenize (joinedText (tokens.drop k)) = .ok rest ∧
        tokens.drop k = rest.map (Token.down n) ∧
        ∀ t, tokens[k]? = some t → t.startLine = n + 1 := by
  obtain ⟨last, hcuts⟩ := Lexer.tokensFrom_eq_ok_iff.1 h
  rw [← List.take_append_drop k tokens] at hcuts
  obtain ⟨mid, left, hfirst, hsecond⟩ := hcuts.split
  refine ⟨?_, ?_, ?_⟩
  · apply String.toList_injective
    rw [String.toList_append, toList_joinedText, toList_joinedText, hfirst.text, hsecond.text,
      List.append_nil]
  · rw [tokenize, toList_joinedText]
    exact Lexer.tokensFrom_eq_ok_iff.2 ⟨mid, hfirst.alone⟩
  · obtain ⟨rest, last', hrest, hdown⟩ := hsecond.down hfirst.last_line
    refine ⟨rest, (Lexer.textOf (tokens.take k)).count '\n', ?_, hdown, ?_⟩
    · rw [tokenize, toList_joinedText]
      have htext := hsecond.text
      rw [List.append_nil] at htext
      rw [← htext]
      exact Lexer.tokensFrom_eq_ok_iff.2 ⟨last', hrest⟩
    · intro t ht
      obtain ⟨hk, rfl⟩ := List.getElem?_eq_some_iff.1 ht
      have hdrop : tokens.drop k = tokens[k] :: tokens.drop (k + 1) := List.drop_eq_getElem_cons hk
      rw [hdrop] at hcuts
      rw [hcuts.lines.1, Nat.add_comm]

/-- A text block over two lines, and a number, a comment and a literal with nothing between them. -/
def denseSource : String := "a=\"\"\"\n b\"\"\"+1e5/*\n*/+\"c\";"

/-- Behind the number, in front of the comment. -/
theorem tokenize_split_denseSource :
    ∃ tokens, tokenize denseSource = .ok tokens ∧
      joinedText (tokens.take 5) = "a=\"\"\"\n b\"\"\"+1e5" ∧
      joinedText (tokens.drop 5) = "/*\n*/+\"c\";" ∧
      tokenize (joinedText (tokens.take 5)) = .ok (tokens.take 5) ∧
      ∃ rest n, tokenize (joinedText (tokens.drop 5)) = .ok rest ∧
        tokens.drop 5 = rest.map (Token.down n) ∧
        ∀ t, tokens[5]? = some t → t.startLine = n + 1 := by
  let tokens : List Token :=
    [⟨.identifier, "a", 1, 1⟩, ⟨.operator, "=", 1, 1⟩,
      ⟨.stringLiteral, "\"\"\"\n b\"\"\"", 1, 2⟩, ⟨.operator, "+", 2, 2⟩, ⟨.other, "1e5", 2, 2⟩,
      ⟨.blockComment, "/*\n*/", 2, 3⟩, ⟨.operator, "+", 3, 3⟩, ⟨.stringLiteral, "\"c\"", 3, 3⟩,
      ⟨.punctuation, ";", 3, 3⟩]
  have htokens : tokenize denseSource = .ok tokens := by decide +kernel
  obtain ⟨-, hfirst, hsecond⟩ := tokenize_split htokens 5
  exact ⟨tokens, htokens, by decide +kernel, by decide +kernel, hfirst, hsecond⟩

end EmbeddedSql
