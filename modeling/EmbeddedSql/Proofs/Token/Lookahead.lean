/-
# What the cutting of a token looks at

A token is found by looking at the text from its beginning on, and some of what is looked at comes after
it.  Where a comment or a literal begins, nothing of this makes a difference: the token before a slash
is the same as before a blank, and the one before a slash or a quote is the same whatever this begins
(`lexeme_replace`).

| what is looked for | why it is the same |
| :-- | :-- |
| the end of a comment or of a literal | it is found before, and what comes after it is not looked at |
| the end of a number or a word | no such character belongs to one |
| the longest operator | no such character comes second or later in one |
| the blanks after three quotes | a quote that closes the next literal comes before |

The first row is stated for any text (`quoteEnd?_append` and the like): a search that succeeds within a
text gives the same in every text that begins with it.  The others are stated for a text and a breaking
character after it, and say that the text reads as if it ended there.
-/
import Mathlib.Data.List.Find
import Mathlib.Data.List.TakeWhile
import EmbeddedSql.Proofs.Token.Extent

namespace EmbeddedSql

namespace Lexer

/-! ## Searches end where they succeed -/

theorem two_le_of_commentEnd? {cs : List Char} {n : Nat} (h : commentEnd? cs = some n) : 2 ≤ n := by
  fun_induction commentEnd? cs generalizing n with
  | case1 =>
      cases h
      exact Nat.le_refl _
  | case2 c cs _ ih =>
      obtain ⟨m, hm, rfl⟩ := Option.map_eq_some_iff.1 h
      exact Nat.le_succ_of_le (ih hm)
  | case3 => cases h

theorem three_le_of_textBlockEnd? {cs : List Char} {n : Nat} (h : textBlockEnd? cs = some n) :
    3 ≤ n := by
  fun_induction textBlockEnd? cs generalizing n with
  | case1 c cs ih =>
      obtain ⟨m, hm, rfl⟩ := Option.map_eq_some_iff.1 h
      exact Nat.le_add_right_of_le (ih hm)
  | case2 =>
      cases h
      exact Nat.le_refl _
  | case3 => cases h
  | case4 c cs _ _ _ ih =>
      obtain ⟨m, hm, rfl⟩ := Option.map_eq_some_iff.1 h
      exact Nat.le_succ_of_le (ih hm)
  | case5 => cases h

/-- What begins a text is looked at in every text that begins in the same way. -/
theorem eq_append_of_take {cs rest p tail : List Char} {n : Nat} (hn : p.length ≤ n)
    (hcs : n ≤ cs.length) (h : cs.take n ++ rest = p ++ tail) :
    ∃ tail', cs = p ++ tail' := by
  have hprefix : p <+: cs.take n := by
    refine List.prefix_of_prefix_length_le ⟨tail, h.symm⟩ (List.prefix_append _ _) ?_
    rwa [List.length_take, Nat.min_eq_left hcs]
  obtain ⟨tail', htail⟩ := hprefix.trans (List.take_prefix n cs)
  exact ⟨tail', htail.symm⟩

theorem commentEnd?_append {cs : List Char} {n : Nat} (h : commentEnd? cs = some n)
    (rest : List Char) : commentEnd? (cs.take n ++ rest) = some n := by
  fun_induction commentEnd? cs generalizing n with
  | case1 =>
      cases h
      rfl
  | case2 c cs hother ih =>
      obtain ⟨m, hm, rfl⟩ := Option.map_eq_some_iff.1 h
      rw [List.take_succ_cons, List.cons_append, commentEnd?, ih hm]
      · rfl
      · -- a slash that came first in the rest would be the end
        rintro tail rfl htail
        have hm' : 1 ≤ m := Nat.le_of_succ_le (two_le_of_commentEnd? hm)
        obtain ⟨tail', rfl⟩ := eq_append_of_take (p := ['/']) hm' (commentEnd?_le hm) htail
        exact hother tail' rfl rfl
  | case3 => cases h

theorem quoteEnd?_append {quote : Char} {cs : List Char} {n : Nat}
    (h : quoteEnd? quote cs = some n) (rest : List Char) :
    quoteEnd? quote (cs.take n ++ rest) = some n := by
  fun_induction quoteEnd? quote cs generalizing n with
  | case1 => cases h
  | case2 => cases h
  | case3 c cs hline ih =>
      obtain ⟨m, hm, rfl⟩ := Option.map_eq_some_iff.1 h
      rw [List.take_succ_cons, List.take_succ_cons, List.cons_append, List.cons_append, quoteEnd?,
        if_neg hline, ih hm]
      rfl
  | case4 => cases h
  | case5 c cs hescape hplain hquote =>
      cases h
      rw [List.take_succ_cons, List.cons_append, quoteEnd?, if_neg hplain, if_pos hquote]
      rintro d tail rfl -
      exact hplain rfl
  | case6 c cs hescape hplain hquote ih =>
      obtain ⟨m, hm, rfl⟩ := Option.map_eq_some_iff.1 h
      rw [List.take_succ_cons, List.cons_append, quoteEnd?, if_neg hplain, if_neg hquote, ih hm]
      · rfl
      · rintro d tail rfl -
        exact hplain rfl

theorem textBlockEnd?_append {cs : List Char} {n : Nat} (h : textBlockEnd? cs = some n)
    (rest : List Char) : textBlockEnd? (cs.take n ++ rest) = some n := by
  fun_induction textBlockEnd? cs generalizing n with
  | case1 c cs ih =>
      obtain ⟨m, hm, rfl⟩ := Option.map_eq_some_iff.1 h
      rw [List.take_succ_cons, List.take_succ_cons, List.cons_append, List.cons_append,
        textBlockEnd?, ih hm]
      rfl
  | case2 =>
      cases h
      rfl
  | case3 => cases h
  | case4 c cs hescape hquotes hplain ih =>
      obtain ⟨m, hm, rfl⟩ := Option.map_eq_some_iff.1 h
      rw [List.take_succ_cons, List.cons_append, textBlockEnd?, if_neg hplain, ih hm]
      · rfl
      · rintro d tail rfl -
        exact hplain rfl
      · -- two quotes that came first in the rest would be the end
        rintro tail rfl htail
        have hm' : 2 ≤ m := Nat.le_of_succ_le (three_le_of_textBlockEnd? hm)
        obtain ⟨tail', rfl⟩ := eq_append_of_take (p := ['"', '"']) hm' (textBlockEnd?_le hm) htail
        exact hquotes tail' rfl rfl
  | case5 => cases h

/-- A search that looks at nothing behind its end finds the same whatever stands there. -/
theorem search_replace {search : List Char → Option Nat}
    (hsearch : ∀ cs n, search cs = some n → ∀ rest, search (cs.take n ++ rest) = some n)
    {p u : List Char} {n : Nat} (h : search (p ++ u) = some n) (hn : n ≤ p.length)
    (v : List Char) : search (p ++ v) = some n := by
  have hsame := hsearch _ _ h (p.drop n ++ v)
  rwa [List.take_append_of_le_length hn, ← List.append_assoc, List.take_append_drop] at hsame

/-! ## Stretches -/

theorem takeWhile_eq_take (p : Char → Bool) (cs : List Char) :
    cs.take (spanLength p cs) = cs.takeWhile p :=
  (List.prefix_iff_eq_take.1 (List.takeWhile_prefix p)).symm

theorem drop_spanLength (p : Char → Bool) (cs : List Char) :
    cs.drop (spanLength p cs) = cs.dropWhile p := by
  refine (List.append_right_inj (cs.takeWhile p)).1 ?_
  rw [List.takeWhile_append_dropWhile, ← takeWhile_eq_take, List.take_append_drop]

/-! ## Breaking characters

A slash, a quote, a blank and the end of a line belong to no number and no word, and come second or
later in no operator. -/

/-- What stands where a comment or a literal begins, and what stands in the place of a comment. -/
def IsBreak (s : Char) : Prop := s = '/' ∨ s = ' ' ∨ s = '"' ∨ s = '\''

/-- Any of the breaking characters. -/
def IsStop (s : Char) : Prop := IsBreak s ∨ s = '\r' ∨ s = '\n'

section Breaks

variable {s : Char} {y : List Char}

theorem spanLength_break {p : Char → Bool} (hp : p s = false) (cs : List Char) :
    spanLength p (cs ++ s :: y) = spanLength p cs := by
  rw [spanLength, spanLength, List.takeWhile_append, List.takeWhile_cons, hp]
  split
  · next hall =>
      rw [if_neg Bool.false_ne_true, List.append_nil]
      exact hall.symm
  · rfl

theorem optionalLength_break {p : Char → Bool} (hp : p s = false) (cs : List Char) :
    optionalLength p (cs ++ s :: y) = optionalLength p cs := by
  cases cs with
  | nil => exact if_neg (Bool.eq_false_iff.1 hp)
  | cons c cs => rfl

variable (hs : IsStop s)

include hs

theorem isDecimalDigit_break : isDecimalDigit s = false := by
  rcases hs with (rfl | rfl | rfl | rfl) | rfl | rfl <;> rfl

theorem exponentLength_break (cs : List Char) :
    exponentLength (cs ++ s :: y) = exponentLength cs := by
  cases cs with
  | nil =>
      rcases hs with (rfl | rfl | rfl | rfl) | rfl | rfl <;> rfl
  | cons e cs =>
      let isSign : Char → Bool := fun c => c == '+' || c == '-'
      have hsign : optionalLength isSign (cs ++ s :: y) = optionalLength isSign cs := by
        refine optionalLength_break ?_ cs
        rcases hs with (rfl | rfl | rfl | rfl) | rfl | rfl <;> rfl
      have hle : optionalLength isSign cs ≤ cs.length := optionalLength_le isSign cs
      simp only [List.cons_append, exponentLength, isSign] at hsign hle ⊢
      rw [hsign, List.drop_append_of_le_length hle, spanLength_break (isDecimalDigit_break hs)]

theorem numberTailLength_break (cs : List Char) :
    numberTailLength (cs ++ s :: y) = numberTailLength cs := by
  have hsuffix : isNumberSuffix s = false := by
    rcases hs with (rfl | rfl | rfl | rfl) | rfl | rfl <;> rfl
  rw [numberTailLength, numberTailLength, exponentLength_break hs,
    List.drop_append_of_le_length (exponentLength_le cs), optionalLength_break hsuffix]

theorem isDigitOrBar_break : isDigitOrBar s = false := by
  rcases hs with (rfl | rfl | rfl | rfl) | rfl | rfl <;> rfl

theorem fractionLength_break (cs : List Char) :
    fractionLength (cs ++ s :: y) = fractionLength cs := by
  cases cs with
  | nil =>
      rcases hs with (rfl | rfl | rfl | rfl) | rfl | rfl <;> rfl
  | cons c cs =>
      rw [List.cons_append, fractionLength, fractionLength,
        spanLength_break (isDigitOrBar_break hs)]

omit hs in
theorem markedNumberLength?_break {p : Char → Bool} (hp : p s = false) (hl : isLongSuffix s = false)
    (cs : List Char) : markedNumberLength? p (cs ++ s :: y) = markedNumberLength? p cs := by
  rw [markedNumberLength?, markedNumberLength?, spanLength_break hp,
    List.drop_append_of_le_length (spanLength_le p cs), optionalLength_break hl]

theorem radixNumberLength?_break (c : Char) (cs : List Char) :
    radixNumberLength? c (cs ++ s :: y) = radixNumberLength? c cs := by
  have hhex : isHexDigitOrBar s = false := by
    rcases hs with (rfl | rfl | rfl | rfl) | rfl | rfl <;> rfl
  have hbinary : (fun d => d == '0' || d == '1' || d == '_') s = false := by
    rcases hs with (rfl | rfl | rfl | rfl) | rfl | rfl <;> rfl
  have hlong : isLongSuffix s = false := by
    rcases hs with (rfl | rfl | rfl | rfl) | rfl | rfl <;> rfl
  cases cs with
  | nil =>
      rw [List.nil_append, radixNumberLength?, radixNumberLength?]
      rcases hs with (rfl | rfl | rfl | rfl) | rfl | rfl <;> simp
  | cons mark cs =>
      rw [List.cons_append, radixNumberLength?, radixNumberLength?,
        markedNumberLength?_break hhex hlong, markedNumberLength?_break hbinary hlong]

/-- A number ends where the text breaks. -/
theorem numberLength?_break (c : Char) (cs : List Char) :
    numberLength? c (cs ++ s :: y) = numberLength? c cs := by
  have hbar := isDigitOrBar_break hs
  have hhead : ((cs ++ s :: y).head?.map isDecimalDigit).getD false =
      (cs.head?.map isDecimalDigit).getD false := by
    cases cs with
    | nil => exact isDecimalDigit_break hs
    | cons c cs => rfl
  have hwhole := spanLength_le isDigitOrBar cs
  have hfraction := add_drop_le hwhole (fractionLength_le (cs.drop (spanLength isDigitOrBar cs)))
  rw [numberLength?, numberLength?, radixNumberLength?_break hs, hhead]
  simp only [spanLength_break hbar, List.drop_append_of_le_length hwhole, fractionLength_break hs,
    List.drop_append_of_le_length hfraction, numberTailLength_break hs]

/-- So do words, dots and operators. -/
theorem isIdentChar_break : isIdentChar s = false := by
  rcases hs with (rfl | rfl | rfl | rfl) | rfl | rfl <;> decide

omit hs in
theorem followedBy_break {a : Char} (ha : s ≠ a) (cs : List Char) :
    followedBy a a (cs ++ s :: y) = followedBy a a cs := by
  have hne : (s == a) = false := beq_eq_false_iff_ne.2 ha
  match cs with
  | [] =>
      cases y with
      | nil => rfl
      | cons b y =>
          show (s == a && b == a) = false
          rw [hne]
          rfl
  | [c] =>
      show (c == a && s == a) = false
      rw [hne, Bool.and_false]
  | _ :: _ :: _ => rfl

omit hs in
/-- What is compared with the text holds no break. -/
theorem isPrefixOf_break {op : List Char} (hop : s ∉ op) (cs : List Char) :
    op.isPrefixOf (cs ++ s :: y) = op.isPrefixOf cs := by
  induction op generalizing cs with
  | nil => rw [List.isPrefixOf_nil_left, List.isPrefixOf_nil_left]
  | cons o op ih =>
      cases cs with
      | nil =>
          have hne : (o == s) = false := by
            rw [beq_eq_false_iff_ne]
            rintro rfl
            exact hop List.mem_cons_self
          show (o == s && _) = false
          rw [hne, Bool.false_and]
      | cons c cs =>
          show (o == c && op.isPrefixOf (cs ++ s :: y)) = (o == c && op.isPrefixOf cs)
          rw [ih fun hmem => hop (List.mem_cons_of_mem o hmem)]

omit hs in
/-- No operator goes over one of these characters. -/
theorem operators_break {op : String} (hop : op ∈ operators) :
    op.toList ≠ [] ∧ ∀ s ∈ ['/', ' ', '"', '\'', '\r', '\n'], s ∉ op.toList.tail := by
  have hall : (operators.all fun op => !op.toList.isEmpty &&
      ['/', ' ', '"', '\'', '\r', '\n'].all fun s => !op.toList.tail.contains s) = true := by
    decide
  have hbreaks := List.all_eq_true.1 hall op hop
  rw [Bool.and_eq_true, List.all_eq_true] at hbreaks
  refine ⟨by simpa using hbreaks.1, fun s hs => ?_⟩
  have hno := hbreaks.2 s hs
  rwa [Bool.not_eq_true', List.contains_eq_mem, decide_eq_false_iff_not] at hno

theorem operator?_break (c : Char) (cs : List Char) :
    operator? (c :: (cs ++ s :: y)) = operator? (c :: cs) := by
  refine List.find?_congr fun op hop => ?_
  obtain ⟨hne, hbreaks⟩ := operators_break hop
  have hbreak : s ∉ op.toList.tail := by
    refine hbreaks s ?_
    rcases hs with (rfl | rfl | rfl | rfl) | rfl | rfl <;> decide
  cases hcs : op.toList with
  | nil => exact absurd hcs hne
  | cons o os =>
      rw [hcs] at hbreak
      have hbreak : s ∉ os := hbreak
      show (o == c && os.isPrefixOf (cs ++ s :: y)) = (o == c && os.isPrefixOf cs)
      rw [isPrefixOf_break hbreak]

end Breaks

/-! ## Tokens -/

/-- The first token of a text that begins with neither a blank nor a comment nor a quote. -/
def symbolLexeme (c : Char) (rest : List Char) : TokenKind × Nat :=
  match numberLength? c rest with
  | some n => (.other, n)
  | none =>
    if isIdentStart c then (.identifier, spanLength isIdentChar rest)
    else if c == '.' && followedBy '.' '.' rest then (.punctuation, 2)
    else if isPunctuationChar c then (.punctuation, 0)
    else
      match operator? (c :: rest) with
      | some op => (.operator, op.length - 1)
      | none => (.other, 0)

theorem symbolLexeme_break {s : Char} (hs : IsStop s) (c : Char) (cs y : List Char) :
    symbolLexeme c (cs ++ s :: y) = symbolLexeme c cs := by
  have hdot : s ≠ '.' := by
    rcases hs with (rfl | rfl | rfl | rfl) | rfl | rfl <;> decide
  rw [symbolLexeme, symbolLexeme, numberLength?_break hs, spanLength_break (isIdentChar_break hs),
    followedBy_break hdot, operator?_break hs]

/-- What does not come first does not do so either if less of the text is there. -/
theorem head?_ne_of_append {p u : List Char} {d : Char} (h : (p ++ u).head? ≠ some d) :
    p.head? ≠ some d := by
  intro hp
  obtain ⟨q, rfl⟩ := List.head?_eq_some_iff.1 hp
  exact h rfl

/-- Neither a quote nor a comment begins here. -/
theorem lexeme_of_symbol {c : Char} {rest : List Char} (hblank : isBlank c = false)
    (hquote : c ≠ '"') (hchar : c ≠ '\'')
    (hslash : c = '/' → rest.head? ≠ some '/' ∧ rest.head? ≠ some '*') :
    lexeme c rest = .ok (symbolLexeme c rest) := by
  have hline : ¬ (c == '/' && rest.head? == some '/') = true := by
    rw [Bool.and_eq_true, beq_iff_eq, beq_iff_eq]
    exact fun h => (hslash h.1).1 h.2
  have hblock : ¬ (c == '/' && rest.head? == some '*') = true := by
    rw [Bool.and_eq_true, beq_iff_eq, beq_iff_eq]
    exact fun h => (hslash h.1).2 h.2
  have hquote' : (c == '"') = false := beq_eq_false_iff_ne.2 hquote
  have hchar' : (c == '\'') = false := beq_eq_false_iff_ne.2 hchar
  rw [lexeme, hblank, if_neg Bool.false_ne_true, if_neg hline, if_neg hblock, hquote', hchar',
    Bool.false_and, Bool.false_and, if_neg Bool.false_ne_true, if_neg Bool.false_ne_true,
    if_neg Bool.false_ne_true, symbolLexeme]
  cases numberLength? c rest with
  | some n => rfl
  | none =>
      cases isIdentStart c with
      | true => rfl
      | false =>
          cases c == '.' && followedBy '.' '.' rest with
          | true => rfl
          | false =>
              cases isPunctuationChar c with
              | true => rfl
              | false => cases operator? (c :: rest) <;> rfl

/-! ## Blanks, comments and literals -/

theorem lexeme_blank {c : Char} (hc : isBlank c = true) (rest : List Char) :
    lexeme c rest = .ok (.whitespace, spanLength isBlank rest) := by
  rw [lexeme, if_pos hc]

theorem lexeme_lineComment (rest : List Char) :
    lexeme '/' ('/' :: rest) = .ok (.lineComment, spanLength (· != '\n') ('/' :: rest)) := rfl

theorem lexeme_blockComment (rest : List Char) :
    lexeme '/' ('*' :: rest) =
      closed .blockComment .blockComment ((commentEnd? rest).map (1 + ·)) := rfl

/-- Does a quote in front of `rest` open a text block? -/
def opensBlock (rest : List Char) : Bool := followedBy '"' '"' rest && opensTextBlock (rest.drop 2)

theorem lexeme_quote (rest : List Char) :
    lexeme '"' rest =
      if opensBlock rest then
        closed .textBlock .stringLiteral ((textBlockEnd? (rest.drop 2)).map (2 + ·))
      else closed .stringLiteral .stringLiteral (quoteEnd? '"' rest) := rfl

theorem lexeme_charQuote (rest : List Char) :
    lexeme '\'' rest = closed .characterLiteral .other (quoteEnd? '\'' rest) := rfl

theorem closed_eq_ok {construct : Construct} {kind kind' : TokenKind} {o : Option Nat} {n : Nat} :
    closed construct kind o = .ok (kind', n) → kind' = kind ∧ o = some n := by
  intro h
  cases o with
  | none => cases h
  | some m =>
      cases h
      exact ⟨rfl, rfl⟩

/-- A construct that is opened by `k` more characters and closed within the text. -/
theorem closed_replace {search : List Char → Option Nat}
    (hsearch : ∀ cs n, search cs = some n → ∀ rest, search (cs.take n ++ rest) = some n)
    {construct : Construct} {kind kind' : TokenKind} {p u : List Char} {k n : Nat}
    (h : closed construct kind ((search (p ++ u)).map (k + ·)) = .ok (kind', n))
    (hn : n ≤ k + p.length) (v : List Char) :
    closed construct kind ((search (p ++ v)).map (k + ·)) = .ok (kind', n) := by
  obtain ⟨rfl, ho⟩ := closed_eq_ok h
  obtain ⟨m, hm, rfl⟩ := Option.map_eq_some_iff.1 ho
  rw [search_replace hsearch hm (Nat.le_of_add_le_add_left hn) v]
  rfl

theorem closed_quote_replace {construct : Construct} {kind kind' : TokenKind} {quote : Char}
    {p u : List Char} {n : Nat} (h : closed construct kind (quoteEnd? quote (p ++ u)) = .ok (kind', n))
    (hn : n ≤ p.length) (v : List Char) :
    closed construct kind (quoteEnd? quote (p ++ v)) = .ok (kind', n) := by
  obtain ⟨rfl, ho⟩ := closed_eq_ok h
  rw [search_replace (fun _ _ h => quoteEnd?_append h) ho hn v]
  rfl

theorem exists_of_followedBy {a b : Char} {cs : List Char} (h : followedBy a b cs = true) :
    ∃ q, cs = a :: b :: q := by
  match cs with
  | [] => cases h
  | [_] => cases h
  | c :: d :: q =>
      obtain ⟨hc, hd⟩ := Bool.and_eq_true_iff.1 h
      exact ⟨q, by rw [beq_iff_eq.1 hc, beq_iff_eq.1 hd]⟩

theorem mem_take_of_quoteEnd? {quote : Char} {cs : List Char} {n : Nat}
    (h : quoteEnd? quote cs = some n) : quote ∈ cs.take n := by
  fun_induction quoteEnd? quote cs generalizing n with
  | case1 => cases h
  | case2 => cases h
  | case3 c rest _ ih =>
      obtain ⟨m, hm, rfl⟩ := Option.map_eq_some_iff.1 h
      exact List.mem_cons_of_mem _ (List.mem_cons_of_mem _ (ih hm))
  | case4 => cases h
  | case5 c rest _ _ hquote =>
      cases h
      rw [beq_iff_eq.1 hquote]
      exact List.mem_cons_self
  | case6 c rest _ _ _ ih =>
      obtain ⟨m, hm, rfl⟩ := Option.map_eq_some_iff.1 h
      exact List.mem_cons_of_mem _ (ih hm)

theorem mem_take_of_textBlockEnd? {cs : List Char} {n : Nat} (h : textBlockEnd? cs = some n) :
    '"' ∈ cs.take n := by
  fun_induction textBlockEnd? cs generalizing n with
  | case1 c rest ih =>
      obtain ⟨m, hm, rfl⟩ := Option.map_eq_some_iff.1 h
      exact List.mem_cons_of_mem _ (List.mem_cons_of_mem _ (ih hm))
  | case2 =>
      cases h
      exact List.mem_cons_self
  | case3 => cases h
  | case4 c rest _ _ _ ih =>
      obtain ⟨m, hm, rfl⟩ := Option.map_eq_some_iff.1 h
      exact List.mem_cons_of_mem _ (ih hm)
  | case5 => cases h

/-- A literal holds the quote that closes it. -/
theorem mem_take_of_lexeme_quote {rest : List Char} {kind : TokenKind} {n : Nat}
    (h : lexeme '"' rest = .ok (kind, n)) : '"' ∈ rest.take n := by
  rw [lexeme_quote] at h
  split at h
  · next hblock =>
      obtain ⟨q, rfl⟩ := exists_of_followedBy (Bool.and_eq_true_iff.1 hblock).1
      obtain ⟨m, -, rfl⟩ := Option.map_eq_some_iff.1 (closed_eq_ok h).2
      rw [Nat.add_comm]
      exact List.mem_cons_self
  · exact mem_take_of_quoteEnd? (closed_eq_ok h).2

/-- A stretch that does not reach a character of its class ends before it. -/
theorem spanLength_replace {p : Char → Bool} {s : Char} {cs y : List Char} (hp : p s = true)
    (h : spanLength p (cs ++ s :: y) ≤ cs.length) (v : List Char) :
    spanLength p (cs ++ v) = spanLength p (cs ++ s :: y) := by
  rw [spanLength, spanLength, List.takeWhile_append, List.takeWhile_append]
  rw [spanLength, List.takeWhile_append] at h
  split at h
  · rw [List.takeWhile_cons, if_pos hp, List.length_append, List.length_cons] at h
    omega
  · next hends => rw [if_neg hends, if_neg hends]

/-- Blanks after three quotes, before the end of the line. -/
def isGap (c : Char) : Bool := c == ' ' || c == '\t' || c == '\x0c' || c == '\r'

theorem opensTextBlock_eq (cs : List Char) :
    opensTextBlock cs = ((cs.dropWhile isGap).head? == some '\n') := rfl

/-- Three quotes open a text block or not, whatever stands behind the end of the gap. -/
theorem opensTextBlock_replace {q : List Char} {s : Char} (hs : isGap s = false) (hq : s ∈ q)
    (u v : List Char) : opensTextBlock (q ++ u) = opensTextBlock (q ++ v) := by
  have hne : q.dropWhile isGap ≠ [] := by
    intro hnil
    have hgap : isGap s = true := List.dropWhile_eq_nil_iff.1 hnil s hq
    rw [hs] at hgap
    cases hgap
  obtain ⟨d, ds, hd⟩ := List.exists_cons_of_ne_nil hne
  rw [opensTextBlock_eq, opensTextBlock_eq, List.dropWhile_append, List.dropWhile_append, hd]
  rfl

/-! ## One break for another -/

theorem IsBreak.ne_star {s : Char} (hs : IsBreak s) : s ≠ '*' := by
  rcases hs with rfl | rfl | rfl | rfl <;> decide

theorem IsBreak.ne_newline {s : Char} (hs : IsBreak s) : (s != '\n') = true := by
  rcases hs with rfl | rfl | rfl | rfl <;> decide

/-- Three quotes open a text block or not, where neither break is a quote. -/
theorem opensBlock_replace {s s' : Char} {p : List Char} (hs : s ≠ '"') (hs' : s' ≠ '"')
    (hquotes : ∀ q, p = '"' :: '"' :: q → '"' ∈ q) (y z : List Char) :
    opensBlock (p ++ s :: y) = opensBlock (p ++ s' :: z) := by
  rw [opensBlock, opensBlock, followedBy_break hs, followedBy_break hs']
  cases hthree : followedBy '"' '"' p with
  | false => rfl
  | true =>
      obtain ⟨q, rfl⟩ := exists_of_followedBy hthree
      exact congrArg (true && ·) (opensTextBlock_replace rfl (hquotes q rfl) (s :: y) (s' :: z))

section Replace

variable {c s s' : Char} {p y z : List Char} {kind : TokenKind} {n : Nat}

/-- A literal that ends before the break, and opens a text block or not as before. -/
theorem lexeme_quote_replace (h : lexeme '"' (p ++ s :: y) = .ok (kind, n)) (hn : n ≤ p.length)
    (hopens : opensBlock (p ++ s :: y) = opensBlock (p ++ s' :: z)) :
    lexeme '"' (p ++ s' :: z) = .ok (kind, n) := by
  rw [lexeme_quote] at h
  rw [lexeme_quote, ← hopens]
  split at h
  · next hblock =>
      rw [if_pos hblock]
      obtain ⟨m, -, hm⟩ := Option.map_eq_some_iff.1 (closed_eq_ok h).2
      match p with
      | [] | [_] =>
          simp only [List.length_cons, List.length_nil] at hn
          omega
      | d :: e :: q =>
          rw [List.length_cons, List.length_cons] at hn
          exact closed_replace (p := q) (fun _ _ h => textBlockEnd?_append h) h (by omega) _
  · next hstring =>
      rw [if_neg hstring]
      exact closed_quote_replace h hn _

/-- A number, a word or a symbol. -/
theorem lexeme_symbol_replace (hs : IsBreak s) (hs' : IsBreak s') (hblank : isBlank c = false)
    (hquote : c ≠ '"') (hchar : c ≠ '\'')
    (hslash : c = '/' → ∀ w ∈ [s :: y, s' :: z],
      (p ++ w).head? ≠ some '/' ∧ (p ++ w).head? ≠ some '*') :
    lexeme c (p ++ s' :: z) = lexeme c (p ++ s :: y) := by
  rw [lexeme_of_symbol hblank hquote hchar fun hc => hslash hc _ (by simp),
    lexeme_of_symbol hblank hquote hchar fun hc => hslash hc _ (by simp),
    symbolLexeme_break (.inl hs'), symbolLexeme_break (.inl hs)]

/-- A comment that ends before the break, or a sign of division. -/
theorem lexeme_slash_replace (hs : IsBreak s) (hs' : IsBreak s') (hslash : s' = '/' → s = '/')
    (h : lexeme '/' (p ++ s :: y) = .ok (kind, n)) (hn : n ≤ p.length) :
    lexeme '/' (p ++ s' :: z) = .ok (kind, n) := by
  cases p with
  | nil =>
      by_cases hline : s = '/'
      · -- the slash would have begun a comment, and belong to it
        subst hline
        rw [List.nil_append, lexeme_lineComment] at h
        cases h
        cases hn
      · rw [← h]
        refine lexeme_symbol_replace hs hs' rfl (by decide) (by decide) fun _ w hw => ?_
        rw [List.mem_cons, List.mem_singleton] at hw
        rcases hw with rfl | rfl
        · exact ⟨fun h => hline (Option.some.inj h), fun h => hs.ne_star (Option.some.inj h)⟩
        · exact ⟨fun h => hline (hslash (Option.some.inj h)),
            fun h => hs'.ne_star (Option.some.inj h)⟩
  | cons d p =>
      by_cases hline : d = '/'
      · subst hline
        rw [List.cons_append, lexeme_lineComment] at h
        rw [List.cons_append, lexeme_lineComment]
        cases h
        rw [← List.cons_append, spanLength_replace (p := (· != '\n')) hs.ne_newline hn (s' :: z)]
        rfl
      · by_cases hstar : d = '*'
        · subst hstar
          rw [List.cons_append, lexeme_blockComment] at h
          rw [List.cons_append, lexeme_blockComment]
          rw [List.length_cons, Nat.add_comm] at hn
          exact closed_replace (fun _ _ h => commentEnd?_append h) h hn _
        · rw [← h]
          refine lexeme_symbol_replace (p := d :: p) hs hs' rfl (by decide) (by decide)
            fun _ w _ => ?_
          exact ⟨fun h => hline (Option.some.inj h), fun h => hstar (Option.some.inj h)⟩

/-- The token before a break is the same before another break, if it ends there or before. -/
theorem lexeme_replace (hs : IsBreak s) (hs' : IsBreak s') (hslash : s' = '/' → s = '/')
    (hblank : isBlank c = false) (h : lexeme c (p ++ s :: y) = .ok (kind, n)) (hn : n ≤ p.length)
    (hopens : c = '"' → opensBlock (p ++ s :: y) = opensBlock (p ++ s' :: z)) :
    lexeme c (p ++ s' :: z) = .ok (kind, n) := by
  by_cases hquote : c = '"'
  · subst hquote
    exact lexeme_quote_replace h hn (hopens rfl)
  by_cases hchar : c = '\''
  · subst hchar
    rw [lexeme_charQuote] at h ⊢
    exact closed_quote_replace h hn _
  by_cases hsign : c = '/'
  · subst hsign
    exact lexeme_slash_replace hs hs' hslash h hn
  · rw [← h]
    exact lexeme_symbol_replace hs hs' hblank hquote hchar fun hc => absurd hc hsign

end Replace

end Lexer

end EmbeddedSql
