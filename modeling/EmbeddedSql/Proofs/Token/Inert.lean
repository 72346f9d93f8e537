/-
# Quoted and commented text is inert

What a comment or a literal encloses means nothing to the tokens around it: it can be exchanged for
anything that makes a token of the same form when it stands alone, with as many newlines, and no other
token changes (`tokenize_withText`).

The exchange is seen from three sides.

| | |
| :-- | :-- |
| the tokens before | look no further than the mark that opens the token, which stays (`lexeme_beforeMark`) |
| the token | ends where it ended when it stood alone (`Encloses.append`) |
| the tokens after | are cut from the same text, on the same line |

Only quotes are delicate.  Three of them may open a text block, and they need not belong to one token: an
empty literal may stand before a literal, and then what decides is the inside of the second, and an
empty literal may be put there, and then it is what stands behind.  Neither opens a text block, because
no literal begins with a quote that only blanks part from the end of the line
(`opensTextBlock_eq_false_of_lexeme`).
-/
import EmbeddedSql.Proofs.Token.Cutting
import EmbeddedSql.Proofs.Token.Lookahead
import EmbeddedSql.Token.Literal

namespace EmbeddedSql

/-! ## Forms -/

/-- The forms of what is quoted or commented out. -/
inductive InertForm where
  | lineComment
  | blockComment
  | stringLiteral
  | textBlock
  | characterLiteral
deriving DecidableEq, Repr

def InertForm.kind : InertForm → TokenKind
  | lineComment => .lineComment
  | blockComment => .blockComment
  | stringLiteral => .stringLiteral
  | textBlock => .stringLiteral
  | characterLiteral => .other

/-- The form of a comment or a literal; other tokens have none. -/
def Token.inertForm? (t : Token) : Option InertForm :=
  match t.kind with
  | .lineComment => some .lineComment
  | .blockComment => some .blockComment
  | .stringLiteral =>
    some (if Literal.isTextBlock t.text.toList then .textBlock else .stringLiteral)
  | .other => if t.isCharLiteral then some .characterLiteral else none
  | _ => none

namespace Lexer

/-- A text that begins with `c` begins with a comment or a literal of a form; how many characters of
the others belong to it. -/
inductive Encloses : InertForm → Char → List Char → Nat → Prop
  | lineComment {q : List Char} :
      Encloses .lineComment '/' ('/' :: q) (spanLength (· != '\n') ('/' :: q))
  | blockComment {q : List Char} {m : Nat} : commentEnd? q = some m →
      Encloses .blockComment '/' ('*' :: q) (1 + m)
  | stringLiteral {rest : List Char} {n : Nat} : opensBlock rest = false →
      quoteEnd? '"' rest = some n → Encloses .stringLiteral '"' rest n
  | textBlock {q : List Char} {m : Nat} : opensTextBlock q = true → textBlockEnd? q = some m →
      Encloses .textBlock '"' ('"' :: '"' :: q) (2 + m)
  | characterLiteral {rest : List Char} {n : Nat} : quoteEnd? '\'' rest = some n →
      Encloses .characterLiteral '\'' rest n

variable {form : InertForm} {line last mid n : Nat} {a c : Char} {cs left p rest u v : List Char}
  {kind : TokenKind} {before after tokens : List Token} {t : Token}

theorem Encloses.lexeme_eq (h : Encloses form c rest n) : lexeme c rest = .ok (form.kind, n) := by
  cases h with
  | lineComment => exact lexeme_lineComment _
  | blockComment hend =>
      rw [lexeme_blockComment, hend]
      rfl
  | stringLiteral hopens hend =>
      rw [lexeme_quote, hopens, hend]
      rfl
  | @textBlock q _ hopens hend =>
      have hblock : opensBlock ('"' :: '"' :: q) = true := hopens
      rw [lexeme_quote, hblock, if_pos rfl, List.drop_succ_cons, List.drop_succ_cons,
        List.drop_zero, hend]
      rfl
  | characterLiteral hend =>
      rw [lexeme_charQuote, hend]
      rfl

/-- The mark that opens a comment or a literal. -/
def IsMark (a : Char) : Prop := a = '/' ∨ a = '"' ∨ a = '\''

theorem IsMark.isBreak (h : IsMark a) : IsBreak a := by
  rcases h with rfl | rfl | rfl
  · exact .inl rfl
  · exact .inr (.inr (.inl rfl))
  · exact .inr (.inr (.inr rfl))

theorem IsMark.isBlank (h : IsMark a) : isBlank a = false := by
  rcases h with rfl | rfl | rfl <;> rfl

theorem IsMark.isGap (h : IsMark a) : isGap a = false := by
  rcases h with rfl | rfl | rfl <;> rfl

theorem Encloses.isMark (h : Encloses form c rest n) : IsMark c := by
  cases h with
  | lineComment => exact .inl rfl
  | blockComment => exact .inl rfl
  | stringLiteral => exact .inr (.inl rfl)
  | textBlock => exact .inr (.inl rfl)
  | characterLiteral => exact .inr (.inr rfl)

/-- Texts of one form have one mark. -/
theorem Encloses.mark_eq {d : Char} {rest' : List Char} {n' : Nat} (h : Encloses form c rest n)
    (h' : Encloses form d rest' n') : d = c := by
  cases h <;> cases h' <;> rfl

/-! ## The form of a token is the way in which it is cut -/

/-- A word, a number or a symbol has no form. -/
theorem inertForm?_of_symbol (hchar : c ≠ '\'') (h : symbolLexeme c rest = (kind, n)) :
    (tokenAt line c rest kind n).inertForm? = none := by
  have hother : (tokenAt line c rest .other n).inertForm? = none := by
    have hhead : (tokenAt line c rest .other n).isCharLiteral = false := by
      show ((String.ofList (c :: rest.take n)).toList.head? == some '\'') = false
      rw [String.toList_ofList, beq_eq_false_iff_ne]
      exact fun hc => hchar (Option.some.inj hc)
    show (if (tokenAt line c rest .other n).isCharLiteral then _ else none) = none
    rw [hhead]
    rfl
  rw [symbolLexeme] at h
  split at h
  · cases h
    exact hother
  split at h
  · cases h
    rfl
  split at h
  · cases h
    rfl
  split at h
  · cases h
    rfl
  split at h
  · cases h
    rfl
  · cases h
    exact hother

/-- A string literal does not look like a text block. -/
theorem isTextBlock_of_string (h : quoteEnd? '"' rest = some n) :
    Literal.isTextBlock ('"' :: rest.take n) = false := by
  refine Bool.eq_false_iff.2 fun hblock => ?_
  obtain ⟨hquotes, -⟩ := Bool.and_eq_true_iff.1 hblock
  have hprefix : ['"', '"'] <+: rest.take n :=
    (List.cons_prefix_cons.1 (List.isPrefixOf_iff_prefix.1 hquotes)).2
  obtain ⟨q, hq⟩ := hprefix.trans (List.take_prefix n rest)
  -- the second quote closes the literal
  subst hq
  obtain rfl : 1 = n := Option.some.inj h
  have := hprefix.length_le
  simp at this

/-- A text block does. -/
theorem isTextBlock_of_block {q : List Char} {m : Nat} (h : textBlockEnd? q = some m) :
    Literal.isTextBlock ('"' :: ('"' :: '"' :: q).take (2 + m)) = true := by
  have hm := three_le_of_textBlockEnd? h
  have hlength : 6 ≤ ('"' :: '"' :: '"' :: q.take m).length := by
    simp only [List.length_cons, List.length_take_of_le (textBlockEnd?_le h)]
    omega
  rw [Nat.add_comm, List.take_succ_cons, List.take_succ_cons]
  exact Bool.and_eq_true_iff.2 ⟨rfl, decide_eq_true hlength⟩

theorem inertForm?_of_quote (h : lexeme '"' rest = .ok (kind, n))
    (hform : (tokenAt line '"' rest kind n).inertForm? = some form) : Encloses form '"' rest n := by
  have hliteral : ∀ b, Literal.isTextBlock ('"' :: rest.take n) = b → kind = .stringLiteral →
      form = if b then .textBlock else .stringLiteral := by
    rintro b hb rfl
    have htext : (tokenAt line '"' rest .stringLiteral n).text.toList = '"' :: rest.take n :=
      String.toList_ofList
    change some (if Literal.isTextBlock
      (tokenAt line '"' rest .stringLiteral n).text.toList then _ else _) = _ at hform
    rw [htext, hb] at hform
    exact (Option.some.inj hform).symm
  rw [lexeme_quote] at h
  split at h
  · next hblock =>
      obtain ⟨hkind, hn⟩ := closed_eq_ok h
      obtain ⟨m, hm, rfl⟩ := Option.map_eq_some_iff.1 hn
      obtain ⟨hthree, hopens⟩ := Bool.and_eq_true_iff.1 hblock
      obtain ⟨q, rfl⟩ := exists_of_followedBy hthree
      obtain rfl := hliteral true (isTextBlock_of_block hm) hkind
      exact .textBlock hopens hm
  · next hblock =>
      obtain ⟨hkind, hn⟩ := closed_eq_ok h
      obtain rfl := hliteral false (isTextBlock_of_string hn) hkind
      exact .stringLiteral (Bool.eq_false_iff.2 hblock) hn

/-- A token of a form is cut as one. -/
theorem encloses_of_inertForm? (h : lexeme c rest = .ok (kind, n))
    (hform : (tokenAt line c rest kind n).inertForm? = some form) : Encloses form c rest n := by
  cases hblank : isBlank c with
  | true =>
      rw [lexeme_blank hblank] at h
      cases h
      cases hform
  | false =>
      by_cases hquote : c = '"'
      · subst hquote
        exact inertForm?_of_quote h hform
      by_cases hchar : c = '\''
      · subst hchar
        rw [lexeme_charQuote] at h
        obtain ⟨rfl, hn⟩ := closed_eq_ok h
        have hliteral : (tokenAt line '\'' rest .other n).isCharLiteral = true := by
          show ((String.ofList ('\'' :: rest.take n)).toList.head? == some '\'') = true
          rw [String.toList_ofList]
          rfl
        change (if (tokenAt line '\'' rest .other n).isCharLiteral then _ else _) = _ at hform
        rw [hliteral] at hform
        cases hform
        exact .characterLiteral hn
      by_cases hline : c = '/' ∧ rest.head? = some '/'
      · obtain ⟨rfl, hhead⟩ := hline
        obtain ⟨q, rfl⟩ := List.head?_eq_some_iff.1 hhead
        rw [lexeme_lineComment] at h
        cases h
        cases hform
        exact .lineComment
      by_cases hblock : c = '/' ∧ rest.head? = some '*'
      · obtain ⟨rfl, hhead⟩ := hblock
        obtain ⟨q, rfl⟩ := List.head?_eq_some_iff.1 hhead
        rw [lexeme_blockComment] at h
        obtain ⟨rfl, hn⟩ := closed_eq_ok h
        obtain ⟨m, hm, rfl⟩ := Option.map_eq_some_iff.1 hn
        cases hform
        exact .blockComment hm
      · rw [lexeme_of_symbol hblank hquote hchar fun hc =>
          ⟨fun hhead => hline ⟨hc, hhead⟩, fun hhead => hblock ⟨hc, hhead⟩⟩] at h
        rw [inertForm?_of_symbol hchar (Except.ok.inj h)] at hform
        cases hform

/-! ## A quote before the end of the line -/

/-- Nothing but blanks comes before the end of the line. -/
theorem not_closed_of_opensTextBlock (h : opensTextBlock cs = true) :
    quoteEnd? '"' cs = none ∧ opensBlock cs = false := by
  rw [opensTextBlock_eq] at h
  induction cs with
  | nil => cases h
  | cons c cs ih =>
      rw [List.dropWhile_cons] at h
      split at h
      · next hgap =>
          have hplain : c ≠ '"' ∧ c ≠ '\\' ∧ c ≠ '\n' := by
            refine ⟨?_, ?_, ?_⟩ <;> rintro rfl <;> cases hgap
          obtain ⟨hquote, hescape, hline⟩ := hplain
          refine ⟨?_, ?_⟩
          · rw [quoteEnd?]
            · simp [hquote, hescape, hline, (ih h).1]
            · exact fun _ _ hc _ => hescape hc
          · cases cs with
            | nil => rfl
            | cons d cs =>
                show ((c == '"' && d == '"') && _) = false
                rw [beq_eq_false_iff_ne.2 hquote, Bool.false_and, Bool.false_and]
      · obtain rfl : c = '\n' := by simpa using h
        refine ⟨rfl, ?_⟩
        cases cs <;> rfl

/-- No literal begins with a quote that only blanks part from the end of the line. -/
theorem opensTextBlock_eq_false_of_lexeme (h : lexeme '"' rest = .ok (kind, n)) :
    opensTextBlock rest = false := by
  refine Bool.eq_false_iff.2 fun hopens => ?_
  obtain ⟨hend, hblock⟩ := not_closed_of_opensTextBlock hopens
  rw [lexeme_quote, hblock, hend] at h
  cases h

/-! ## The tokens before -/

theorem opensBlock_beforeMark (ha : IsMark a) (hp : p ≠ [])
    (hu : a = '"' → opensTextBlock u = false) (hv : a = '"' → opensTextBlock v = false) :
    opensBlock (p ++ a :: u) = opensBlock (p ++ a :: v) := by
  match p with
  | [] => exact absurd rfl hp
  | [d] =>
      -- the mark may be the third quote in a row
      show ((d == '"' && a == '"') && opensTextBlock u) = ((d == '"' && a == '"') && opensTextBlock v)
      by_cases hquote : a = '"'
      · rw [hu hquote, hv hquote]
      · rw [beq_eq_false_iff_ne.2 hquote, Bool.and_false, Bool.false_and, Bool.false_and]
  | d :: e :: q =>
      have hsame : opensTextBlock (q ++ a :: u) = opensTextBlock (q ++ a :: v) := by
        rw [List.append_cons q a u, List.append_cons q a v]
        exact opensTextBlock_replace ha.isGap (List.mem_append_right q (List.mem_singleton_self a)) u v
      exact congrArg ((d == '"' && e == '"') && ·) hsame

/-- The token before a mark is the same whatever the mark begins. -/
theorem lexeme_beforeMark (ha : IsMark a) (hu : a = '"' → opensTextBlock u = false)
    (hv : a = '"' → opensTextBlock v = false) (h : lexeme c (p ++ a :: u) = .ok (kind, n))
    (hn : n ≤ p.length) : lexeme c (p ++ a :: v) = .ok (kind, n) := by
  cases hblank : isBlank c with
  | true =>
      rw [lexeme_blank hblank, spanLength_break ha.isBlank] at h
      rw [lexeme_blank hblank, spanLength_break ha.isBlank]
      exact h
  | false =>
      refine lexeme_replace ha.isBreak ha.isBreak id hblank h hn fun hc => ?_
      subst hc
      refine opensBlock_beforeMark ha ?_ hu hv
      -- a literal takes more than its mark
      rintro rfl
      have hmem := mem_take_of_lexeme_quote h
      rw [Nat.le_zero.1 hn] at hmem
      cases hmem

theorem Cuts.beforeMark (h : Cuts line cs before mid (a :: u)) (ha : IsMark a)
    (hu : a = '"' → opensTextBlock u = false) (hv : a = '"' → opensTextBlock v = false) :
    Cuts line (textOf before ++ a :: v) before mid (a :: v) := by
  generalize hleft : a :: u = left at h
  induction h with
  | done => exact .done
  | @token line last n c rest left kind tokens hl hcuts ih =>
      subst hleft
      have hn : n ≤ rest.length := lexeme_le hl
      have hrest : rest = (rest.take n ++ textOf tokens) ++ a :: u := by
        rw [List.append_assoc, ← hcuts.text, List.take_append_drop]
      have hsame : lexeme c (rest.take n ++ (textOf tokens ++ a :: v)) = .ok (kind, n) := by
        rw [hrest] at hl
        rw [← List.append_assoc]
        refine lexeme_beforeMark ha hu hv hl ?_
        rw [List.length_append, List.length_take_of_le hn]
        exact Nat.le_add_right _ _
      have hnext := ih rfl
      rw [← tokenAt_take_append hn kind (textOf tokens ++ a :: v)] at hnext
      rw [textOf_tokenAt, List.append_assoc, List.cons_append,
        ← tokenAt_take_append hn kind (textOf tokens ++ a :: v)]
      refine .token hsame ?_
      rwa [List.drop_left' (List.length_take_of_le hn)]

/-! ## The token -/

/-- What can come after a comment or a literal. -/
structure CanFollow (form : InertForm) (tail : List Char) : Prop where
  newline : form = .lineComment → ∀ d ∈ tail.head?, d = '\n'
  quote : ∀ w, tail = '"' :: w → opensTextBlock w = false

theorem CanFollow.of_cuts (h : Encloses form c rest n) (hcuts : Cuts line (rest.drop n) after last []) :
    CanFollow form (rest.drop n) where
  newline hform d hd := by
    subst hform
    cases h with
    | @lineComment q =>
        have hstop := List.head?_dropWhile_not (· != '\n') ('/' :: q)
        rw [← drop_spanLength, Option.mem_def.1 hd] at hstop
        simpa using hstop
  quote w hw := by
    rw [hw] at hcuts
    cases hcuts with
    | token hl _ => exact opensTextBlock_eq_false_of_lexeme hl

/-- A literal that stands alone opens no text block with a quote behind it. -/
theorem opensBlock_append {tail : List Char} (h : quoteEnd? '"' rest = some n)
    (hn : n = rest.length) (htail : CanFollow form tail) : opensBlock (rest ++ tail) = false := by
  match rest with
  | [] => cases h
  | [d] =>
      cases tail with
      | nil => rfl
      | cons a w =>
          show ((d == '"' && a == '"') && opensTextBlock w) = false
          by_cases hquote : a = '"'
          · subst hquote
            rw [htail.quote w rfl, Bool.and_false]
          · rw [beq_eq_false_iff_ne.2 hquote, Bool.and_false, Bool.false_and]
  | d :: e :: q =>
      have hquote : d ≠ '"' := by
        -- it would close the literal
        rintro rfl
        obtain rfl : 1 = n := Option.some.inj h
        simp at hn
      show ((d == '"' && e == '"') && opensTextBlock (q ++ tail)) = false
      rw [beq_eq_false_iff_ne.2 hquote, Bool.false_and, Bool.false_and]

theorem opensTextBlock_append {q : List Char} (h : opensTextBlock q = true) (tail : List Char) :
    opensTextBlock (q ++ tail) = true := by
  have hline : '\n' ∈ q := by
    rw [opensTextBlock_eq, beq_iff_eq] at h
    exact (List.dropWhile_sublist isGap).subset (List.mem_of_head? h)
  rw [opensTextBlock_replace (by decide) hline tail [], List.append_nil, h]

/-- What stands alone ends at the same place in front of what can follow it. -/
theorem Encloses.append (h : Encloses form c rest n) (hn : n = rest.length) {tail : List Char}
    (htail : CanFollow form tail) : Encloses form c (rest ++ tail) n := by
  have hwhole : rest.take n = rest := by rw [hn, List.take_length]
  cases h with
  | @lineComment q =>
      have hspan : spanLength (· != '\n') ('/' :: q ++ tail) = spanLength (· != '\n') ('/' :: q) := by
        cases tail with
        | nil => rw [List.append_nil]
        | cons d w =>
            obtain rfl := htail.newline rfl d rfl
            exact spanLength_break rfl _
      rw [← hspan]
      exact .lineComment
  | @blockComment q m hend =>
      have hq : m = q.length := by
        rw [List.length_cons] at hn
        omega
      have hsame := commentEnd?_append hend tail
      rw [hq, List.take_length, ← hq] at hsame
      exact .blockComment hsame
  | stringLiteral hopens hend =>
      have hsame := quoteEnd?_append hend tail
      rw [hwhole] at hsame
      exact .stringLiteral (opensBlock_append hend hn htail) hsame
  | @textBlock q m hopens hend =>
      have hq : m = q.length := by
        rw [List.length_cons, List.length_cons] at hn
        omega
      have hsame := textBlockEnd?_append hend tail
      rw [hq, List.take_length, ← hq] at hsame
      exact .textBlock (opensTextBlock_append hopens tail) hsame
  | characterLiteral hend =>
      have hsame := quoteEnd?_append hend tail
      rw [hwhole] at hsame
      exact .characterLiteral hsame

/-! ## The exchange -/

/-- A token that stands alone. -/
theorem Cuts.exists_encloses (h : Cuts line cs [t] last []) (hform : t.inertForm? = some form) :
    ∃ c rest, cs = c :: rest ∧ Encloses form c rest rest.length := by
  cases h with
  | @token _ _ n c rest _ kind _ hl hcuts =>
      refine ⟨c, rest, rfl, ?_⟩
      generalize hleft : rest.drop n = left at hcuts
      cases hcuts
      have hn : n = rest.length := Nat.le_antisymm (lexeme_le hl) (List.drop_eq_nil_iff.1 hleft)
      have hencloses := encloses_of_inertForm? hl hform
      rwa [hn] at hencloses

/-- A token gives way to another text of its form. -/
theorem Cuts.exchange (h : Cuts line cs (before ++ t :: after) last [])
    (ht : t.inertForm? = some form) (ha : Encloses form a u u.length)
    (hlines : (a :: u).count '\n' = t.text.toList.count '\n') :
    Cuts line (textOf before ++ (a :: u ++ textOf after))
      (before ++ { t with text := String.ofList (a :: u) } :: after) last [] := by
  obtain ⟨mid, left, hbefore, htoken⟩ := h.split
  cases htoken with
  | @token _ _ n c rest _ kind _ hl hafter =>
      have hc := encloses_of_inertForm? hl ht
      obtain rfl := hc.mark_eq ha
      have hkind : kind = form.kind := by
        rw [hc.lexeme_eq] at hl
        exact (congrArg Prod.fst (Except.ok.inj hl)).symm
      have htext : textOf after = rest.drop n := by rw [hafter.text, List.append_nil]
      have hnew := ha.append rfl (.of_cuts hc hafter)
      have hold : a = '"' → opensTextBlock rest = false := by
        rintro rfl
        exact opensTextBlock_eq_false_of_lexeme hl
      have hothers : a = '"' → opensTextBlock (u ++ rest.drop n) = false := by
        rintro rfl
        exact opensTextBlock_eq_false_of_lexeme hnew.lexeme_eq
      have hexchanged : tokenAt mid a (u ++ rest.drop n) form.kind u.length =
          { tokenAt mid a rest kind n with text := String.ofList (a :: u) } := by
        rw [tokenAt, List.take_left, hlines, ← endLine_tokenAt mid a rest kind n, ← hkind]
        rfl
      have htoken : Cuts mid (a :: (u ++ rest.drop n))
          ({ tokenAt mid a rest kind n with text := String.ofList (a :: u) } :: after) last [] := by
        rw [← hexchanged]
        refine .token hnew.lexeme_eq ?_
        rw [hexchanged, List.drop_left]
        exact hafter
      rw [htext]
      exact (hbefore.beforeMark ha.isMark hold hothers).append htoken

end Lexer

/-- The text of tokens, with another text between them. -/
def withText (before : List Token) (text : String) (after : List Token) : String :=
  String.join (before.map (·.text)) ++ text ++ String.join (after.map (·.text))

theorem toList_withText (before : List Token) (text : String) (after : List Token) :
    (withText before text after).toList =
      Lexer.textOf before ++ (text.toList ++ Lexer.textOf after) := by
  rw [withText, String.toList_append, String.toList_append, Lexer.toList_join, Lexer.toList_join,
    List.append_assoc]

/-- A comment or a literal of a source gives way to a text that is, on its own, one token of the same form
with as many newlines: the tokens of the new source are those of the old one, but for that text. -/
theorem tokenize_withText {source text : String} {before after : List Token} {t u : Token}
    {form : InertForm} (h : tokenize source = .ok (before ++ t :: after))
    (ht : t.inertForm? = some form) (hu : tokenize text = .ok [u]) (hform : u.inertForm? = some form)
    (hlines : text.toList.count '\n' = t.text.toList.count '\n') :
    withText before t.text after = source ∧
      tokenize (withText before text after) = .ok (before ++ { t with text } :: after) := by
  obtain ⟨last, hcuts⟩ := Lexer.tokensFrom_eq_ok_iff.1 h
  obtain ⟨_, halone⟩ := Lexer.tokensFrom_eq_ok_iff.1 hu
  obtain ⟨a, v, htext, hencloses⟩ := halone.exists_encloses hform
  refine ⟨?_, ?_⟩
  · apply String.toList_injective
    rw [toList_withText, hcuts.text, List.append_nil, Lexer.textOf, Lexer.textOf, Lexer.textOf,
      List.flatMap_append, List.flatMap_cons]
  · have hexchanged := hcuts.exchange ht hencloses (htext ▸ hlines)
    rw [← htext, String.ofList_toList] at hexchanged
    rw [tokenize, toList_withText]
    exact Lexer.tokensFrom_eq_ok_iff.2 ⟨last, hexchanged⟩

/-- Three quotes in a row that open no text block: an empty literal and one that looks like a comment. -/
def joinedLiterals : String := "s = \"\"\"// a\"/* b */;"

/-- A literal that holds a quote and the end of a comment. -/
def otherLiteral : String := "\"\\\" */\""

/-- The second literal gives way to the other one. -/
theorem tokenize_withText_joinedLiterals :
    ∃ before t u after,
      tokenize joinedLiterals = .ok (before ++ t :: after) ∧ t.text = "\"// a\"" ∧
      t.inertForm? = some .stringLiteral ∧ tokenize otherLiteral = .ok [u] ∧
      u.inertForm? = some .stringLiteral ∧
      withText before otherLiteral after = "s = \"\"\"\\\" */\"/* b */;" ∧
      tokenize (withText before otherLiteral after) =
        .ok (before ++ { t with text := otherLiteral } :: after) := by
  let before : List Token :=
    [⟨.identifier, "s", 1, 1⟩, ⟨.whitespace, " ", 1, 1⟩, ⟨.operator, "=", 1, 1⟩,
      ⟨.whitespace, " ", 1, 1⟩, ⟨.stringLiteral, "\"\"", 1, 1⟩]
  let t : Token := ⟨.stringLiteral, "\"// a\"", 1, 1⟩
  let u : Token := ⟨.stringLiteral, otherLiteral, 1, 1⟩
  let after : List Token := [⟨.blockComment, "/* b */", 1, 1⟩, ⟨.punctuation, ";", 1, 1⟩]
  have htokens : tokenize joinedLiterals = .ok (before ++ t :: after) := by decide +kernel
  have halone : tokenize otherLiteral = .ok [u] := by decide +kernel
  have hform : t.inertForm? = some .stringLiteral := by decide +kernel
  have hform' : u.inertForm? = some .stringLiteral := by decide +kernel
  have hlines : otherLiteral.toList.count '\n' = t.text.toList.count '\n' := by decide +kernel
  obtain ⟨-, hexchanged⟩ := tokenize_withText htokens hform halone hform' hlines
  exact ⟨before, t, u, after, htokens, rfl, hform, halone, hform', by decide +kernel, hexchanged⟩

end EmbeddedSql
