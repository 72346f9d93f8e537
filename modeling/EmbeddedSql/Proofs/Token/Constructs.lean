/-
# Constructs that have to be closed, as a grammar has them

The lexer looks for the end of a construct character by character.  A grammar says what lies between
the opening and the end, and mentions no search:

| construct | opens with | closes with |
| :-- | :-- | :-- |
| string, character literal | its quote | units of its line, then the quote |
| text block | three quotes, a gap, a line break | units, then the first three quotes |
| block comment | `/*` | the first `*/` behind it |

A unit is a backslash with the character after it, or another character alone.

Each search finds the end that the grammar has and no other (`Finds`).  So a text in which a construct
opens is cut at the end of the construct, or none of its beginnings is one that is complete
(`lexeme_of_opens`).  Nothing else makes the lexer fail (`opens_of_lexeme_error`).
-/
import Mathlib.Data.List.Basic
import EmbeddedSql.Proofs.Token.CarriageReturns

namespace EmbeddedSql

/-! ## Ends -/

/-- Units on one line, up to and including the quote. -/
inductive ClosesQuoted (quote : Char) : List Char → Prop
  | quote : ClosesQuoted quote [quote]
  | plain {c : Char} {cs : List Char} : c ≠ quote → c ≠ '\\' → c ≠ '\n' →
      ClosesQuoted quote cs → ClosesQuoted quote (c :: cs)
  | escape {c : Char} {cs : List Char} : c ≠ '\n' →
      ClosesQuoted quote cs → ClosesQuoted quote ('\\' :: c :: cs)

def threeQuotes : List Char := ['"', '"', '"']

/-- Units, none of which begins with three quotes, up to and including three quotes. -/
inductive ClosesBlock : List Char → Prop
  | quotes : ClosesBlock threeQuotes
  | plain {c : Char} {cs : List Char} : c ≠ '\\' → ¬ threeQuotes <+: c :: cs →
      ClosesBlock cs → ClosesBlock (c :: cs)
  | escape {c : Char} {cs : List Char} : ClosesBlock cs → ClosesBlock ('\\' :: c :: cs)

/-- The first `*/` is the end. -/
structure ClosesComment (body : List Char) : Prop where
  ends : ['*', '/'] <:+ body
  first : ∀ before after, body = before ++ '*' :: '/' :: after → after = []

theorem ClosesBlock.three_le_length {body : List Char} (h : ClosesBlock body) :
    3 ≤ body.length := by
  induction h with
  | quotes => exact Nat.le_refl 3
  | plain _ _ _ ih => exact Nat.le_succ_of_le ih
  | escape _ ih => exact Nat.le_succ_of_le (Nat.le_succ_of_le ih)

theorem ClosesComment.cons {c : Char} {cs : List Char} (h : ClosesComment cs)
    (hmark : ¬ ['*', '/'] <+: c :: cs) : ClosesComment (c :: cs) where
  ends := h.ends.trans (List.suffix_cons c cs)
  first := by
    intro before after heq
    cases before with
    | nil => exact absurd ⟨after, heq.symm⟩ hmark
    | cons d before => exact h.first before after (List.cons.inj heq).2

theorem ClosesComment.of_cons {c : Char} {cs : List Char} (h : ClosesComment (c :: cs))
    (hmark : ¬ ['*', '/'] <+: c :: cs) : ClosesComment cs where
  ends := by
    rcases List.suffix_cons_iff.1 h.ends with heq | hsuffix
    · exact absurd (heq ▸ List.prefix_refl _) hmark
    · exact hsuffix
  first := fun before after heq => h.first (c :: before) after (congrArg (c :: ·) heq)

/-! ## Constructs -/

/-- Three quotes with nothing but a gap behind them on their line. -/
def StartsBlock (cs : List Char) : Prop :=
  ∃ gap rest, (∀ c ∈ gap, Lexer.isGap c = true) ∧ cs = threeQuotes ++ (gap ++ '\n' :: rest)

namespace Construct

/-- A text that begins with the opening of a construct. -/
def Opens : Construct → List Char → Prop
  | stringLiteral, cs => (∃ rest, cs = '"' :: rest) ∧ ¬ StartsBlock cs
  | characterLiteral, cs => ∃ rest, cs = '\'' :: rest
  | textBlock, cs => StartsBlock cs
  | blockComment, cs => ∃ rest, cs = '/' :: '*' :: rest

/-- A text that is a construct, from its opening to its end. -/
def IsComplete : Construct → List Char → Prop
  | stringLiteral, text => ∃ body, ClosesQuoted '"' body ∧ text = '"' :: body
  | characterLiteral, text => ∃ body, ClosesQuoted '\'' body ∧ text = '\'' :: body
  | textBlock, text => ∃ gap body, (∀ c ∈ gap, Lexer.isGap c = true) ∧ ClosesBlock body ∧
      text = threeQuotes ++ (gap ++ '\n' :: body)
  | blockComment, text => ∃ body, ClosesComment body ∧ text = '/' :: '*' :: body

theorem Opens.exists_cons {construct : Construct} {cs : List Char}
    (h : construct.Opens cs) : ∃ c rest, cs = c :: rest := by
  cases construct with
  | stringLiteral =>
      obtain ⟨⟨rest, rfl⟩, -⟩ := h
      exact ⟨_, rest, rfl⟩
  | characterLiteral =>
      obtain ⟨rest, rfl⟩ := h
      exact ⟨_, rest, rfl⟩
  | textBlock =>
      obtain ⟨gap, rest, -, rfl⟩ := h
      exact ⟨_, _, rfl⟩
  | blockComment =>
      obtain ⟨rest, rfl⟩ := h
      exact ⟨_, _, rfl⟩

/-- The kind of the token that a construct makes. -/
def kind : Construct → TokenKind
  | stringLiteral => .stringLiteral
  | characterLiteral => .other
  | textBlock => .stringLiteral
  | blockComment => .blockComment

end Construct

namespace Lexer

/-! ## Searches

What a search counts off is an end, and an end is counted off whatever follows it. -/

/-- A mark that a text is long enough to begin with, and does not, is not made by what comes behind. -/
theorem not_prefix_append {mark cs : List Char} (rest : List Char) (hlength : mark.length ≤ cs.length)
    (h : ¬ mark <+: cs) : ¬ mark <+: cs ++ rest := fun hreach =>
  h (List.prefix_of_prefix_length_le hreach (List.prefix_append cs rest) hlength)

/-- A search that finds the ends of a grammar. -/
structure Finds (search : List Char → Option Nat) (Closes : List Char → Prop) : Prop where
  sound : ∀ {cs n}, search cs = some n → Closes (cs.take n)
  complete : ∀ {body} (rest : List Char), Closes body → search (body ++ rest) = some body.length

/-- What a search does not find is not there. -/
theorem Finds.not_closes {search : List Char → Option Nat} {Closes : List Char → Prop}
    {cs body : List Char} (h : Finds search Closes) (hnone : search cs = none) (hp : body <+: cs) :
    ¬ Closes body := by
  obtain ⟨rest, rfl⟩ := hp
  intro hbody
  rw [h.complete rest hbody] at hnone
  cases hnone

theorem finds_quoteEnd? {quote : Char} (hescape : quote ≠ '\\') (hline : quote ≠ '\n') :
    Finds (quoteEnd? quote) (ClosesQuoted quote) where
  sound := by
    intro cs n h
    fun_induction quoteEnd? quote cs generalizing n with
    | case1 => cases h
    | case2 => cases h
    | case3 c rest hc ih =>
        obtain ⟨m, hm, rfl⟩ := Option.map_eq_some_iff.1 h
        exact .escape (fun heq => hc (beq_iff_eq.2 heq)) (ih hm)
    | case4 => cases h
    | case5 c rest _ _ hquote =>
        cases h
        obtain rfl := beq_iff_eq.1 hquote
        exact .quote
    | case6 c rest _ hplain hquote ih =>
        obtain ⟨m, hm, rfl⟩ := Option.map_eq_some_iff.1 h
        simp only [Bool.or_eq_true, beq_iff_eq, not_or] at hplain
        exact .plain (fun heq => hquote (beq_iff_eq.2 heq)) hplain.1 hplain.2 (ih hm)
  complete := by
    intro body rest h
    induction h with
    | quote =>
        rw [List.singleton_append, quoteEnd?]
        · simp [hescape, hline]
        · exact fun _ _ heq _ => hescape heq
    | @plain c cs hquote hplain hnewline _ ih =>
        rw [List.cons_append, quoteEnd?]
        · simp [hquote, hplain, hnewline, ih]
        · exact fun _ _ heq _ => hplain heq
    | @escape c cs hnewline _ ih =>
        show (if c == '\n' then none else (quoteEnd? quote (cs ++ rest)).map (· + 2)) = _
        rw [ih, if_neg fun heq => hnewline (beq_iff_eq.1 heq)]
        rfl

theorem finds_textBlockEnd? : Finds textBlockEnd? ClosesBlock where
  sound := by
    intro cs n h
    fun_induction textBlockEnd? cs generalizing n with
    | case1 c rest ih =>
        obtain ⟨m, hm, rfl⟩ := Option.map_eq_some_iff.1 h
        exact .escape (ih hm)
    | case2 =>
        cases h
        exact .quotes
    | case3 => cases h
    | case4 c rest _ hquotes hc ih =>
        obtain ⟨m, hm, rfl⟩ := Option.map_eq_some_iff.1 h
        refine .plain (fun heq => hc (beq_iff_eq.2 heq)) ?_ (ih hm)
        intro hprefix
        obtain ⟨tail, htail⟩ := hprefix.trans (List.take_prefix (m + 1) (c :: rest))
        obtain ⟨rfl, rfl⟩ := List.cons.inj htail
        exact hquotes tail rfl rfl
    | case5 => cases h
  complete := by
    intro body rest h
    induction h with
    | quotes => rfl
    | @plain c cs hc hquotes hcloses ih =>
        rw [List.cons_append, textBlockEnd?_cons hc, ih]
        · rfl
        · -- three closing quotes are still to come, so what follows them is out of reach
          have hlength : threeQuotes.length ≤ (c :: cs).length :=
            Nat.le_succ_of_le hcloses.three_le_length
          rintro rfl tail htail
          exact not_prefix_append rest hlength hquotes ⟨tail, congrArg ('"' :: ·) htail.symm⟩
    | @escape c cs _ ih =>
        show (textBlockEnd? (cs ++ rest)).map (· + 2) = _
        rw [ih]
        rfl

theorem finds_commentEnd? : Finds commentEnd? ClosesComment where
  sound := by
    intro cs n h
    fun_induction commentEnd? cs generalizing n with
    | case1 rest =>
        cases h
        refine ⟨List.suffix_refl _, fun before after heq => ?_⟩
        have hlength := congrArg List.length heq
        simp only [List.take_succ_cons, List.take_zero, List.length_append, List.length_cons,
          List.length_nil] at hlength
        exact List.eq_nil_of_length_eq_zero (by omega)
    | case2 c rest hmark ih =>
        obtain ⟨m, hm, rfl⟩ := Option.map_eq_some_iff.1 h
        refine (ih hm).cons ?_
        intro hprefix
        obtain ⟨tail, htail⟩ := hprefix.trans (List.take_prefix (m + 1) (c :: rest))
        obtain ⟨rfl, rfl⟩ := List.cons.inj htail
        exact hmark tail rfl rfl
    | case3 => cases h
  complete := by
    intro body rest h
    induction body with
    | nil => cases List.suffix_nil.1 h.ends
    | cons c cs ih =>
        by_cases hmark : ['*', '/'] <+: c :: cs
        · obtain ⟨after, hafter⟩ := hmark
          obtain rfl : after = [] := h.first [] after hafter.symm
          rw [← hafter]
          rfl
        · rw [List.cons_append, commentEnd?_cons, ih (h.of_cons hmark)]
          · rfl
          · rintro rfl tail htail
            exact not_prefix_append rest h.ends.length_le hmark
              ⟨tail, congrArg ('*' :: ·) htail.symm⟩

/-! ## The gap of a text block -/

theorem opensTextBlock_iff {cs : List Char} :
    opensTextBlock cs = true ↔
      ∃ gap rest, (∀ c ∈ gap, isGap c = true) ∧ cs = gap ++ '\n' :: rest := by
  rw [opensTextBlock_eq, beq_iff_eq, List.head?_eq_some_iff]
  constructor
  · rintro ⟨rest, hrest⟩
    refine ⟨cs.takeWhile isGap, rest, fun c hc => List.mem_takeWhile_imp hc, ?_⟩
    rw [← hrest, List.takeWhile_append_dropWhile]
  · rintro ⟨gap, rest, hgap, rfl⟩
    exact ⟨rest, List.dropWhile_append_of_pos hgap⟩

theorem startsBlock_iff {rest : List Char} :
    StartsBlock ('"' :: rest) ↔ opensBlock rest = true := by
  rw [opensBlock, Bool.and_eq_true, opensTextBlock_iff]
  constructor
  · rintro ⟨gap, tail, hgap, heq⟩
    obtain ⟨-, rfl⟩ := List.cons.inj heq
    exact ⟨rfl, gap, tail, hgap, rfl⟩
  · rintro ⟨hquotes, gap, tail, hgap, heq⟩
    obtain ⟨q, rfl⟩ := exists_of_followedBy hquotes
    obtain rfl : q = _ := heq
    exact ⟨gap, tail, hgap, rfl⟩

/-- Gaps and their line breaks are found in one way only. -/
theorem gap_unique {gap gap' rest rest' : List Char} (hgap : ∀ c ∈ gap, isGap c = true)
    (hgap' : ∀ c ∈ gap', isGap c = true) (h : gap ++ '\n' :: rest = gap' ++ '\n' :: rest') :
    gap = gap' ∧ rest = rest' := by
  have hfound : ∀ {gap rest : List Char}, (∀ c ∈ gap, isGap c = true) →
      (gap ++ '\n' :: rest).takeWhile isGap = gap := by
    intro gap rest hall
    rw [List.takeWhile_append_of_pos hall, List.takeWhile_cons_of_neg (by decide), List.append_nil]
  obtain rfl : gap = gap' := by rw [← hfound hgap, h, hfound hgap']
  exact ⟨rfl, (List.cons.inj (List.append_cancel_left h)).2⟩

/-- The end of a text block is not looked for in vain before the first line break. -/
theorem textBlockEnd?_gap {gap : List Char} (hgap : ∀ c ∈ gap, isGap c = true)
    (rest : List Char) :
    textBlockEnd? (gap ++ '\n' :: rest) =
      (textBlockEnd? rest).map ((gap ++ ['\n']).length + ·) := by
  induction gap with
  | nil =>
      rw [List.nil_append, textBlockEnd?_cons (by decide) (fun h => by cases h)]
      exact congrArg (Option.map · _) (funext fun n => Nat.add_comm n 1)
  | cons c gap ih =>
      have hc : isGap c = true := hgap c List.mem_cons_self
      have hplain : c ≠ '\\' ∧ c ≠ '"' := by
        constructor <;> rintro rfl <;> cases hc
      rw [List.cons_append, textBlockEnd?_cons hplain.1 fun h => absurd h hplain.2,
        ih fun d hd => hgap d (List.mem_cons_of_mem c hd), Option.map_map]
      refine congrArg (Option.map · _) (funext fun n => ?_)
      simp only [Function.comp_apply, List.cons_append, List.length_cons]
      omega

/-! ## Constructs are cut at their end -/

/-- What the lexer does where a construct opens: it cuts off the one beginning of the text that is
complete, or there is none. -/
def CutsOrFails (construct : Construct) (c : Char) (rest : List Char) : Prop :=
  (∃ n, lexeme c rest = .ok (construct.kind, n) ∧
      ∀ text, text <+: c :: rest → (construct.IsComplete text ↔ text = c :: rest.take n)) ∨
    lexeme c rest = .error construct ∧
      ∀ text, text <+: c :: rest → ¬ construct.IsComplete text

/-- A construct whose end is looked for behind its opening. -/
theorem cutsOrFails_of_finds {search : List Char → Option Nat} {Closes : List Char → Prop}
    (hfinds : Finds search Closes) {construct : Construct} {c : Char} {rest : List Char}
    (opening : List Char)
    (hl : lexeme c (opening ++ rest) =
      closed construct construct.kind ((search rest).map (opening.length + ·)))
    (hcomplete : ∀ text, text <+: c :: (opening ++ rest) →
      (construct.IsComplete text ↔ ∃ body, Closes body ∧ text = c :: (opening ++ body))) :
    CutsOrFails construct c (opening ++ rest) := by
  have hbody : ∀ body, c :: (opening ++ body) <+: c :: (opening ++ rest) → body <+: rest :=
    fun body h => (List.prefix_append_right_inj opening).1 (List.cons_prefix_cons.1 h).2
  cases hsearch : search rest with
  | some m =>
      refine .inl ⟨opening.length + m, by rw [hl, hsearch]; rfl, fun text htext => ?_⟩
      rw [hcomplete text htext, List.take_length_add_append]
      constructor
      · rintro ⟨body, hcloses, rfl⟩
        obtain ⟨left, rfl⟩ := hbody body htext
        obtain rfl : body.length = m :=
          Option.some.inj ((hfinds.complete left hcloses).symm.trans hsearch)
        rw [List.take_left]
      · rintro rfl
        exact ⟨rest.take m, hfinds.sound hsearch, rfl⟩
  | none =>
      refine .inr ⟨by rw [hl, hsearch]; rfl, fun text htext hclosed => ?_⟩
      obtain ⟨body, hcloses, rfl⟩ := (hcomplete text htext).1 hclosed
      exact hfinds.not_closes hsearch (hbody body htext) hcloses

/-- Everything up to the first line break opens a text block. -/
theorem threeQuotes_append (gap body : List Char) :
    threeQuotes ++ (gap ++ '\n' :: body) = '"' :: (('"' :: '"' :: (gap ++ ['\n'])) ++ body) := by
  rw [List.append_cons gap '\n' body]
  rfl

theorem cutsOrFails_textBlock {gap tail : List Char} (hgap : ∀ c ∈ gap, isGap c = true) :
    CutsOrFails .textBlock '"' ('"' :: '"' :: (gap ++ '\n' :: tail)) := by
  have hopens : opensBlock ('"' :: '"' :: (gap ++ '\n' :: tail)) = true :=
    startsBlock_iff.1 ⟨gap, tail, hgap, rfl⟩
  have hrest : '"' :: '"' :: (gap ++ '\n' :: tail) = _ :=
    (List.cons.inj (threeQuotes_append gap tail)).2
  rw [hrest]
  refine cutsOrFails_of_finds finds_textBlockEnd? _ ?_ fun text htext => ?_
  · rw [← hrest, lexeme_quote, if_pos hopens]
    show closed _ _ ((textBlockEnd? (gap ++ '\n' :: tail)).map (2 + ·)) = _
    rw [textBlockEnd?_gap hgap, Option.map_map]
    refine congrArg (closed _ _ <| Option.map · _) (funext fun n => ?_)
    simp only [Function.comp_apply, List.length_cons]
    omega
  · constructor
    · rintro ⟨gap', body, hgap', hbody, rfl⟩
      obtain ⟨left, hleft⟩ := htext
      rw [← threeQuotes_append, List.append_assoc, List.append_cancel_left_eq,
        List.append_assoc] at hleft
      obtain ⟨rfl, -⟩ := gap_unique hgap' hgap hleft
      exact ⟨body, hbody, threeQuotes_append gap' body⟩
    · rintro ⟨body, hbody, rfl⟩
      exact ⟨gap, body, hgap, hbody, (threeQuotes_append gap body).symm⟩

theorem lexeme_of_opens {construct : Construct} {c : Char} {rest : List Char}
    (h : construct.Opens (c :: rest)) : CutsOrFails construct c rest := by
  cases construct with
  | stringLiteral =>
      obtain ⟨⟨rest', heq⟩, hblock⟩ := h
      obtain ⟨rfl, rfl⟩ := List.cons.inj heq
      refine cutsOrFails_of_finds (finds_quoteEnd? (by decide) (by decide)) [] ?_
        fun text _ => Iff.rfl
      rw [startsBlock_iff] at hblock
      rw [List.nil_append, lexeme_quote, if_neg hblock]
      simp only [List.length_nil, Nat.zero_add, Option.map_id']
      rfl
  | characterLiteral =>
      obtain ⟨rest', heq⟩ := h
      obtain ⟨rfl, rfl⟩ := List.cons.inj heq
      refine cutsOrFails_of_finds (finds_quoteEnd? (by decide) (by decide)) [] ?_
        fun text _ => Iff.rfl
      rw [List.nil_append, lexeme_charQuote]
      simp only [List.length_nil, Nat.zero_add, Option.map_id']
      rfl
  | textBlock =>
      obtain ⟨gap, tail, hgap, heq⟩ := h
      obtain ⟨rfl, rfl⟩ := List.cons.inj heq
      exact cutsOrFails_textBlock hgap
  | blockComment =>
      obtain ⟨q, heq⟩ := h
      obtain ⟨rfl, rfl⟩ := List.cons.inj heq
      exact cutsOrFails_of_finds finds_commentEnd? ['*'] (lexeme_blockComment q)
        fun text _ => Iff.rfl

/-- Where a construct opens, a token is the whole construct. -/
theorem isComplete_of_lexeme {construct : Construct} {c : Char} {rest : List Char}
    {kind : TokenKind} {n : Nat} (hopens : construct.Opens (c :: rest))
    (h : lexeme c rest = .ok (kind, n)) :
    kind = construct.kind ∧ construct.IsComplete (c :: rest.take n) := by
  rcases lexeme_of_opens hopens with ⟨m, hcut, hiff⟩ | ⟨hfail, -⟩
  · rw [hcut] at h
    cases h
    refine ⟨rfl, (hiff _ ?_).2 rfl⟩
    exact List.cons_prefix_cons.2 ⟨rfl, List.take_prefix n rest⟩
  · rw [hfail] at h
    cases h

/-- A construct that stands alone is one token. -/
theorem lexeme_of_isComplete {construct : Construct} {c : Char} {text : List Char}
    (hopens : construct.Opens (c :: text)) (h : construct.IsComplete (c :: text)) :
    lexeme c text = .ok (construct.kind, text.length) := by
  rcases lexeme_of_opens hopens with ⟨n, hcut, hiff⟩ | ⟨-, hnone⟩
  · have hall : text = text.take n := (List.cons.inj ((hiff _ (List.prefix_refl _)).1 h)).2
    have hlength : text.length ≤ n := by
      rw [hall]
      exact List.length_take_le n text
    rw [hcut, Nat.le_antisymm (lexeme_le hcut) hlength]
  · exact absurd h (hnone _ (List.prefix_refl _))

/-! ## What a text begins with -/

inductive Begins : Char → List Char → Prop
  | blank {c : Char} {rest : List Char} : isBlank c = true → Begins c rest
  | lineComment {q : List Char} : Begins '/' ('/' :: q)
  | construct {c : Char} {rest : List Char} (construct : Construct) :
      construct.Opens (c :: rest) → Begins c rest
  | symbol {c : Char} {rest : List Char} : isBlank c = false → c ≠ '"' → c ≠ '\'' →
      lexeme c rest = .ok (symbolLexeme c rest) → Begins c rest

theorem begins (c : Char) (rest : List Char) : Begins c rest := by
  cases hblank : isBlank c with
  | true => exact .blank hblank
  | false =>
      by_cases hquote : c = '"'
      · subst hquote
        by_cases hblock : StartsBlock ('"' :: rest)
        · exact .construct .textBlock hblock
        · exact .construct .stringLiteral ⟨⟨rest, rfl⟩, hblock⟩
      by_cases hchar : c = '\''
      · subst hchar
        exact .construct .characterLiteral ⟨rest, rfl⟩
      by_cases hline : c = '/' ∧ rest.head? = some '/'
      · obtain ⟨rfl, hhead⟩ := hline
        obtain ⟨q, rfl⟩ := List.head?_eq_some_iff.1 hhead
        exact .lineComment
      by_cases hstar : c = '/' ∧ rest.head? = some '*'
      · obtain ⟨rfl, hhead⟩ := hstar
        obtain ⟨q, rfl⟩ := List.head?_eq_some_iff.1 hhead
        exact .construct .blockComment ⟨q, rfl⟩
      · exact .symbol hblank hquote hchar <| lexeme_of_symbol hblank hquote hchar fun hc =>
          ⟨fun hhead => hline ⟨hc, hhead⟩, fun hhead => hstar ⟨hc, hhead⟩⟩

/-- The lexer fails in front of a construct only. -/
theorem opens_of_lexeme_error {construct : Construct} {c : Char} {rest : List Char}
    (h : lexeme c rest = .error construct) : construct.Opens (c :: rest) := by
  cases begins c rest with
  | blank hblank =>
      rw [lexeme_blank hblank] at h
      cases h
  | lineComment =>
      rw [lexeme_lineComment] at h
      cases h
  | construct opened hopens =>
      rcases lexeme_of_opens hopens with ⟨n, hcut, -⟩ | ⟨hfail, -⟩
      · rw [hcut] at h
        cases h
      · rw [hfail] at h
        cases h
        exact hopens
  | symbol _ _ _ hsymbol =>
      rw [hsymbol] at h
      cases h

end Lexer

/-- A source that is a construct is one token. -/
theorem tokenize_of_isComplete {construct : Construct} {text : String}
    (hopens : construct.Opens text.toList) (h : construct.IsComplete text.toList) :
    tokenize text = .ok [⟨construct.kind, text, 1, 1 + text.toList.count '\n'⟩] := by
  obtain ⟨c, rest, htext⟩ := hopens.exists_cons
  rw [htext] at hopens h
  have hcut := Lexer.lexeme_of_isComplete hopens h
  have hdone : ∃ last, Lexer.Cuts 1 (c :: rest)
      [Lexer.tokenAt 1 c rest construct.kind rest.length] last (rest.drop rest.length) :=
    ⟨_, .token hcut .done⟩
  have hwhole : Lexer.tokenAt 1 c rest construct.kind rest.length =
      ⟨construct.kind, text, 1, 1 + text.toList.count '\n'⟩ := by
    rw [Lexer.tokenAt, List.take_length, ← htext, String.ofList_toList]
  rw [List.drop_length, hwhole, ← htext] at hdone
  exact Lexer.tokensFrom_eq_ok_iff.2 hdone

end EmbeddedSql
