/-
# Cutting a source with carriage returns

With a carriage return before every newline a source is cut at the same places.  Carriage returns are met
wherever a line can end, and each time what is made of one is undone by something else:

| where | what is made of it | what undoes it |
| :-- | :-- | :-- |
| between tokens | it is a blank | blanks mean nothing |
| at the end of a line comment | it belongs to the comment | comments mean nothing |
| after three quotes | it may come before the newline that opens a text block | nothing need be undone |
| after a backslash | it is taken in the place of the newline | the newline comes next: in a text block it is one more character, and it ends a literal as it did before |

Behind a line comment the two sources get out of step, since the carriage return has been read and the
newline has not, and the white space that comes next brings them back.  So what is left of them is related
in one of two ways (`Tails`), and each token goes with one of the other source (`tails_lexeme`).
-/
import EmbeddedSql.Proofs.Fallible
import EmbeddedSql.Proofs.Token.Inert

namespace EmbeddedSql

/-- The characters with a carriage return before each newline. -/
def crlf (cs : List Char) : List Char := cs.flatMap fun c => if c = '\n' then ['\r', '\n'] else [c]

@[simp] theorem crlf_nil : crlf [] = [] := rfl

@[simp] theorem crlf_newline (cs : List Char) : crlf ('\n' :: cs) = '\r' :: '\n' :: crlf cs := rfl

theorem crlf_cons {c : Char} (hc : c ≠ '\n') (cs : List Char) : crlf (c :: cs) = c :: crlf cs := by
  rw [crlf, List.flatMap_cons, if_neg hc]
  rfl

@[simp] theorem crlf_append (cs ds : List Char) : crlf (cs ++ ds) = crlf cs ++ crlf ds :=
  List.flatMap_append

theorem crlf_of_not_mem {cs : List Char} (h : '\n' ∉ cs) : crlf cs = cs := by
  induction cs with
  | nil => rfl
  | cons c cs ih =>
      rw [List.mem_cons, not_or] at h
      rw [crlf_cons (Ne.symm h.1), ih h.2]

theorem count_crlf (cs : List Char) : (crlf cs).count '\n' = cs.count '\n' := by
  induction cs with
  | nil => rfl
  | cons c cs ih =>
      by_cases hc : c = '\n'
      · subst hc
        rw [crlf_newline, List.count_cons_of_ne (by decide), List.count_cons_self,
          List.count_cons_self, ih]
      · rw [crlf_cons hc, List.count_cons_of_ne hc, List.count_cons_of_ne hc, ih]

/-- Other characters come first in both. -/
theorem eq_cons_of_crlf {cs ds : List Char} {d : Char} (hd : d ≠ '\r') (h : crlf cs = d :: ds) :
    ∃ tail, cs = d :: tail ∧ ds = crlf tail := by
  cases cs with
  | nil => cases h
  | cons c cs =>
      by_cases hc : c = '\n'
      · subst hc
        exact absurd (List.cons.inj h).1.symm hd
      · rw [crlf_cons hc] at h
        obtain ⟨rfl, rfl⟩ := List.cons.inj h
        exact ⟨cs, rfl, rfl⟩

namespace Lexer

/-! ## Stretches and searches -/

theorem takeWhile_crlf {q : Char → Bool} (hq : q '\r' = q '\n') (cs : List Char) :
    (crlf cs).takeWhile q = crlf (cs.takeWhile q) := by
  induction cs with
  | nil => rfl
  | cons c cs ih =>
      by_cases hc : c = '\n'
      · subst hc
        rw [crlf_newline, List.takeWhile_cons, List.takeWhile_cons, List.takeWhile_cons, hq, ih]
        cases q '\n' <;> rfl
      · rw [crlf_cons hc, List.takeWhile_cons, List.takeWhile_cons, ih]
        cases q c with
        | false => rfl
        | true => exact (crlf_cons hc _).symm

/-- Three quotes open a text block in both. -/
theorem opensTextBlock_crlf (cs : List Char) : opensTextBlock (crlf cs) = opensTextBlock cs := by
  rw [opensTextBlock_eq, opensTextBlock_eq]
  induction cs with
  | nil => rfl
  | cons c cs ih =>
      by_cases hc : c = '\n'
      · subst hc
        rfl
      · rw [crlf_cons hc, List.dropWhile_cons, List.dropWhile_cons]
        split
        · exact ih
        · rfl

theorem followedBy_crlf {a : Char} (ha : a ≠ '\r') (ha' : a ≠ '\n') (cs : List Char) :
    followedBy a a (crlf cs) = followedBy a a cs := by
  have hreturn : ('\r' == a) = false := beq_eq_false_iff_ne.2 ha.symm
  have hnewline : ('\n' == a) = false := beq_eq_false_iff_ne.2 ha'.symm
  have hshort : ∀ c, followedBy a a [c] = false := fun _ => rfl
  have hcons : ∀ c d cs, followedBy a a (c :: d :: cs) = (c == a && d == a) := fun _ _ _ => rfl
  match cs with
  | [] => rfl
  | [c] =>
      by_cases hc : c = '\n'
      · subst hc
        rw [crlf_newline, hshort, hcons, hreturn, Bool.false_and]
      · rw [crlf_cons hc, crlf_nil]
  | c :: d :: cs =>
      by_cases hc : c = '\n'
      · subst hc
        rw [crlf_newline, hcons, hcons, hreturn, hnewline, Bool.false_and, Bool.false_and]
      · rw [crlf_cons hc]
        by_cases hd : d = '\n'
        · subst hd
          rw [crlf_newline, hcons, hcons, hreturn, hnewline]
        · rw [crlf_cons hd, hcons, hcons]

theorem quoteEnd?_cons {quote c : Char} (hc : c ≠ '\\') (cs : List Char) :
    quoteEnd? quote (c :: cs) =
      if c = '\n' then none else if c = quote then some 1 else (quoteEnd? quote cs).map (· + 1) := by
  rw [quoteEnd?]
  · simp [hc]
  · exact fun _ _ h => absurd h hc

/-- A quoted literal ends at the same place, or at none, as a line break ends it in both. -/
theorem quoteEnd?_crlf {quote : Char} (hq : '\r' ≠ quote) (cs : List Char) :
    quoteEnd? quote (crlf cs) = quoteEnd? quote cs := by
  have hnewline : ∀ ds, quoteEnd? quote ('\n' :: ds) = none := fun ds =>
    (quoteEnd?_cons (by decide) ds).trans (if_pos rfl)
  fun_induction quoteEnd? quote cs with
  | case1 => rfl
  | case2 c cs hline =>
      -- the backslash takes the carriage return, and the newline comes next
      obtain rfl := beq_iff_eq.1 hline
      rw [crlf_cons (by decide), crlf_newline, quoteEnd?, if_neg (by decide), hnewline]
      rfl
  | case3 c cs hline ih =>
      have hc : c ≠ '\n' := fun hc => hline (beq_iff_eq.2 hc)
      rw [crlf_cons (by decide), crlf_cons hc, quoteEnd?, if_neg hline, ih]
  | case4 c cs hescape hplain =>
      rw [Bool.or_eq_true, beq_iff_eq, beq_iff_eq] at hplain
      rcases hplain with rfl | rfl
      · cases cs with
        | nil => rfl
        | cons d cs => exact (hescape d cs rfl rfl).elim
      · rw [crlf_newline, quoteEnd?_cons (by decide), if_neg (by decide), if_neg hq, hnewline]
        rfl
  | case5 c cs hescape hplain hquote =>
      rw [Bool.or_eq_true, beq_iff_eq, beq_iff_eq, not_or] at hplain
      rw [crlf_cons hplain.2, quoteEnd?_cons hplain.1, if_neg hplain.2, if_pos (beq_iff_eq.1 hquote)]
  | case6 c cs hescape hplain hquote ih =>
      rw [Bool.or_eq_true, beq_iff_eq, beq_iff_eq, not_or] at hplain
      rw [crlf_cons hplain.2, quoteEnd?_cons hplain.1, if_neg hplain.2, if_neg (by simpa using hquote),
        ih]

/-- The length of what is taken from the front, where every line has a carriage return. -/
def crlfLength (cs : List Char) (n : Nat) : Nat := (crlf (cs.take n)).length

theorem crlfLength_cons {c : Char} (hc : c ≠ '\n') (cs : List Char) (n : Nat) :
    crlfLength (c :: cs) (n + 1) = crlfLength cs n + 1 := by
  rw [crlfLength, List.take_succ_cons, crlf_cons hc]
  rfl

theorem commentEnd?_cons {c : Char} {cs : List Char} (h : c = '*' → ∀ tail, cs ≠ '/' :: tail) :
    commentEnd? (c :: cs) = (commentEnd? cs).map (· + 1) := by
  rw [commentEnd?]
  exact fun tail hc hcs => h hc tail hcs

/-- A comment ends at the same place, with its lines. -/
theorem commentEnd?_crlf (cs : List Char) :
    commentEnd? (crlf cs) = (commentEnd? cs).map (crlfLength cs) := by
  fun_induction commentEnd? cs with
  | case1 cs =>
      rw [crlf_cons (by decide), crlf_cons (by decide)]
      rfl
  | case2 c cs hother ih =>
      rw [Option.map_map]
      by_cases hc : c = '\n'
      · subst hc
        rw [crlf_newline, commentEnd?_cons fun h => absurd h (by decide),
          commentEnd?_cons fun h => absurd h (by decide), ih, Option.map_map, Option.map_map]
        rfl
      · have hother' : c = '*' → ∀ tail, crlf cs ≠ '/' :: tail := by
          rintro rfl tail hcs
          obtain ⟨tail', rfl, -⟩ := eq_cons_of_crlf (by decide) hcs
          exact hother tail' rfl rfl
        rw [crlf_cons hc, commentEnd?_cons hother', ih, Option.map_map]
        exact Option.map_congr fun n _ => (crlfLength_cons hc cs n).symm
  | case3 => rfl

theorem textBlockEnd?_cons {c : Char} {cs : List Char} (hc : c ≠ '\\')
    (h : c = '"' → ∀ tail, cs ≠ '"' :: '"' :: tail) :
    textBlockEnd? (c :: cs) = (textBlockEnd? cs).map (· + 1) := by
  rw [textBlockEnd?]
  · exact if_neg (by simpa using hc)
  · exact fun _ _ h => absurd h hc
  · exact fun tail hc hcs => h hc tail hcs

/-- A text block ends at the same place, with its lines. -/
theorem textBlockEnd?_crlf (cs : List Char) :
    textBlockEnd? (crlf cs) = (textBlockEnd? cs).map (crlfLength cs) := by
  have hnewline : ∀ ds, textBlockEnd? ('\n' :: ds) = (textBlockEnd? ds).map (· + 1) := fun ds =>
    textBlockEnd?_cons (by decide) fun h => absurd h (by decide)
  fun_induction textBlockEnd? cs with
  | case1 c cs ih =>
      rw [Option.map_map, crlf_cons (by decide)]
      by_cases hc : c = '\n'
      · -- the backslash takes the carriage return, and the newline comes next
        subst hc
        rw [crlf_newline, textBlockEnd?, hnewline, ih, Option.map_map, Option.map_map]
        rfl
      · rw [crlf_cons hc, textBlockEnd?, ih, Option.map_map]
        refine Option.map_congr fun n _ => ?_
        show _ = crlfLength ('\\' :: c :: cs) (n + 2)
        rw [crlfLength_cons (by decide), crlfLength_cons hc]
        rfl
  | case2 cs =>
      rw [crlf_cons (by decide), crlf_cons (by decide), crlf_cons (by decide)]
      rfl
  | case3 c cs hescape hquotes hplain =>
      obtain rfl := beq_iff_eq.1 hplain
      cases cs with
      | nil => rfl
      | cons d cs => exact (hescape d cs rfl rfl).elim
  | case4 c cs hescape hquotes hplain ih =>
      rw [Option.map_map]
      by_cases hc : c = '\n'
      · subst hc
        rw [crlf_newline, textBlockEnd?_cons (by decide) fun h => absurd h (by decide), hnewline, ih,
          Option.map_map, Option.map_map]
        rfl
      · have hquotes' : c = '"' → ∀ tail, crlf cs ≠ '"' :: '"' :: tail := by
          rintro rfl tail hcs
          obtain ⟨ds, rfl, hds⟩ := eq_cons_of_crlf (by decide) hcs
          obtain ⟨tail', rfl, -⟩ := eq_cons_of_crlf (by decide) hds.symm
          exact hquotes tail' rfl rfl
        rw [crlf_cons hc, textBlockEnd?_cons (by simpa using hplain) hquotes', ih, Option.map_map]
        exact Option.map_congr fun n _ => (crlfLength_cons hc cs n).symm
  | case5 => rfl

/-! ## Words and symbols -/

theorem symbolLexeme_crlf (c : Char) (cs : List Char) :
    symbolLexeme c (crlf cs) = symbolLexeme c cs := by
  by_cases hline : '\n' ∈ cs
  · obtain ⟨p, q, rfl, hp⟩ := List.eq_append_cons_of_mem hline
    rw [crlf_append, crlf_newline, crlf_of_not_mem hp, symbolLexeme_break (.inr (.inl rfl)),
      symbolLexeme_break (.inr (.inr rfl))]
  · rw [crlf_of_not_mem hline]

/-- No symbol reaches past the end of its line. -/
theorem newline_not_mem_of_symbol {c : Char} {rest : List Char} (hblank : isBlank c = false)
    (hquote : c ≠ '"') (hchar : c ≠ '\'')
    (hslash : c = '/' → rest.head? ≠ some '/' ∧ rest.head? ≠ some '*') :
    '\n' ∉ rest.take (symbolLexeme c rest).2 := by
  intro hmem
  obtain ⟨p, q, rfl, hp⟩ := List.eq_append_cons_of_mem (List.mem_of_mem_take hmem)
  have hle : (symbolLexeme c p).2 ≤ p.length := lexeme_le <|
    lexeme_of_symbol hblank hquote hchar fun hc =>
      ⟨head?_ne_of_append (hslash hc).1, head?_ne_of_append (hslash hc).2⟩
  rw [symbolLexeme_break (.inr (.inr rfl)), List.take_append_of_le_length hle] at hmem
  exact hp (List.mem_of_mem_take hmem)

theorem newline_not_mem_of_quoteEnd? {quote : Char} {cs : List Char} {n : Nat} (hq : '\n' ≠ quote)
    (h : quoteEnd? quote cs = some n) : '\n' ∉ cs.take n := by
  fun_induction quoteEnd? quote cs generalizing n with
  | case1 => cases h
  | case2 => cases h
  | case3 c cs hline ih =>
      obtain ⟨m, hm, rfl⟩ := Option.map_eq_some_iff.1 h
      rw [List.take_succ_cons, List.take_succ_cons]
      simp only [List.mem_cons, not_or]
      exact ⟨by decide, fun hc => hline (beq_iff_eq.2 hc.symm), ih hm⟩
  | case4 => cases h
  | case5 c cs hescape hplain hquote =>
      cases h
      simpa [beq_iff_eq.1 hquote] using hq
  | case6 c cs hescape hplain hquote ih =>
      obtain ⟨m, hm, rfl⟩ := Option.map_eq_some_iff.1 h
      rw [Bool.or_eq_true, beq_iff_eq, beq_iff_eq, not_or] at hplain
      rw [List.take_succ_cons, List.mem_cons, not_or]
      exact ⟨Ne.symm hplain.2, ih hm⟩

/-- A text block ends with its quotes. -/
theorem exists_body_of_textBlockEnd? {cs : List Char} {n : Nat} (h : textBlockEnd? cs = some n) :
    ∃ body, cs.take n = body ++ ['"', '"', '"'] := by
  fun_induction textBlockEnd? cs generalizing n with
  | case1 c cs ih =>
      obtain ⟨m, hm, rfl⟩ := Option.map_eq_some_iff.1 h
      obtain ⟨body, hbody⟩ := ih hm
      exact ⟨'\\' :: c :: body, by rw [List.take_succ_cons, List.take_succ_cons, hbody]; rfl⟩
  | case2 =>
      cases h
      exact ⟨[], rfl⟩
  | case3 => cases h
  | case4 c cs _ _ _ ih =>
      obtain ⟨m, hm, rfl⟩ := Option.map_eq_some_iff.1 h
      obtain ⟨body, hbody⟩ := ih hm
      exact ⟨c :: body, by rw [List.take_succ_cons, hbody]; rfl⟩
  | case5 => cases h

/-! ## Tokens in step -/

/-- What is left of a source and of the one with carriage returns: the same text, or the last carriage
return has been read already. -/
inductive Tails : List Char → List Char → Prop
  | inStep (cs : List Char) : Tails cs (crlf cs)
  | behindReturn (cs : List Char) : Tails ('\n' :: cs) ('\n' :: crlf cs)

/-- A text block with its quotes. -/
def quotedBlock (body : List Char) : List Char := '"' :: '"' :: '"' :: (body ++ ['"', '"', '"'])

/-- The texts of two tokens of a kind. -/
inductive SameText : TokenKind → List Char → List Char → Prop
  | trivia {kind : TokenKind} {text text' : List Char} : kind.isTrivia = true →
      text'.count '\n' = text.count '\n' → SameText kind text text'
  | plain {kind : TokenKind} {text : List Char} : '\n' ∉ text → SameText kind text text
  | block (body : List Char) : SameText .stringLiteral (quotedBlock body) (quotedBlock (crlf body))

/-- Tokens that begin two texts, and what is left behind them. -/
structure InStep (c : Char) (rest : List Char) (c' : Char) (rest' : List Char)
    (taken taken' : TokenKind × Nat) : Prop where
  kind : taken'.1 = taken.1
  text : SameText taken.1 (c :: rest.take taken.2) (c' :: rest'.take taken'.2)
  tails : Tails (rest.drop taken.2) (rest'.drop taken'.2)

variable {c : Char} {rest : List Char} {kind : TokenKind} {n : Nat}

theorem crlf_split (cs : List Char) (n : Nat) : crlf cs = crlf (cs.take n) ++ crlf (cs.drop n) := by
  rw [← crlf_append, List.take_append_drop]

theorem take_crlfLength (cs : List Char) (n : Nat) :
    (crlf cs).take (crlfLength cs n) = crlf (cs.take n) := by
  rw [crlf_split cs n]
  exact List.take_left' rfl

theorem drop_crlfLength (cs : List Char) (n : Nat) :
    (crlf cs).drop (crlfLength cs n) = crlf (cs.drop n) := by
  rw [crlf_split cs n]
  exact List.drop_left' rfl

/-- Without newlines nothing gets longer. -/
theorem crlfLength_of_not_mem {cs : List Char} (hn : n ≤ cs.length) (h : '\n' ∉ cs.take n) :
    crlfLength cs n = n := by
  rw [crlfLength, crlf_of_not_mem h, List.length_take_of_le hn]

/-- A token that ends at the same place, with its lines. -/
theorem InStep.of_sameText (h : SameText kind (c :: rest.take n) (c :: crlf (rest.take n))) :
    InStep c rest c (crlf rest) (kind, n) (kind, crlfLength rest n) where
  kind := rfl
  text := by rwa [take_crlfLength]
  tails := by
    rw [drop_crlfLength]
    exact .inStep _

/-- A token on one line. -/
theorem InStep.of_not_mem (hc : c ≠ '\n') (hn : n ≤ rest.length) (h : '\n' ∉ rest.take n) :
    InStep c rest c (crlf rest) (kind, n) (kind, n) := by
  have hplain : '\n' ∉ c :: rest.take n := by
    rw [List.mem_cons, not_or]
    exact ⟨hc.symm, h⟩
  have hstep : InStep c rest c (crlf rest) (kind, n) (kind, crlfLength rest n) := by
    refine .of_sameText ?_
    rw [crlf_of_not_mem h]
    exact .plain hplain
  rwa [crlfLength_of_not_mem hn h] at hstep

/-- A construct ends, or is never closed, in both. -/
theorem closed_alike {c' : Char} {rest' : List Char} (construct : Construct) {o o' : Option Nat}
    {f : Nat → Nat} (ho : o' = o.map f)
    (h : ∀ n, o = some n → InStep c rest c' rest' (kind, n) (kind, f n)) :
    EndAlike (InStep c rest c' rest') (closed construct kind o) (closed construct kind o') := by
  subst ho
  cases o with
  | none => exact .error construct
  | some n => exact .ok (h n rfl)

theorem spanLength_isBlank_crlf (cs : List Char) :
    spanLength isBlank (crlf cs) = crlfLength cs (spanLength isBlank cs) := by
  rw [spanLength, takeWhile_crlf rfl, crlfLength, takeWhile_eq_take]

theorem lexeme_blank_crlf (hc : isBlank c = true) :
    EndAlike (InStep c rest c (crlf rest)) (lexeme c rest) (lexeme c (crlf rest)) := by
  rw [lexeme_blank hc, lexeme_blank hc, spanLength_isBlank_crlf]
  refine .ok (.of_sameText (.trivia rfl ?_))
  rw [List.count_cons, List.count_cons, count_crlf]

/-- What a line leaves: nothing, or what comes from its newline on. -/
theorem dropWhile_line (cs : List Char) :
    (cs.dropWhile (· != '\n') = [] ∧ (crlf cs).dropWhile (· != '\n') = []) ∨
      ∃ q, cs.dropWhile (· != '\n') = '\n' :: q ∧ (crlf cs).dropWhile (· != '\n') = '\n' :: crlf q := by
  induction cs with
  | nil => exact .inl ⟨rfl, rfl⟩
  | cons c cs ih =>
      by_cases hc : c = '\n'
      · subst hc
        exact .inr ⟨cs, rfl, rfl⟩
      · have hother : (c != '\n') = true := bne_iff_ne.2 hc
        rw [crlf_cons hc, List.dropWhile_cons, List.dropWhile_cons, if_pos hother, if_pos hother]
        exact ih

/-- A line comment takes the carriage return with it, and leaves the newline. -/
theorem lexeme_lineComment_crlf (q : List Char) :
    EndAlike (InStep '/' ('/' :: q) '/' (crlf ('/' :: q))) (lexeme '/' ('/' :: q))
      (lexeme '/' (crlf ('/' :: q))) := by
  have hnone : ∀ cs : List Char, ('/' :: cs.takeWhile (· != '\n')).count '\n' = 0 := by
    intro cs
    rw [List.count_cons_of_ne (by decide), List.count_eq_zero]
    intro hmem
    have hother := List.mem_takeWhile_imp hmem
    cases hother
  have htails : Tails (('/' :: q).dropWhile (· != '\n')) ((crlf ('/' :: q)).dropWhile (· != '\n')) := by
    rcases dropWhile_line ('/' :: q) with ⟨h, h'⟩ | ⟨left, h, h'⟩
    · rw [h, h']
      exact .inStep []
    · rw [h, h']
      exact .behindReturn left
  rw [crlf_cons (by decide)] at htails ⊢
  rw [lexeme_lineComment, lexeme_lineComment]
  refine .ok ⟨rfl, .trivia rfl ?_, ?_⟩
  · rw [takeWhile_eq_take, takeWhile_eq_take, hnone, hnone]
  · rwa [drop_spanLength, drop_spanLength]

theorem lexeme_blockComment_crlf (q : List Char) :
    EndAlike (InStep '/' ('*' :: q) '/' (crlf ('*' :: q))) (lexeme '/' ('*' :: q))
      (lexeme '/' (crlf ('*' :: q))) := by
  rw [crlf_cons (by decide), lexeme_blockComment, lexeme_blockComment, ← crlf_cons (by decide)]
  refine closed_alike (f := crlfLength ('*' :: q)) .blockComment ?_ fun n _ => .of_sameText (.trivia rfl ?_)
  · rw [commentEnd?_crlf, Option.map_map, Option.map_map]
    refine Option.map_congr fun n _ => ?_
    rw [Function.comp, Function.comp, Nat.add_comm 1 n, crlfLength_cons (by decide), Nat.add_comm]
  · rw [List.count_cons_of_ne (by decide), List.count_cons_of_ne (by decide), count_crlf]

theorem lexeme_quoted_crlf {quote : Char} (hreturn : '\r' ≠ quote) (hnewline : '\n' ≠ quote)
    (construct : Construct) (rest : List Char) :
    EndAlike (InStep quote rest quote (crlf rest)) (closed construct kind (quoteEnd? quote rest))
      (closed construct kind (quoteEnd? quote (crlf rest))) := by
  refine closed_alike (f := id) construct ?_ fun n hn =>
    .of_not_mem hnewline.symm (quoteEnd?_le hn) (newline_not_mem_of_quoteEnd? hnewline hn)
  rw [quoteEnd?_crlf hreturn, Option.map_id, id]

theorem closed_textBlock_crlf (q : List Char) :
    EndAlike (InStep '"' ('"' :: '"' :: q) '"' (crlf ('"' :: '"' :: q)))
      (closed .textBlock .stringLiteral ((textBlockEnd? q).map (2 + ·)))
      (closed .textBlock .stringLiteral ((textBlockEnd? (crlf q)).map (2 + ·))) := by
  have htwo : ∀ m, crlfLength ('"' :: '"' :: q) (2 + m) = 2 + crlfLength q m := by
    intro m
    rw [Nat.add_comm 2 m, crlfLength_cons (by decide), crlfLength_cons (by decide), Nat.add_comm 2]
  refine closed_alike (f := crlfLength ('"' :: '"' :: q)) .textBlock ?_ fun n hn => .of_sameText ?_
  · rw [textBlockEnd?_crlf, Option.map_map, Option.map_map]
    exact Option.map_congr fun m _ => (htwo m).symm
  · obtain ⟨m, hm, rfl⟩ := Option.map_eq_some_iff.1 hn
    obtain ⟨body, hbody⟩ := exists_body_of_textBlockEnd? hm
    have hclosing : '\n' ∉ ['"', '"', '"'] := by decide
    rw [Nat.add_comm 2 m, List.take_succ_cons, List.take_succ_cons, hbody, crlf_cons (by decide),
      crlf_cons (by decide), crlf_append, crlf_of_not_mem hclosing]
    exact .block body

theorem lexeme_quote_crlf (rest : List Char) :
    EndAlike (InStep '"' rest '"' (crlf rest)) (lexeme '"' rest) (lexeme '"' (crlf rest)) := by
  have hthree : followedBy '"' '"' (crlf rest) = followedBy '"' '"' rest :=
    followedBy_crlf (by decide) (by decide) rest
  rw [lexeme_quote, lexeme_quote, opensBlock, opensBlock, hthree]
  cases hquotes : followedBy '"' '"' rest with
  | false => exact lexeme_quoted_crlf (by decide) (by decide) .stringLiteral rest
  | true =>
      obtain ⟨q, rfl⟩ := exists_of_followedBy hquotes
      have htwo : (crlf ('"' :: '"' :: q)).drop 2 = crlf q := by
        rw [crlf_cons (by decide), crlf_cons (by decide)]
        rfl
      rw [htwo, opensTextBlock_crlf, List.drop_succ_cons, List.drop_succ_cons, List.drop_zero]
      cases opensTextBlock q with
      | true => exact closed_textBlock_crlf q
      | false => exact lexeme_quoted_crlf (by decide) (by decide) .stringLiteral _

theorem lexeme_symbol_crlf (hblank : isBlank c = false) (hquote : c ≠ '"') (hchar : c ≠ '\'')
    (hslash : c = '/' → rest.head? ≠ some '/' ∧ rest.head? ≠ some '*') :
    EndAlike (InStep c rest c (crlf rest)) (lexeme c rest) (lexeme c (crlf rest)) := by
  have hline : c ≠ '\n' := by
    rintro rfl
    cases hblank
  have hhead : ∀ d, d ≠ '\r' → rest.head? ≠ some d → (crlf rest).head? ≠ some d := by
    intro d hd hrest hcrlf
    obtain ⟨ds, hds⟩ := List.head?_eq_some_iff.1 hcrlf
    obtain ⟨tail, rfl, -⟩ := eq_cons_of_crlf hd hds
    exact hrest rfl
  have hsymbol := lexeme_of_symbol hblank hquote hchar hslash
  rw [hsymbol, lexeme_of_symbol hblank hquote hchar fun hc =>
    ⟨hhead _ (by decide) (hslash hc).1, hhead _ (by decide) (hslash hc).2⟩, symbolLexeme_crlf]
  exact .ok (.of_not_mem hline (lexeme_le hsymbol) (newline_not_mem_of_symbol hblank hquote hchar hslash))

/-- Texts in step have first tokens in step. -/
theorem lexeme_crlf (c : Char) (rest : List Char) :
    EndAlike (InStep c rest c (crlf rest)) (lexeme c rest) (lexeme c (crlf rest)) := by
  cases hblank : isBlank c with
  | true => exact lexeme_blank_crlf hblank
  | false =>
      by_cases hquote : c = '"'
      · subst hquote
        exact lexeme_quote_crlf rest
      by_cases hchar : c = '\''
      · subst hchar
        exact lexeme_quoted_crlf (by decide) (by decide) .characterLiteral rest
      by_cases hlineComment : c = '/' ∧ rest.head? = some '/'
      · obtain ⟨rfl, hhead⟩ := hlineComment
        obtain ⟨q, rfl⟩ := List.head?_eq_some_iff.1 hhead
        exact lexeme_lineComment_crlf q
      by_cases hblockComment : c = '/' ∧ rest.head? = some '*'
      · obtain ⟨rfl, hhead⟩ := hblockComment
        obtain ⟨q, rfl⟩ := List.head?_eq_some_iff.1 hhead
        exact lexeme_blockComment_crlf q
      · exact lexeme_symbol_crlf hblank hquote hchar fun hc =>
          ⟨fun hhead => hlineComment ⟨hc, hhead⟩, fun hhead => hblockComment ⟨hc, hhead⟩⟩

theorem Tails.exists_cons {cs' : List Char} (h : Tails (c :: rest) cs') :
    ∃ c' rest', cs' = c' :: rest' := by
  cases h with
  | inStep =>
      by_cases hc : c = '\n'
      · subst hc
        exact ⟨'\r', _, crlf_newline rest⟩
      · exact ⟨c, _, crlf_cons hc rest⟩
  | behindReturn cs => exact ⟨'\n', _, rfl⟩

/-- In front of a newline the texts may differ by the carriage return. -/
theorem Tails.cons_cases {c' : Char} {rest' : List Char} (h : Tails (c :: rest) (c' :: rest')) :
    (c = '\n' ∧ c' = '\r' ∧ rest' = '\n' :: crlf rest) ∨ (c' = c ∧ rest' = crlf rest) := by
  generalize hleft' : c' :: rest' = left' at h
  cases h with
  | inStep =>
      by_cases hc : c = '\n'
      · subst hc
        rw [crlf_newline] at hleft'
        obtain ⟨rfl, rfl⟩ := List.cons.inj hleft'
        exact .inl ⟨rfl, rfl, rfl⟩
      · rw [crlf_cons hc] at hleft'
        exact .inr (List.cons.inj hleft')
  | behindReturn => exact .inr (List.cons.inj hleft')

/-- What is left begins with tokens in step. -/
theorem tails_lexeme {c' : Char} {rest' : List Char} (h : Tails (c :: rest) (c' :: rest')) :
    EndAlike (InStep c rest c' rest') (lexeme c rest) (lexeme c' rest') := by
  rcases h.cons_cases with ⟨rfl, rfl, rfl⟩ | ⟨rfl, rfl⟩
  · have hlength : spanLength isBlank ('\n' :: crlf rest) =
        crlfLength rest (spanLength isBlank rest) + 1 := by
      rw [← spanLength_isBlank_crlf]
      rfl
    rw [lexeme_blank rfl, lexeme_blank rfl, hlength]
    refine .ok ⟨rfl, .trivia rfl ?_, ?_⟩
    · rw [List.take_succ_cons, take_crlfLength, List.count_cons_of_ne (by decide),
        List.count_cons_self, List.count_cons_self, count_crlf]
    · rw [List.drop_succ_cons, drop_crlfLength]
      exact .inStep _
  · exact lexeme_crlf c' rest

end Lexer

end EmbeddedSql
