/-
# The shapes of tokens

What a token is made of depends on its kind (`HasShape`), and on the text behind it where the token
takes as much as it can:

| kind | shape |
| :-- | :-- |
| comment of a line | two slashes and the rest of the line |
| block comment | `/*` and everything up to the first `*/` behind it |
| string literal | units on one line between quotes, or a text block |
| other, with a quote in front | units on one line between quotes of that kind |
| blanks | a run that goes on as far as it can, from where the token before it ends |
| operator | the longest operator that the text begins with |

The shapes of what has to be closed are the grammar's (`Construct.IsComplete`).

A run of blanks need not be maximal.  It goes on to the right as far as it can, and to the left up to a
blank that another token has taken before.  Two kinds of tokens do that: the comment of a line takes the
blanks at its end (`tokenize_blankAfterComment`), and a word goes on through the blanks that are not
ASCII (`Token.PrecedesBlanks`).  That no other token ends with a blank is seen from each character of
the numbers, the symbols and the literals.
-/
import EmbeddedSql.Proofs.Text.UpperCase
import EmbeddedSql.Proofs.Token.Constructs

namespace EmbeddedSql

namespace Lexer

/-! ## No blanks in numbers -/

/-- What is counted off holds no blank. -/
def TakesNoBlank (measure : List Char → Nat) : Prop :=
  ∀ cs : List Char, ∀ d ∈ cs.take (measure cs), isBlank d = false

theorem takesNoBlank_spanLength {q : Char → Bool} (hq : ∀ d, q d = true → isBlank d = false) :
    TakesNoBlank (spanLength q) := by
  intro cs d hd
  rw [takeWhile_eq_take] at hd
  exact hq d (List.mem_takeWhile_imp hd)

theorem takesNoBlank_optionalLength {q : Char → Bool} (hq : ∀ d, q d = true → isBlank d = false) :
    TakesNoBlank (optionalLength q) := by
  intro cs d hd
  cases cs with
  | nil => cases hd
  | cons c cs =>
      rw [optionalLength] at hd
      split at hd
      · next hc =>
          obtain rfl := List.mem_singleton.1 hd
          exact hq d hc
      · cases hd

theorem TakesNoBlank.then {f g : List Char → Nat} (hf : TakesNoBlank f) (hg : TakesNoBlank g) :
    TakesNoBlank fun cs => f cs + g (cs.drop (f cs)) := by
  intro cs d hd
  dsimp only at hd
  rw [List.take_add, List.mem_append] at hd
  rcases hd with hd | hd
  · exact hf cs d hd
  · exact hg _ d hd

theorem not_isBlank_of_mem_take {c : Char} {cs : List Char} {n : Nat} (hc : isBlank c = false)
    (hcs : ∀ d ∈ cs.take n, isBlank d = false) : ∀ d ∈ (c :: cs).take (1 + n), isBlank d = false := by
  rw [Nat.add_comm, List.take_succ_cons]
  exact List.forall_mem_cons.2 ⟨hc, hcs⟩

theorem not_isBlank_of_apart {d : Char} (h : ∀ r ∈ blankRanges, d.toNat < r.1 ∨ r.2 < d.toNat) :
    isBlank d = false := by
  refine Bool.eq_false_iff.2 fun hblank => ?_
  obtain ⟨r, hr, hlow, hhigh⟩ := isBlank_iff.1 hblank
  have := h r hr
  omega

theorem not_isBlank_of_isDecimalDigit (d : Char) (h : isDecimalDigit d = true) : isBlank d = false := by
  have happart : ∀ r ∈ blankRanges, ∀ z ∈ decimalZeros, r.2 < z ∨ z + 10 ≤ r.1 := by decide
  rw [isDecimalDigit, decimalValue?, Option.isSome_map, List.find?_isSome] at h
  obtain ⟨z, hz, hrow⟩ := h
  simp only [Bool.and_eq_true, decide_eq_true_eq] at hrow
  refine not_isBlank_of_apart fun r hr => ?_
  have := happart r hr z hz
  omega

theorem not_isBlank_of_isDigitOrBar (d : Char) (h : isDigitOrBar d = true) : isBlank d = false := by
  rcases Bool.or_eq_true_iff.1 h with hdigit | hbar
  · exact not_isBlank_of_isDecimalDigit d hdigit
  · rw [beq_iff_eq.1 hbar]
    rfl

/-- The visible characters of ASCII. -/
theorem not_isBlank_of_visible {d : Char} (hlow : '!' ≤ d) (hhigh : d ≤ '~') : isBlank d = false := by
  have happart : ∀ r ∈ blankRanges, r.2 < '!'.toNat ∨ '~'.toNat < r.1 := by decide
  have hlow : '!'.toNat ≤ d.toNat := hlow
  have hhigh : d.toNat ≤ '~'.toNat := hhigh
  refine not_isBlank_of_apart fun r hr => ?_
  have := happart r hr
  omega

theorem not_isBlank_of_isHexDigitOrBar (d : Char) (h : isHexDigitOrBar d = true) :
    isBlank d = false := by
  simp only [isHexDigitOrBar, Char.isDigit, Bool.or_eq_true, Bool.and_eq_true, decide_eq_true_eq,
    beq_iff_eq] at h
  rcases h with ((⟨hlow, hhigh⟩ | ⟨hlow, hhigh⟩) | ⟨hlow, hhigh⟩) | rfl
  · exact not_isBlank_of_visible (Char.le_trans (by decide) hlow) (Char.le_trans hhigh (by decide))
  · exact not_isBlank_of_visible (Char.le_trans (by decide) hlow) (Char.le_trans hhigh (by decide))
  · exact not_isBlank_of_visible (Char.le_trans (by decide) hlow) (Char.le_trans hhigh (by decide))
  · rfl

/-- Words take no blanks of ASCII. -/
theorem not_isBlank_of_isIdentChar {d : Char} (h : isIdentChar d = true) (hascii : d.toNat < 0x80) :
    isBlank d = false := by
  have halphanum : d.isAlphanum = (decide ('A' ≤ d ∧ d ≤ 'Z') || decide ('a' ≤ d) && decide (d ≤ 'z') ||
      decide ('0' ≤ d) && decide (d ≤ '9')) := rfl
  simp only [isIdentChar, isWordChar, isAlphanumeric, hascii, if_true, halphanum, Bool.or_eq_true,
    Bool.and_eq_true, decide_eq_true_eq, beq_iff_eq] at h
  rcases h with ((((⟨hlow, hhigh⟩ | ⟨hlow, hhigh⟩) | ⟨hlow, hhigh⟩) | rfl) | rfl) | ⟨hlow, -⟩
  · exact not_isBlank_of_visible (Char.le_trans (by decide) hlow) (Char.le_trans hhigh (by decide))
  · exact not_isBlank_of_visible (Char.le_trans (by decide) hlow) (Char.le_trans hhigh (by decide))
  · exact not_isBlank_of_visible (Char.le_trans (by decide) hlow) (Char.le_trans hhigh (by decide))
  · rfl
  · rfl
  · omega

theorem not_isBlank_of_isLongSuffix (d : Char) (h : isLongSuffix d = true) : isBlank d = false := by
  simp only [isLongSuffix, Bool.or_eq_true, beq_iff_eq] at h
  rcases h with rfl | rfl <;> rfl

theorem not_isBlank_of_isNumberSuffix (d : Char) (h : isNumberSuffix d = true) : isBlank d = false := by
  simp only [isNumberSuffix, Bool.or_eq_true, beq_iff_eq] at h
  rcases h with ((((rfl | rfl) | rfl) | rfl) | rfl) | rfl <;> rfl

theorem takesNoBlank_fractionLength : TakesNoBlank fractionLength := by
  intro cs d hd
  cases cs with
  | nil => cases hd
  | cons c cs =>
      rw [fractionLength] at hd
      split at hd
      · next hc =>
          rw [beq_iff_eq.1 hc] at hd
          exact not_isBlank_of_mem_take rfl
            (takesNoBlank_spanLength not_isBlank_of_isDigitOrBar cs) d hd
      · cases hd

theorem takesNoBlank_exponentLength : TakesNoBlank exponentLength := by
  have hsign : ∀ d : Char, (d == '+' || d == '-') = true → isBlank d = false := by
    intro d hd
    simp only [Bool.or_eq_true, beq_iff_eq] at hd
    rcases hd with rfl | rfl <;> rfl
  have hboth := (takesNoBlank_optionalLength hsign).then
    (takesNoBlank_spanLength not_isBlank_of_isDecimalDigit)
  intro cs d hd
  cases cs with
  | nil => cases hd
  | cons e cs =>
      rw [exponentLength] at hd
      dsimp only at hd
      split at hd
      · next he =>
          split at hd
          · cases hd
          · rw [Nat.add_assoc] at hd
            refine not_isBlank_of_mem_take ?_ (hboth cs) d hd
            simp only [Bool.or_eq_true, beq_iff_eq] at he
            rcases he with rfl | rfl <;> rfl
      · cases hd

theorem takesNoBlank_numberTailLength : TakesNoBlank numberTailLength :=
  takesNoBlank_exponentLength.then (takesNoBlank_optionalLength not_isBlank_of_isNumberSuffix)

/-- The mark of a number that is not decimal, its digits and its suffix. -/
theorem not_isBlank_of_markedNumberLength? {q : Char → Bool} (hq : ∀ d, q d = true → isBlank d = false)
    {mark : Char} (hmark : isBlank mark = false) {cs : List Char} {n : Nat}
    (h : markedNumberLength? q cs = some n) : ∀ d ∈ (mark :: cs).take n, isBlank d = false := by
  rw [markedNumberLength?] at h
  split at h
  · cases h
  · cases h
    rw [Nat.add_assoc]
    exact not_isBlank_of_mem_take hmark <| (takesNoBlank_spanLength hq).then
      (takesNoBlank_optionalLength not_isBlank_of_isLongSuffix) cs

theorem not_isBlank_of_radixNumberLength? {c : Char} {cs : List Char} {n : Nat}
    (h : radixNumberLength? c cs = some n) : ∀ d ∈ cs.take n, isBlank d = false := by
  cases cs with
  | nil => cases h
  | cons mark cs =>
      rw [radixNumberLength?] at h
      split at h
      · cases h
      split at h
      · next hmark =>
          refine not_isBlank_of_markedNumberLength? not_isBlank_of_isHexDigitOrBar ?_ h
          simp only [Bool.or_eq_true, beq_iff_eq] at hmark
          rcases hmark with rfl | rfl <;> rfl
      split at h
      · next hmark =>
          refine not_isBlank_of_markedNumberLength? (fun d hd => ?_) ?_ h
          · simp only [Bool.or_eq_true, beq_iff_eq] at hd
            rcases hd with (rfl | rfl) | rfl <;> rfl
          · simp only [Bool.or_eq_true, beq_iff_eq] at hmark
            rcases hmark with rfl | rfl <;> rfl
      · cases h

theorem not_isBlank_of_numberLength? {c : Char} {rest : List Char} {n : Nat}
    (h : numberLength? c rest = some n) : ∀ d ∈ rest.take n, isBlank d = false := by
  have hdigits := takesNoBlank_spanLength not_isBlank_of_isDigitOrBar
  rw [numberLength?] at h
  split at h
  · next hradix =>
      cases h
      exact not_isBlank_of_radixNumberLength? hradix
  split at h
  · cases h
    exact (hdigits.then takesNoBlank_fractionLength).then takesNoBlank_numberTailLength rest
  split at h
  · cases h
    exact hdigits.then takesNoBlank_numberTailLength rest
  · cases h

/-! ## Operators -/

theorem operators_sorted : operators.Pairwise fun op op' => op'.length ≤ op.length := by decide

theorem not_isBlank_of_mem_operators {op : String} (h : op ∈ operators) :
    ∀ d ∈ op.toList, isBlank d = false := by
  have hall : (operators.all fun op => op.toList.all (!isBlank ·)) = true := by decide
  intro d hd
  exact Bool.not_eq_eq_eq_not.1 (List.all_eq_true.1 (List.all_eq_true.1 hall op h) d hd)

/-- The operator that is found is in the list, and the text begins with no longer one. -/
theorem operator?_longest {cs : List Char} {op : String} (h : operator? cs = some op) :
    op ∈ operators ∧ op.toList <+: cs ∧
      ∀ op' ∈ operators, op'.toList <+: cs → op'.length ≤ op.length := by
  obtain ⟨hfound, before, after, hlist, hbefore⟩ := List.find?_eq_some_iff_append.1 h
  refine ⟨List.mem_of_find?_eq_some h, List.isPrefixOf_iff_prefix.1 hfound, ?_⟩
  intro op' hop' hprefix
  have hsorted := operators_sorted
  rw [hlist, List.pairwise_append, List.pairwise_cons] at hsorted
  rw [hlist, List.mem_append, List.mem_cons] at hop'
  rcases hop' with hmem | rfl | hmem
  · have hno := hbefore op' hmem
    rw [List.isPrefixOf_iff_prefix.2 hprefix] at hno
    cases hno
  · exact Nat.le_refl _
  · exact hsorted.2.1.1 op' hmem

/-! ## Symbols -/

/-- What is cut off where neither a blank nor a comment nor a literal begins. -/
inductive CutsSymbol (c : Char) (rest : List Char) : TokenKind → Nat → Prop
  | number {n : Nat} : numberLength? c rest = some n → CutsSymbol c rest .other n
  | word : CutsSymbol c rest .identifier (spanLength isIdentChar rest)
  | dots {q : List Char} : rest = '.' :: '.' :: q → CutsSymbol c rest .punctuation 2
  | mark : CutsSymbol c rest .punctuation 0
  | operator {op : String} : operator? (c :: rest) = some op →
      CutsSymbol c rest .operator (op.length - 1)
  | other : CutsSymbol c rest .other 0

theorem cutsSymbol (c : Char) (rest : List Char) :
    CutsSymbol c rest (symbolLexeme c rest).1 (symbolLexeme c rest).2 := by
  rw [symbolLexeme]
  split
  · next hnumber => exact .number hnumber
  split
  · exact .word
  split
  · next hdots =>
      obtain ⟨q, hq⟩ := exists_of_followedBy (Bool.and_eq_true_iff.1 hdots).2
      exact .dots hq
  split
  · exact .mark
  split
  · next hop => exact .operator hop
  · exact .other

/-- An operator is all of its token. -/
theorem toList_of_operator? {c : Char} {rest : List Char} {op : String}
    (h : operator? (c :: rest) = some op) : c :: rest.take (op.length - 1) = op.toList := by
  obtain ⟨hmem, hprefix, -⟩ := operator?_longest h
  obtain ⟨hne, -⟩ := operators_break hmem
  have hlength : op.length - 1 + 1 = op.toList.length :=
    Nat.sub_add_cancel (List.length_pos_iff.2 hne)
  rw [← List.take_succ_cons, hlength, ← List.prefix_iff_eq_take.1 hprefix]

/-- Only words may hold blanks. -/
theorem CutsSymbol.not_isBlank {c : Char} {rest : List Char} {kind : TokenKind} {n : Nat}
    (h : CutsSymbol c rest kind n) (hc : isBlank c = false) (hkind : kind ≠ .identifier) :
    ∀ d ∈ c :: rest.take n, isBlank d = false := by
  have hcons : (∀ d ∈ rest.take n, isBlank d = false) →
      ∀ d ∈ c :: rest.take n, isBlank d = false := fun hrest =>
    List.forall_mem_cons.2 ⟨hc, hrest⟩
  cases h with
  | number hnumber => exact hcons (not_isBlank_of_numberLength? hnumber)
  | word => exact absurd rfl hkind
  | dots hrest =>
      subst hrest
      refine hcons fun d hd => ?_
      simp only [List.take_succ_cons, List.take_zero, List.mem_cons, List.not_mem_nil, or_false,
        or_self] at hd
      rw [hd]
      rfl
  | mark => exact hcons fun d hd => by cases hd
  | operator hop =>
      rw [toList_of_operator? hop]
      exact not_isBlank_of_mem_operators (operator?_longest hop).1
  | other => exact hcons fun d hd => by cases hd

theorem CutsSymbol.of_isBlank {c : Char} {rest : List Char} {kind : TokenKind} {n : Nat}
    (h : CutsSymbol c rest kind n) (hc : isBlank c = false) :
    ∀ d ∈ c :: rest.take n, isBlank d = true → kind = .identifier ∧ 0x80 ≤ d.toNat := by
  intro d hd hblank
  by_cases hkind : kind = .identifier
  · refine ⟨hkind, Nat.le_of_not_lt fun hascii => ?_⟩
    subst hkind
    cases h with
    | word =>
        have hident : isIdentChar d = true := by
          rw [takeWhile_eq_take] at hd
          rcases List.mem_cons.1 hd with rfl | hd
          · rw [hc] at hblank
            cases hblank
          · exact List.mem_takeWhile_imp hd
        rw [not_isBlank_of_isIdentChar hident hascii] at hblank
        cases hblank
  · rw [h.not_isBlank hc hkind d hd] at hblank
    cases hblank

end Lexer

/-! ## The end of a construct -/

theorem ClosesQuoted.getLast? {quote : Char} {body : List Char} (h : ClosesQuoted quote body) :
    body.getLast? = some quote := by
  induction h with
  | quote => rfl
  | plain _ _ _ _ ih => rw [List.getLast?_cons, ih, Option.getD_some]
  | escape _ _ ih => rw [List.getLast?_cons, List.getLast?_cons, ih, Option.getD_some, Option.getD_some]

theorem ClosesBlock.getLast? {body : List Char} (h : ClosesBlock body) :
    body.getLast? = some '"' := by
  induction h with
  | quotes => rfl
  | plain _ _ _ ih => rw [List.getLast?_cons, ih, Option.getD_some]
  | escape _ ih => rw [List.getLast?_cons, List.getLast?_cons, ih, Option.getD_some, Option.getD_some]

theorem ClosesComment.getLast? {body : List Char} (h : ClosesComment body) :
    body.getLast? = some '/' := by
  obtain ⟨inside, rfl⟩ := h.ends
  rw [List.getLast?_append]
  rfl

/-- A construct does not end with a blank. -/
theorem Construct.IsComplete.not_isBlank {construct : Construct} {text : List Char}
    (h : construct.IsComplete text) : ∀ d ∈ text.getLast?, isBlank d = false := by
  have hlast : text.getLast? = some '"' ∨ text.getLast? = some '\'' ∨ text.getLast? = some '/' := by
    cases construct with
    | stringLiteral =>
        obtain ⟨body, hbody, rfl⟩ := h
        rw [List.getLast?_cons, hbody.getLast?]
        exact .inl rfl
    | characterLiteral =>
        obtain ⟨body, hbody, rfl⟩ := h
        rw [List.getLast?_cons, hbody.getLast?]
        exact .inr (.inl rfl)
    | textBlock =>
        obtain ⟨gap, body, -, hbody, rfl⟩ := h
        rw [List.getLast?_append, List.getLast?_append, List.getLast?_cons, hbody.getLast?]
        exact .inl rfl
    | blockComment =>
        obtain ⟨body, hbody, rfl⟩ := h
        rw [List.getLast?_cons, List.getLast?_cons, hbody.getLast?]
        exact .inr (.inr rfl)
  intro d hd
  rcases hlast with heq | heq | heq <;>
  · rw [heq] at hd
    cases hd
    rfl

/-! ## Shapes -/

/-- Two slashes and the rest of their line. -/
structure IsLineComment (text after : List Char) : Prop where
  opens : ['/', '/'] <+: text
  noBreak : '\n' ∉ text
  ends : after = [] ∨ ∃ next, after = '\n' :: next

/-- A token that a run of blanks may follow.  It is no run of blanks itself, and it ends with a blank
only if it has to: the comment of a line takes all of the line, and a word takes every character from
`0x80` to `0xFFFF`. -/
structure Token.PrecedesBlanks (t : Token) : Prop where
  notBlanks : t.kind ≠ .whitespace
  ends : ∀ c ∈ t.text.toList.getLast?, isBlank c = true →
    t.kind = .lineComment ∨ t.kind = .identifier ∧ 0x80 ≤ c.toNat

/-- Blanks that go on to the right as far as they can.  To the left they stop at the token before them,
and that token may end with a blank. -/
structure IsBlankRun (before : List Token) (text after : List Char) : Prop where
  nonempty : text ≠ []
  blank : ∀ c ∈ text, isBlank c = true
  left : ∀ t ∈ before.getLast?, t.PrecedesBlanks
  right : ∀ c ∈ after.head?, isBlank c = false

/-- The longest of the operators that a text begins with. -/
structure IsLongestOperator (text after : List Char) : Prop where
  listed : String.ofList text ∈ Lexer.operators
  longest : ∀ op ∈ Lexer.operators, op.toList <+: text ++ after → op.length ≤ text.length

/-- What the text of a token of a kind looks like, between the tokens before it and the text behind
it. -/
def HasShape (before : List Token) (text after : List Char) : TokenKind → Prop
  | .lineComment => IsLineComment text after
  | .blockComment => Construct.blockComment.IsComplete text
  | .stringLiteral => Construct.stringLiteral.IsComplete text ∨ Construct.textBlock.IsComplete text
  | .other => text.head? = some '\'' → Construct.characterLiteral.IsComplete text
  | .whitespace => IsBlankRun before text after
  | .operator => IsLongestOperator text after
  | .identifier | .punctuation => True

namespace Lexer

variable {c : Char} {rest : List Char} {kind : TokenKind} {n : Nat}

theorem toList_tokenAt (line : Nat) (c : Char) (rest : List Char) (kind : TokenKind) (n : Nat) :
    (tokenAt line c rest kind n).text.toList = c :: rest.take n := String.toList_ofList

/-- What a run of blanks leaves begins with none. -/
theorem not_isBlank_of_drop (rest : List Char) :
    ∀ d ∈ (rest.drop (spanLength isBlank rest)).head?, isBlank d = false := by
  intro d hd
  have hstops := List.head?_dropWhile_not isBlank rest
  rw [drop_spanLength] at hd
  rw [Option.mem_def.1 hd] at hstops
  exact hstops

theorem isBlankRun_of_lexeme {before : List Token} (hblank : isBlank c = true)
    (hleft : ∀ t ∈ before.getLast?, t.PrecedesBlanks) :
    IsBlankRun before (c :: rest.take (spanLength isBlank rest))
      (rest.drop (spanLength isBlank rest)) where
  nonempty := List.cons_ne_nil _ _
  blank := by
    rw [takeWhile_eq_take]
    exact List.forall_mem_cons.2 ⟨hblank, fun d hd => List.mem_takeWhile_imp hd⟩
  left := hleft
  right := not_isBlank_of_drop rest

theorem isLineComment_of_lexeme (q : List Char) :
    IsLineComment ('/' :: ('/' :: q).take (spanLength (· != '\n') ('/' :: q)))
      (('/' :: q).drop (spanLength (· != '\n') ('/' :: q))) where
  opens := by
    rw [takeWhile_eq_take, List.takeWhile_cons_of_pos (by decide)]
    exact ⟨q.takeWhile (· != '\n'), rfl⟩
  noBreak := by
    rw [takeWhile_eq_take]
    intro hmem
    rcases List.mem_cons.1 hmem with heq | hmem
    · cases heq
    · cases List.mem_takeWhile_imp hmem
  ends := by
    rw [drop_spanLength]
    rcases dropWhile_line ('/' :: q) with ⟨hnone, -⟩ | ⟨next, hnext, -⟩
    · exact .inl hnone
    · exact .inr ⟨next, hnext⟩

theorem isLongestOperator_of_operator? {op : String} (h : operator? (c :: rest) = some op) :
    IsLongestOperator (c :: rest.take (op.length - 1)) (rest.drop (op.length - 1)) := by
  obtain ⟨hmem, -, hlongest⟩ := operator?_longest h
  have htext := toList_of_operator? h
  refine ⟨?_, fun op' hop' hprefix => ?_⟩
  · rw [htext, String.ofList_toList]
    exact hmem
  · rw [List.cons_append, List.take_append_drop] at hprefix
    rw [htext]
    exact hlongest op' hop' hprefix

/-- One token. -/
theorem hasShape_of_lexeme {before : List Token} (h : lexeme c rest = .ok (kind, n))
    (hleft : isBlank c = true → ∀ t ∈ before.getLast?, t.PrecedesBlanks) :
    HasShape before (c :: rest.take n) (rest.drop n) kind := by
  cases begins c rest with
  | blank hblank =>
      rw [lexeme_blank hblank] at h
      cases h
      exact isBlankRun_of_lexeme hblank (hleft hblank)
  | lineComment =>
      rw [lexeme_lineComment] at h
      cases h
      exact isLineComment_of_lexeme _
  | construct construct hopens =>
      obtain ⟨rfl, hcomplete⟩ := isComplete_of_lexeme hopens h
      cases construct with
      | stringLiteral => exact .inl hcomplete
      | characterLiteral => exact fun _ => hcomplete
      | textBlock => exact .inr hcomplete
      | blockComment => exact hcomplete
  | symbol _ _ hchar hsymbol =>
      have hother : HasShape before (c :: rest.take n) (rest.drop n) .other :=
        fun hhead => absurd (Option.some.inj hhead) hchar
      have hcut := cutsSymbol c rest
      rw [hsymbol] at h
      rw [Except.ok.inj h] at hcut
      cases hcut with
      | number => exact hother
      | word => trivial
      | dots => trivial
      | mark => trivial
      | operator hop => exact isLongestOperator_of_operator? hop
      | other => exact hother

/-- The token before a run of blanks. -/
theorem precedesBlanks_of_lexeme {d : Char} {left : List Char} (h : lexeme c rest = .ok (kind, n))
    (hnext : rest.drop n = d :: left) (hd : isBlank d = true) (line : Nat) :
    (tokenAt line c rest kind n).PrecedesBlanks := by
  cases begins c rest with
  | blank hblank =>
      rw [lexeme_blank hblank] at h
      cases h
      rw [not_isBlank_of_drop rest d (by rw [hnext]; rfl)] at hd
      cases hd
  | lineComment =>
      rw [lexeme_lineComment] at h
      cases h
      exact ⟨by rintro ⟨⟩, fun _ _ _ => .inl rfl⟩
  | construct construct hopens =>
      obtain ⟨rfl, hcomplete⟩ := isComplete_of_lexeme hopens h
      refine ⟨by cases construct <;> rintro ⟨⟩, fun e he hblank => ?_⟩
      rw [toList_tokenAt] at he
      rw [hcomplete.not_isBlank e he] at hblank
      cases hblank
  | symbol hblank _ _ hsymbol =>
      have hcut := cutsSymbol c rest
      rw [hsymbol] at h
      rw [Except.ok.inj h] at hcut
      refine ⟨by cases hcut <;> rintro ⟨⟩, fun e he hblank' => .inr ?_⟩
      rw [toList_tokenAt] at he
      exact hcut.of_isBlank hblank e (List.mem_of_getLast? he) hblank'

/-! ## Runs of the lexer -/

variable {line last : Nat} {cs left : List Char} {before after : List Token} {t : Token}

theorem Cuts.precedesBlanks (h : Cuts line cs before last (c :: rest)) (hc : isBlank c = true) :
    ∀ t ∈ before.getLast?, t.PrecedesBlanks := by
  intro t ht
  -- the last token is cut right in front of the blank
  obtain ⟨earlier, rfl⟩ := List.getLast?_eq_some_iff.1 ht
  obtain ⟨mid, cs', -, hlast⟩ := h.split
  generalize hleft : c :: rest = left at hlast
  cases hlast with
  | token hl hdone =>
      generalize hdrop : List.drop _ _ = left' at hdone
      cases hdone
      exact precedesBlanks_of_lexeme hl (hdrop.trans hleft.symm) hc _

theorem Cuts.hasShape (h : Cuts line cs (before ++ t :: after) last []) :
    HasShape before t.text.toList (textOf after) t.kind := by
  obtain ⟨mid, left, hbefore, hcuts⟩ := h.split
  cases hcuts with
  | token hl hafter =>
      have hshape := hasShape_of_lexeme hl fun hc => hbefore.precedesBlanks hc
      rw [hafter.text, List.append_nil] at hshape
      rw [toList_tokenAt]
      exact hshape

end Lexer

/-- Every token of a source has the shape of its kind. -/
theorem tokenize_shapes {source : String} {tokens : List Token} (h : tokenize source = .ok tokens) :
    ∀ before t after, tokens = before ++ t :: after →
      source.toList = Lexer.textOf before ++ (t.text.toList ++ Lexer.textOf after) ∧
        HasShape before t.text.toList (Lexer.textOf after) t.kind := by
  intro before t after htokens
  obtain ⟨last, hcuts⟩ := Lexer.tokensFrom_eq_ok_iff.1 h
  rw [htokens] at hcuts
  refine ⟨?_, hcuts.hasShape⟩
  rw [hcuts.text, List.append_nil]
  simp only [Lexer.textOf, List.flatMap_append, List.flatMap_cons]

/-- A comment that seems to end where it begins, quotes and backslashes in literals, two literals side
by side, and a comment that ends with a blank. -/
def shapedSource : String := "/*/ */\"\\\"\\\\\"\"\" \t'\\''>>>=\"\"\" \n\\\"\\\\\"\"\"//* \n"

theorem tokenize_shapes_shapedSource :
    ∃ tokens, tokenize shapedSource = .ok tokens ∧
      tokens.map (·.text) = ["/*/ */", "\"\\\"\\\\\"", "\"\"", " \t", "'\\''", ">>>=",
        "\"\"\" \n\\\"\\\\\"\"\"", "//* ", "\n"] ∧
      ∀ before t after, tokens = before ++ t :: after →
        shapedSource.toList = Lexer.textOf before ++ (t.text.toList ++ Lexer.textOf after) ∧
          HasShape before t.text.toList (Lexer.textOf after) t.kind := by
  let tokens : List Token :=
    [⟨.blockComment, "/*/ */", 1, 1⟩, ⟨.stringLiteral, "\"\\\"\\\\\"", 1, 1⟩,
      ⟨.stringLiteral, "\"\"", 1, 1⟩, ⟨.whitespace, " \t", 1, 1⟩, ⟨.other, "'\\''", 1, 1⟩,
      ⟨.operator, ">>>=", 1, 1⟩, ⟨.stringLiteral, "\"\"\" \n\\\"\\\\\"\"\"", 1, 2⟩,
      ⟨.lineComment, "//* ", 2, 2⟩, ⟨.whitespace, "\n", 2, 3⟩]
  have htokens : tokenize shapedSource = .ok tokens := by decide +kernel
  exact ⟨tokens, htokens, rfl, tokenize_shapes htokens⟩

/-- The blank at the end of a comment belongs to the comment, so that the blanks behind it are no maximal
run. -/
theorem tokenize_blankAfterComment :
    ∃ before t after, tokenize "// a \nb" = .ok (before ++ t :: after) ∧ t.kind = .whitespace ∧
      ∃ c ∈ (Lexer.textOf before).getLast?, isBlank c = true := by
  have htokens : tokenize "// a \nb" = .ok
      [⟨.lineComment, "// a ", 1, 1⟩, ⟨.whitespace, "\n", 1, 2⟩, ⟨.identifier, "b", 2, 2⟩] := by
    decide +kernel
  exact ⟨[⟨.lineComment, "// a ", 1, 1⟩], ⟨.whitespace, "\n", 1, 2⟩, [⟨.identifier, "b", 2, 2⟩],
    htokens, rfl, ' ', by decide, by decide⟩

end EmbeddedSql
