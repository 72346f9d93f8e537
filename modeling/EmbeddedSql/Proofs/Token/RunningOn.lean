/-
# Tokens that run on

A token that is put in front of another text may take in characters of it, for the lexer makes each token
as long as it can.  Which characters do so depends on the token:

| a token | runs on with |
| :-- | :-- |
| a word | a character of words |
| an operator | a character with which it is an operator again; a slash also with a slash or a star |
| a point | a digit, or two more points |
| a number | a text with which it is a number again |
| a literal | nothing |

Only a number has to look further than the next character: `1_` takes in all of `e+5` or nothing of it.
A token that has been cut from some source is cut again in front of another text if and only if it does
not run on with that text (`lexeme_append_iff`).

A literal ends with its closing quote.  The empty literal makes three quotes with a literal behind it, but
these open no text block, since the text begins with a literal (`opensTextBlock_of_literal`).
-/
import EmbeddedSql.Proofs.Token.Locality
import EmbeddedSql.Proofs.Token.Numerals

namespace EmbeddedSql

namespace Lexer

/-- A token takes in characters of a text that follows it. -/
def RunsOn (kind : TokenKind) (text next : List Char) : Prop :=
  match kind with
  | .identifier => ∃ d ∈ next.head?, isIdentChar d = true
  | .operator =>
    ∃ d ∈ next.head?, String.ofList (text ++ [d]) ∈ operators ∨ text = ['/'] ∧ (d = '/' ∨ d = '*')
  | .punctuation =>
    text = ['.'] ∧ ((∃ d ∈ next.head?, isDecimalDigit d = true) ∨ ['.', '.'] <+: next)
  | .other => ∃ q, q ≠ [] ∧ q <+: next ∧ IsNumber (text ++ q)
  | _ => False

variable {c : Char} {p next : List Char} {kind : TokenKind}

/-! ## Words -/

/-- Only digits and points begin numbers. -/
theorem numberLength?_eq_none_iff :
    numberLength? c p = none ↔
      isDecimalDigit c = false ∧ ¬ (c = '.' ∧ ∃ d ∈ p.head?, isDecimalDigit d = true) := by
  have hhead : (p.head?.map isDecimalDigit).getD false = true ↔
      ∃ d ∈ p.head?, isDecimalDigit d = true := by
    cases p <;> simp
  cases hradix : radixNumberLength? c p with
  | some n =>
      have hzero : isDecimalDigit c = true := by
        cases p with
        | nil => cases hradix
        | cons mark rest =>
            rw [radixNumberLength?] at hradix
            split at hradix
            · cases hradix
            · next hc =>
                obtain rfl : c = '0' := by simpa using hc
                rfl
      rw [numberLength?, hradix, hzero]
      exact iff_of_false (Option.some_ne_none n) fun h => Bool.true_eq_false.mp h.1
  | none =>
      rw [numberLength?, hradix, ← hhead]
      cases hc : isDecimalDigit c with
      | true => exact iff_of_false (Option.some_ne_none _) fun h => Bool.true_eq_false.mp h.1
      | false =>
          dsimp only
          rw [if_neg Bool.false_ne_true]
          split
          · next hpoint =>
              rw [Bool.and_eq_true, beq_iff_eq] at hpoint
              exact iff_of_false (Option.some_ne_none _) fun h => h.2 hpoint
          · next hpoint =>
              rw [Bool.and_eq_true, beq_iff_eq] at hpoint
              exact iff_of_true rfl ⟨rfl, hpoint⟩

theorem numberLength?_eq_none (hdigit : isDecimalDigit c = false) (hpoint : c ≠ '.') :
    numberLength? c p = none :=
  numberLength?_eq_none_iff.2 ⟨hdigit, fun h => hpoint h.1⟩

/-- A number begins with a digit or a point. -/
theorem IsNumber.head (h : IsNumber (c :: p)) : isDecimalDigit c = true ∨ c = '.' := by
  cases h with
  | hexadecimal => exact .inl rfl
  | binary => exact .inl rfl
  | decimal hfirst => exact .inl hfirst
  | point => exact .inr rfl

theorem spanLength_append_iff {q : Char → Bool} (h : spanLength q p = p.length) :
    spanLength q (p ++ next) = p.length ↔ ¬ ∃ d ∈ next.head?, q d = true := by
  have hall : IsStretch q p := by
    have := isStretch_take q p
    rwa [h, List.take_length] at this
  constructor
  · rintro hspan ⟨d, hd, hq⟩
    obtain ⟨w, rfl⟩ := List.head?_eq_some_iff.1 hd
    rw [spanLength, List.takeWhile_append_of_pos hall, List.takeWhile_cons, if_pos hq] at hspan
    simp at hspan
  · intro hclear
    exact spanLength_append hall fun d hd => Bool.eq_false_iff.2 fun hq => hclear ⟨d, hd, hq⟩

theorem symbolLexeme_word_iff (hnumber : numberLength? c p = none) (hc : isIdentStart c = true)
    (hp : spanLength isIdentChar p = p.length) :
    symbolLexeme c (p ++ next) = (.identifier, p.length) ↔
      ¬ RunsOn .identifier (c :: p) next := by
  have hpoint : c ≠ '.' := by
    rintro rfl
    cases hc
  rw [symbolLexeme, numberLength?_eq_none (numberLength?_eq_none_iff.1 hnumber).1 hpoint]
  dsimp only
  rw [if_pos hc, Prod.mk.injEq, and_iff_right rfl]
  exact spanLength_append_iff hp

/-! ## Numbers -/

theorem symbolLexeme_number_iff (hp : numberLength? c p = some p.length) :
    symbolLexeme c (p ++ next) = (.other, p.length) ↔ ¬ RunsOn .other (c :: p) next := by
  -- what is found in the whole is found in every part that holds it
  have hpart : ∀ q w n, next = q ++ w → numberLength? c (p ++ next) = some n →
      n ≤ (p ++ q).length → numberLength? c (p ++ q) = some n := by
    rintro q w n rfl hn hle
    rw [← List.append_assoc] at hn
    rw [← hn]
    refine numberLength?_local fun m hm => ?_
    rw [hn] at hm
    exact Option.some.inj hm ▸ hle
  obtain ⟨n, hn⟩ : ∃ n, numberLength? c (p ++ next) = some n := by
    refine Option.ne_none_iff_exists'.1 fun hnone => ?_
    have hsame : numberLength? c p = numberLength? c (p ++ next) := numberLength?_local (by simp [hnone])
    rw [hp, hnone] at hsame
    cases hsame
  have hcut : symbolLexeme c (p ++ next) = (.other, p.length) ↔ n = p.length := by
    rw [symbolLexeme, hn]
    dsimp only
    rw [Prod.mk.injEq, and_iff_right rfl]
  rw [hcut]
  constructor
  · rintro rfl ⟨q, hq, ⟨w, hw⟩, hnumber⟩
    have hwhole : numberLength? c (p ++ q) = some (p ++ q).length :=
      numberLength?_eq_length_iff.2 hnumber
    rw [hpart q w p.length hw.symm hn (by simp)] at hwhole
    have hlength := Option.some.inj hwhole
    rw [List.length_append] at hlength
    exact hq (List.length_eq_zero_iff.1 (by omega))
  · intro hends
    have hle := numberLength?_le hn
    rw [List.length_append] at hle
    have hge : ¬ n < p.length := by
      intro hlt
      have hshort := hpart [] next n rfl hn (by rw [List.append_nil]; omega)
      rw [List.append_nil, hp] at hshort
      exact absurd (Option.some.inj hshort) (by omega)
    by_contra hne
    have hlength : (p ++ next.take (n - p.length)).length = n := by
      rw [List.length_append, List.length_take_of_le (by omega)]
      omega
    refine hends ⟨next.take (n - p.length), ?_, List.take_prefix _ _, ?_⟩
    · intro hnil
      rw [hnil, List.append_nil] at hlength
      omega
    · have hwhole := hpart _ _ n (List.take_append_drop _ next).symm hn hlength.ge
      exact numberLength?_eq_length_iff.1 (hlength.symm ▸ hwhole)

/-! ## Operators -/

/-- What begins an operator is one. -/
theorem mem_operators_of_prefix {op : String} {text : List Char} (hop : op ∈ operators)
    (htext : text ≠ []) (h : text <+: op.toList) : String.ofList text ∈ operators := by
  have hall : ∀ op ∈ operators, ∀ n ∈ List.range 4,
      String.ofList (op.toList.take (n + 1)) ∈ operators ∧ op.toList.length ≤ 4 := by decide
  obtain ⟨n, hn⟩ : ∃ n, text.length = n + 1 :=
    Nat.exists_eq_succ_of_ne_zero fun hzero => htext (List.length_eq_zero_iff.1 hzero)
  have hle := h.length_le
  have hlength := (hall op hop 0 (by decide)).2
  have hprefix := (hall op hop n (List.mem_range.2 (by omega))).1
  rwa [← hn, ← List.prefix_iff_eq_take.1 h] at hprefix

/-- The longest operator of an operator is this one. -/
theorem operator?_self {op : String} (hop : op ∈ operators) : operator? op.toList = some op := by
  have hall : ∀ op ∈ operators, operator? op.toList = some op := by decide
  exact hall op hop

theorem operator?_eq_some {cs : List Char} {op : String} (h : operator? cs = some op) :
    op ∈ operators ∧ op.toList <+: cs := by
  have hprefix := List.find?_some h
  exact ⟨List.mem_of_find?_eq_some h, List.isPrefixOf_iff_prefix.1 hprefix⟩

/-- Operators that begin one text and are as long as each other. -/
theorem operator_eq {cs : List Char} {op o : String} (hop : op ∈ operators) (ho : o ∈ operators)
    (h : op.toList <+: cs) (h' : o.toList <+: cs) (hlength : op.length - 1 = o.length - 1) :
    op = o := by
  have hpos (o : String) (ho : o ∈ operators) : 0 < o.length :=
    List.length_pos_iff.2 (operators_break ho).1
  have hop := hpos op hop
  have ho := hpos o ho
  have hsame : op.toList.length = o.toList.length := by
    rw [String.length_toList, String.length_toList]
    omega
  exact String.toList_injective
    ((List.prefix_of_prefix_length_le h h' hsame.le).eq_of_length hsame)

/-- An operator is the longest one in front of a text unless it is one with the next character too. -/
theorem operator?_append_iff {op : String} (hop : op.toList = c :: p) (hmem : op ∈ operators) :
    operator? (c :: (p ++ next)) = some op ↔
      ¬ ∃ d ∈ next.head?, String.ofList (c :: p ++ [d]) ∈ operators := by
  have hlength : op.length = p.length + 1 := congrArg List.length hop
  constructor
  · rintro h ⟨d, hd, hlonger⟩
    obtain ⟨w, rfl⟩ := List.head?_eq_some_iff.1 hd
    rw [List.append_cons] at h
    have hwithin : operator? (c :: (p ++ [d])) = some op := by
      rw [← h]
      refine operator?_local fun o ho => ?_
      rw [h] at ho
      rw [← Option.some.inj ho, hlength]
      simp
    have hself := operator?_self hlonger
    rw [String.toList_ofList, List.cons_append, hwithin] at hself
    have := congrArg String.toList (Option.some.inj hself)
    rw [hop, String.toList_ofList] at this
    simp at this
  · intro hends
    cases hfind : operator? (c :: (p ++ next)) with
    | none =>
        refine absurd ?_ (List.find?_eq_none.1 hfind op hmem)
        exact List.isPrefixOf_iff_prefix.2 (hop ▸ List.prefix_append (c :: p) next)
    | some o =>
        obtain ⟨ho, hprefix⟩ := operator?_eq_some hfind
        have hp : operator? (c :: p) = some op := hop ▸ operator?_self hmem
        rcases Nat.lt_or_ge (c :: p).length o.toList.length with hlonger | hshort
        · -- the operator and the next character begin a longer one
          obtain ⟨q, hq⟩ := List.prefix_of_prefix_length_le (List.prefix_append (c :: p) next)
            hprefix hlonger.le
          cases q with
          | nil =>
              rw [← hq, List.append_nil] at hlonger
              exact absurd hlonger (Nat.lt_irrefl _)
          | cons d q =>
              rw [← hq, List.cons_append, List.cons_prefix_cons] at hprefix
              obtain ⟨w, hw⟩ := (List.prefix_append_right_inj p).1 hprefix.2
              refine absurd ⟨d, ?_, mem_operators_of_prefix ho (List.cons_ne_nil _ _) ?_⟩ hends
              · rw [← hw]
                rfl
              · exact ⟨q, by rw [← hq, List.append_assoc]; rfl⟩
        · have hsame : operator? (c :: p) = operator? (c :: (p ++ next)) := by
            refine operator?_local fun o' ho' => ?_
            rw [hfind] at ho'
            rw [← Option.some.inj ho']
            exact hshort
          rw [← hfind, ← hsame, hp]

/-- Where an operator can be there is one, whatever follows. -/
theorem operator?_eq_none (h : operator? (c :: p) = none) : operator? (c :: next) = none := by
  refine Option.eq_none_iff_forall_ne_some.2 fun op hop => ?_
  obtain ⟨hmem, hprefix⟩ := operator?_eq_some hop
  cases hcs : op.toList with
  | nil => exact (operators_break hmem).1 hcs
  | cons d rest =>
      obtain rfl : d = c := by
        rw [hcs] at hprefix
        exact (List.cons_prefix_cons.1 hprefix).1
      have hone : String.ofList [d] ∈ operators :=
        mem_operators_of_prefix hmem (List.cons_ne_nil d []) ⟨rest, by rw [hcs]; rfl⟩
      refine List.find?_eq_none.1 h _ hone (List.isPrefixOf_iff_prefix.2 ?_)
      rw [String.toList_ofList]
      exact ⟨p, rfl⟩

theorem symbolLexeme_operator_iff {op : String} (hnumber : numberLength? c p = none)
    (hident : isIdentStart c = false) (hpunct : isPunctuationChar c = false)
    (hop : operator? (c :: p) = some op) (hp : op.length - 1 = p.length)
    (hslash : c = '/' → (p ++ next).head? ≠ some '/' ∧ (p ++ next).head? ≠ some '*') :
    symbolLexeme c (p ++ next) = (.operator, p.length) ↔ ¬ RunsOn .operator (c :: p) next := by
  have hpoint : c ≠ '.' := by
    rintro rfl
    cases hpunct
  have hcut : symbolLexeme c (p ++ next) = (operator? (c :: (p ++ next))).elim (.other, 0)
      fun op => (.operator, op.length - 1) := by
    rw [symbolLexeme, numberLength?_eq_none (numberLength?_eq_none_iff.1 hnumber).1 hpoint]
    dsimp only
    rw [hident, beq_eq_false_iff_ne.2 hpoint, hpunct]
    cases operator? (c :: (p ++ next)) <;> rfl
  obtain ⟨hmem, hprefix⟩ := operator?_eq_some hop
  have htext : op.toList = c :: p := by
    have hpos : op.toList.length ≠ 0 := fun hzero =>
      (operators_break hmem).1 (List.length_eq_zero_iff.1 hzero)
    refine hprefix.eq_of_length ?_
    rw [String.length_toList] at *
    rw [List.length_cons]
    omega
  have hruns : RunsOn .operator (c :: p) next ↔
      ∃ d ∈ next.head?, String.ofList (c :: p ++ [d]) ∈ operators := by
    refine exists_congr fun d => and_congr_right fun hd => or_iff_left ?_
    rintro ⟨hone, hmark⟩
    obtain ⟨rfl, rfl⟩ := List.cons.inj hone
    rcases hmark with rfl | rfl
    · exact (hslash rfl).1 hd
    · exact (hslash rfl).2 hd
  rw [hruns, ← operator?_append_iff htext hmem, hcut]
  constructor
  · intro h
    cases ho : operator? (c :: (p ++ next)) with
    | none =>
        rw [ho] at h
        cases (Prod.mk.inj h).1
    | some o =>
        rw [ho] at h
        obtain ⟨ho', hbegins⟩ := operator?_eq_some ho
        have hlength : op.length - 1 = o.length - 1 := hp.trans (Prod.mk.inj h).2.symm
        rw [operator_eq hmem ho' (htext ▸ List.prefix_append (c :: p) next) hbegins hlength]
  · intro h
    rw [h]
    exact Prod.ext rfl hp

/-! ## Points and other symbols -/

theorem followedBy_iff {a b : Char} : followedBy a b p = true ↔ [a, b] <+: p := by
  constructor
  · intro h
    obtain ⟨q, rfl⟩ := exists_of_followedBy h
    exact ⟨q, rfl⟩
  · rintro ⟨q, rfl⟩
    simp [followedBy]

/-- Two more points make one symbol of three. -/
theorem symbolLexeme_dots : symbolLexeme '.' ('.' :: '.' :: next) = (.punctuation, 2) := by
  rw [symbolLexeme, numberLength?_eq_none_iff.2 ⟨rfl, by simp; decide⟩]
  rfl

theorem symbolLexeme_point_iff :
    symbolLexeme '.' next = (.punctuation, 0) ↔ ¬ RunsOn .punctuation ['.'] next := by
  show _ ↔ ¬ (['.'] = ['.'] ∧ _)
  rw [and_iff_right rfl, not_or, ← followedBy_iff]
  constructor
  · intro h
    rw [symbolLexeme] at h
    split at h
    · cases h
    · next hnumber =>
        have hdigit := (numberLength?_eq_none_iff.1 hnumber).2
        refine ⟨fun hd => hdigit ⟨rfl, hd⟩, fun hdots => ?_⟩
        rw [hdots] at h
        cases h
  · rintro ⟨hdigit, hdots⟩
    rw [symbolLexeme, numberLength?_eq_none_iff.2 ⟨rfl, fun h => hdigit h.2⟩,
      Bool.eq_false_iff.2 hdots]
    rfl

theorem symbolLexeme_punctuation_iff (hnumber : numberLength? c [] = none)
    (hident : isIdentStart c = false) (hpunct : isPunctuationChar c = true) :
    symbolLexeme c next = (.punctuation, 0) ↔ ¬ RunsOn .punctuation [c] next := by
  by_cases hpoint : c = '.'
  · rw [hpoint]
    exact symbolLexeme_point_iff
  · have hcut : symbolLexeme c next = (.punctuation, 0) := by
      rw [symbolLexeme, numberLength?_eq_none (numberLength?_eq_none_iff.1 hnumber).1 hpoint]
      dsimp only
      rw [hident, beq_eq_false_iff_ne.2 hpoint, hpunct]
      rfl
    exact iff_of_true hcut fun h => hpoint (List.cons.inj h.1).1

/-- A character of no meaning. -/
theorem symbolLexeme_other_iff (hnumber : numberLength? c [] = none)
    (hident : isIdentStart c = false) (hpunct : isPunctuationChar c = false)
    (hop : operator? [c] = none) :
    symbolLexeme c next = (.other, 0) ↔ ¬ RunsOn .other [c] next := by
  have hpoint : c ≠ '.' := by
    rintro rfl
    cases hpunct
  have hdigit := (numberLength?_eq_none_iff.1 hnumber).1
  have hcut : symbolLexeme c next = (.other, 0) := by
    rw [symbolLexeme, numberLength?_eq_none hdigit hpoint]
    dsimp only
    rw [hident, beq_eq_false_iff_ne.2 hpoint, hpunct, operator?_eq_none hop]
    rfl
  refine iff_of_true hcut ?_
  rintro ⟨q, -, -, hq⟩
  rcases hq.head with h | h
  · rw [hdigit] at h
    cases h
  · exact hpoint h

theorem symbolLexeme_append_iff (h : symbolLexeme c p = (kind, p.length))
    (hslash : c = '/' → (p ++ next).head? ≠ some '/' ∧ (p ++ next).head? ≠ some '*') :
    symbolLexeme c (p ++ next) = (kind, p.length) ↔ ¬ RunsOn kind (c :: p) next := by
  rw [symbolLexeme] at h
  split at h
  · next n hnumber =>
      obtain ⟨rfl, rfl⟩ := Prod.mk.inj h
      exact symbolLexeme_number_iff hnumber
  next hnumber =>
  split at h
  · next hident =>
      obtain ⟨rfl, hspan⟩ := Prod.mk.inj h
      exact symbolLexeme_word_iff hnumber hident hspan
  next hident =>
  rw [Bool.not_eq_true] at hident
  split at h
  · next hdots =>
      rw [Bool.and_eq_true, beq_iff_eq, followedBy_iff] at hdots
      obtain ⟨rfl, hlength⟩ := Prod.mk.inj h
      obtain ⟨rfl, hdots⟩ := hdots
      obtain rfl := hdots.eq_of_length hlength
      refine iff_of_true symbolLexeme_dots ?_
      rintro ⟨⟨⟩, -⟩
  split at h
  · next hpunct =>
      obtain ⟨rfl, hlength⟩ := Prod.mk.inj h
      obtain rfl := List.length_eq_zero_iff.1 hlength.symm
      exact symbolLexeme_punctuation_iff hnumber hident hpunct
  next hpunct =>
  rw [Bool.not_eq_true] at hpunct
  split at h
  · next op hop =>
      obtain ⟨rfl, hlength⟩ := Prod.mk.inj h
      exact symbolLexeme_operator_iff hnumber hident hpunct hop hlength hslash
  · next hop =>
      obtain ⟨rfl, hlength⟩ := Prod.mk.inj h
      obtain rfl := List.length_eq_zero_iff.1 hlength.symm
      exact symbolLexeme_other_iff hnumber hident hpunct hop

/-! ## Tokens -/

/-- A text that begins with a literal is not the rest of a text block that a quote before it opens. -/
theorem opensTextBlock_of_literal (h : lexeme '"' p = .ok (kind, p.length)) (tail : List Char) :
    opensTextBlock (p ++ tail) = false := by
  have hquote := mem_take_of_lexeme_quote h
  rw [List.take_length] at hquote
  rw [opensTextBlock_replace (by decide) hquote tail [], List.append_nil]
  exact opensTextBlock_eq_false_of_lexeme h

/-- A literal ends with its closing quote, whatever follows. -/
theorem lexeme_literal_append (hmark : c = '"' ∨ c = '\'') (h : lexeme c p = .ok (kind, p.length))
    (hnext : ∀ q, next = '"' :: q → opensTextBlock q = false) :
    lexeme c (p ++ next) = .ok (kind, p.length) := by
  obtain ⟨form, hkind, hcomment, hencloses⟩ : ∃ form, kind = form.kind ∧ form ≠ .lineComment ∧
      Encloses form c p p.length := by
    rcases hmark with rfl | rfl
    · rw [lexeme_quote] at h
      split at h
      · next hblock =>
          obtain ⟨hkind, hn⟩ := closed_eq_ok h
          obtain ⟨hthree, hopens⟩ := Bool.and_eq_true_iff.1 hblock
          obtain ⟨q, rfl⟩ := exists_of_followedBy hthree
          obtain ⟨m, hm, hlength⟩ := Option.map_eq_some_iff.1 hn
          exact ⟨.textBlock, hkind, by decide, hlength ▸ .textBlock hopens hm⟩
      · next hblock =>
          obtain ⟨hkind, hn⟩ := closed_eq_ok h
          exact ⟨.stringLiteral, hkind, by decide, .stringLiteral (Bool.eq_false_iff.2 hblock) hn⟩
    · rw [lexeme_charQuote] at h
      obtain ⟨hkind, hn⟩ := closed_eq_ok h
      exact ⟨.characterLiteral, hkind, by decide, .characterLiteral hn⟩
  rw [hkind]
  exact (hencloses.append rfl ⟨fun hline => absurd hline hcomment, hnext⟩).lexeme_eq

theorem not_runsOn_literal (hmark : c = '"' ∨ c = '\'') (h : lexeme c p = .ok (kind, p.length)) :
    ¬ RunsOn kind (c :: p) next := by
  rcases hmark with rfl | rfl
  · have hkind : kind = .stringLiteral := by
      rw [lexeme_quote] at h
      split at h <;> exact (closed_eq_ok h).1
    rw [hkind]
    exact id
  · rw [lexeme_charQuote] at h
    rw [(closed_eq_ok h).1]
    rintro ⟨q, -, -, hq⟩
    rcases hq.head with h | h <;> cases h

/-- A slash that a slash or a star follows. -/
theorem lexeme_comment_ne (h : kind.isTrivia = false) {d : Char} (hd : d = '/' ∨ d = '*') (n : Nat) :
    lexeme '/' (d :: p) ≠ .ok (kind, n) := by
  intro hcut
  rcases hd with rfl | rfl
  · rw [lexeme_lineComment] at hcut
    obtain ⟨rfl, -⟩ := Prod.mk.inj (Except.ok.inj hcut)
    cases h
  · rw [lexeme_blockComment] at hcut
    rw [(closed_eq_ok hcut).1] at h
    cases h

/-- A token is cut again in front of another text if and only if it does not run on with it. -/
theorem lexeme_append_iff (h : lexeme c p = .ok (kind, p.length)) (hcode : kind.isTrivia = false)
    (hnext : ∀ q, next = '"' :: q → opensTextBlock q = false) :
    lexeme c (p ++ next) = .ok (kind, p.length) ↔ ¬ RunsOn kind (c :: p) next := by
  have hblank : isBlank c = false := by
    refine Bool.eq_false_iff.2 fun hblank => ?_
    rw [lexeme_blank hblank] at h
    obtain ⟨rfl, -⟩ := Prod.mk.inj (Except.ok.inj h)
    cases hcode
  by_cases hmark : c = '"' ∨ c = '\''
  · exact iff_of_true (lexeme_literal_append hmark h hnext) (not_runsOn_literal hmark h)
  rw [not_or] at hmark
  have hslash : c = '/' → p.head? ≠ some '/' ∧ p.head? ≠ some '*' := by
    rintro rfl
    refine ⟨fun hd => ?_, fun hd => ?_⟩ <;> obtain ⟨q, rfl⟩ := List.head?_eq_some_iff.1 hd
    · exact lexeme_comment_ne hcode (.inl rfl) _ h
    · exact lexeme_comment_ne hcode (.inr rfl) _ h
  rw [lexeme_of_symbol hblank hmark.1 hmark.2 hslash] at h
  have hsymbol := Except.ok.inj h
  by_cases hcomment : c = '/' ∧ ((p ++ next).head? = some '/' ∨ (p ++ next).head? = some '*')
  · -- the slash is all of the token, for it would not have been one otherwise
    obtain ⟨rfl, hhead⟩ := hcomment
    obtain rfl : p = [] := by
      cases p with
      | nil => rfl
      | cons d p => exact (hhead.elim (hslash rfl).1 (hslash rfl).2).elim
    obtain ⟨d, hd, hnext⟩ : ∃ d, (d = '/' ∨ d = '*') ∧ next.head? = some d := by
      rcases hhead with hhead | hhead
      · exact ⟨'/', .inl rfl, hhead⟩
      · exact ⟨'*', .inr rfl, hhead⟩
    have hkind : symbolLexeme '/' [] = (.operator, 0) := by decide +kernel
    obtain rfl := congrArg Prod.fst (hkind.symm.trans hsymbol)
    obtain ⟨q, rfl⟩ := List.head?_eq_some_iff.1 hnext
    exact iff_of_false (lexeme_comment_ne rfl hd _) (not_not_intro ⟨d, rfl, .inr ⟨rfl, hd⟩⟩)
  · have hslash' : c = '/' → (p ++ next).head? ≠ some '/' ∧ (p ++ next).head? ≠ some '*' :=
      fun hc => ⟨fun hd => hcomment ⟨hc, .inl hd⟩, fun hd => hcomment ⟨hc, .inr hd⟩⟩
    rw [lexeme_of_symbol hblank hmark.1 hmark.2 hslash', Except.ok.injEq]
    exact symbolLexeme_append_iff hsymbol hslash'

end Lexer
end EmbeddedSql
