/-
# Numbers as they are written

The lexer measures a number part by part, each part as long as it goes.  `IsNumber` says how a number is
written, without saying where it ends:

| | |
| :-- | :-- |
| `hexadecimal` | `0x`, digits and letters up to `f`, a mark of length |
| `binary` | `0b`, zeros and ones, a mark of length |
| `decimal` | a digit and more, a point and digits, an exponent, a mark of the type |
| `point` | a point, a digit and more, an exponent, a mark of the type |

Digits of every script count, a bar may stand among them, and the parts after the first digits may be
missing.  A text is read as one number from its first character to its last if and only if it is written
in one of these ways (`numberLength?_eq_length_iff`).  That each part is measured as long as it goes
makes no difference there: no part begins with a character of the class that the part before it is made
of.
-/
import EmbeddedSql.Proofs.Token.Lookahead

namespace EmbeddedSql

namespace Lexer

/-! ## Parts of numbers -/

/-- One character of a class, or none. -/
def IsOptional (p : Char → Bool) (cs : List Char) : Prop := cs = [] ∨ ∃ c, p c = true ∧ cs = [c]

/-- Characters of a class. -/
def IsStretch (p : Char → Bool) (cs : List Char) : Prop := ∀ c ∈ cs, p c = true

/-- A point with digits behind it, or nothing. -/
def IsFraction (cs : List Char) : Prop :=
  cs = [] ∨ ∃ digits, IsStretch isDigitOrBar digits ∧ cs = '.' :: digits

def isExponentLetter (c : Char) : Bool := c == 'e' || c == 'E'

def isSign (c : Char) : Bool := c == '+' || c == '-'

/-- A letter, a sign or none, and at least one digit; or nothing. -/
def IsExponent (cs : List Char) : Prop :=
  cs = [] ∨ ∃ e sign digits, isExponentLetter e = true ∧ IsOptional isSign sign ∧ digits ≠ [] ∧
    IsStretch isDecimalDigit digits ∧ cs = e :: (sign ++ digits)

/-- An exponent and the mark of a type. -/
def IsNumberTail (cs : List Char) : Prop :=
  ∃ exponent suffix, IsExponent exponent ∧ IsOptional isNumberSuffix suffix ∧ cs = exponent ++ suffix

def isBinaryDigitOrBar (c : Char) : Bool := c == '0' || c == '1' || c == '_'

/-- Digits behind a mark such as `0x`. -/
def IsMarkedNumber (p : Char → Bool) (cs : List Char) : Prop :=
  ∃ digits suffix, digits ≠ [] ∧ IsStretch p digits ∧ IsOptional isLongSuffix suffix ∧
    cs = digits ++ suffix

/-- The ways to write a number. -/
inductive IsNumber : List Char → Prop
  | hexadecimal {mark : Char} {cs : List Char} : mark = 'x' ∨ mark = 'X' →
      IsMarkedNumber isHexDigitOrBar cs → IsNumber ('0' :: mark :: cs)
  | binary {mark : Char} {cs : List Char} : mark = 'b' ∨ mark = 'B' →
      IsMarkedNumber isBinaryDigitOrBar cs → IsNumber ('0' :: mark :: cs)
  | decimal {first : Char} {whole fraction tail : List Char} : isDecimalDigit first = true →
      IsStretch isDigitOrBar whole → IsFraction fraction → IsNumberTail tail →
      IsNumber (first :: (whole ++ (fraction ++ tail)))
  | point {first : Char} {digits tail : List Char} : isDecimalDigit first = true →
      IsStretch isDigitOrBar digits → IsNumberTail tail →
      IsNumber ('.' :: first :: (digits ++ tail))

/-! ## Where parts begin -/

/-- A text does not begin with a character of a class. -/
def Clear (p : Char → Bool) (cs : List Char) : Prop := ∀ c ∈ cs.head?, p c = false

variable {p q : Char → Bool} {c : Char} {cs u v w : List Char}

theorem clear_nil : Clear p [] := by
  rintro d ⟨⟩

theorem clear_cons (hc : p c = false) (cs : List Char) : Clear p (c :: cs) := by
  rintro d hd
  obtain rfl := Option.some.inj hd
  exact hc

theorem Clear.append (hu : Clear p u) (hv : Clear p v) : Clear p (u ++ v) := by
  cases u with
  | nil => exact hv
  | cons c u => exact hu

theorem IsOptional.clear (h : IsOptional q cs) (hq : ∀ c, q c = true → p c = false) :
    Clear p cs := by
  obtain rfl | ⟨c, hc, rfl⟩ := h
  · exact clear_nil
  · exact clear_cons (hq c hc) []

theorem IsFraction.clear (h : IsFraction cs) (hp : p '.' = false) : Clear p cs := by
  obtain rfl | ⟨digits, -, rfl⟩ := h
  · exact clear_nil
  · exact clear_cons hp digits

theorem IsExponent.clear (h : IsExponent cs) (hp : ∀ c, isExponentLetter c = true → p c = false) :
    Clear p cs := by
  obtain rfl | ⟨e, sign, digits, he, -, -, -, rfl⟩ := h
  · exact clear_nil
  · exact clear_cons (hp e he) _

/-- The marks of types. -/
theorem clear_of_numberSuffix (h : IsOptional isNumberSuffix cs)
    (hp : "fFdDlL".toList.all (!p ·) = true) : Clear p cs := by
  refine h.clear fun c hc => ?_
  have hmem : c ∈ "fFdDlL".toList := by
    simp only [isNumberSuffix, Bool.or_eq_true, beq_iff_eq] at hc
    rcases hc with ((((rfl | rfl) | rfl) | rfl) | rfl) | rfl <;> decide
  simpa using List.all_eq_true.1 hp c hmem

/-- A letter that can stand in the tail of a number. -/
theorem IsNumberTail.clear (h : IsNumberTail cs) (hp : "eEfFdDlL".toList.all (!p ·) = true) :
    Clear p cs := by
  obtain ⟨exponent, suffix, he, hs, rfl⟩ := h
  refine (he.clear fun c hc => ?_).append (clear_of_numberSuffix hs ?_)
  · have hmem : c ∈ "eEfFdDlL".toList := by
      simp only [isExponentLetter, Bool.or_eq_true, beq_iff_eq] at hc
      rcases hc with rfl | rfl <;> decide
    simpa using List.all_eq_true.1 hp c hmem
  · exact List.all_eq_true.2 fun c hc =>
      List.all_eq_true.1 hp c (List.mem_cons_of_mem _ (List.mem_cons_of_mem _ hc))

/-! ## Measures of parts

What a measure finds is a part of its kind, and it finds a part that is there if what follows does not go
on with it. -/

theorem isStretch_take (p : Char → Bool) (cs : List Char) :
    IsStretch p (cs.take (spanLength p cs)) := by
  rw [takeWhile_eq_take]
  exact fun c hc => List.mem_takeWhile_imp hc

theorem spanLength_append (hu : IsStretch p u) (hv : Clear p v) :
    spanLength p (u ++ v) = u.length := by
  rw [spanLength, List.takeWhile_append_of_pos hu]
  cases v with
  | nil => rw [List.takeWhile_nil, List.append_nil]
  | cons c v =>
      rw [List.takeWhile_cons, hv c rfl, if_neg Bool.false_ne_true, List.append_nil]

theorem isOptional_take (p : Char → Bool) (cs : List Char) :
    IsOptional p (cs.take (optionalLength p cs)) := by
  cases cs with
  | nil => exact .inl rfl
  | cons c cs =>
      rw [optionalLength]
      split
      · next hc => exact .inr ⟨c, hc, rfl⟩
      · exact .inl rfl

theorem optionalLength_append (hu : IsOptional p u) (hv : u = [] → Clear p v) :
    optionalLength p (u ++ v) = u.length := by
  obtain rfl | ⟨c, hc, rfl⟩ := hu
  · cases v with
    | nil => rfl
    | cons d v => exact if_neg (Bool.eq_false_iff.1 (hv rfl d rfl))
  · exact if_pos hc

theorem isFraction_take (cs : List Char) : IsFraction (cs.take (fractionLength cs)) := by
  cases cs with
  | nil => exact .inl rfl
  | cons c cs =>
      rw [fractionLength]
      split
      · next hc =>
          rw [beq_iff_eq.1 hc, Nat.add_comm]
          exact .inr ⟨_, isStretch_take isDigitOrBar cs, rfl⟩
      · exact .inl rfl

theorem fractionLength_append (hu : IsFraction u) (hpoint : Clear (· == '.') v)
    (hdigits : Clear isDigitOrBar v) : fractionLength (u ++ v) = u.length := by
  obtain rfl | ⟨digits, hd, rfl⟩ := hu
  · cases v with
    | nil => rfl
    | cons c v => exact if_neg (Bool.eq_false_iff.1 (hpoint c rfl))
  · show 1 + spanLength isDigitOrBar (digits ++ v) = digits.length + 1
    rw [spanLength_append hd hdigits, Nat.add_comm]

theorem exponentLength_cons (e : Char) (cs : List Char) :
    exponentLength (e :: cs) =
      if isExponentLetter e then
        if spanLength isDecimalDigit (cs.drop (optionalLength isSign cs)) = 0 then 0
        else 1 + optionalLength isSign cs +
          spanLength isDecimalDigit (cs.drop (optionalLength isSign cs))
      else 0 := rfl

theorem isExponent_take (cs : List Char) : IsExponent (cs.take (exponentLength cs)) := by
  cases cs with
  | nil => exact .inl rfl
  | cons e cs =>
      rw [exponentLength_cons]
      split
      · next he =>
          split
          · exact .inl rfl
          · next hdigits =>
              refine .inr ⟨e, _, _, he, isOptional_take isSign cs, fun hnil => hdigits ?_,
                isStretch_take isDecimalDigit (cs.drop (optionalLength isSign cs)), ?_⟩
              · have hlength := congrArg List.length hnil
                rwa [List.length_take_of_le (spanLength_le _ _)] at hlength
              · rw [Nat.add_assoc, Nat.add_comm, List.take_succ_cons, List.take_add]
      · exact .inl rfl

theorem exponentLength_append (hu : IsExponent u) (hletter : Clear isExponentLetter v)
    (hdigits : Clear isDecimalDigit v) : exponentLength (u ++ v) = u.length := by
  obtain rfl | ⟨e, sign, digits, he, hsign, hne, hd, rfl⟩ := hu
  · cases v with
    | nil => rfl
    | cons c v => exact if_neg (Bool.eq_false_iff.1 (hletter c rfl))
  · have hclear : Clear isSign (digits ++ v) := by
      obtain ⟨d, ds, rfl⟩ := List.exists_cons_of_ne_nil hne
      have hdigit := hd d List.mem_cons_self
      refine clear_cons (Bool.eq_false_iff.2 fun hs => ?_) _
      simp only [isSign, Bool.or_eq_true, beq_iff_eq] at hs
      rcases hs with rfl | rfl <;> cases hdigit
    rw [List.cons_append, List.append_assoc, exponentLength_cons, if_pos he,
      optionalLength_append hsign fun _ => hclear, List.drop_left, spanLength_append hd hdigits,
      if_neg fun h => hne (List.length_eq_zero_iff.1 h), List.length_cons, List.length_append]
    omega

theorem isNumberTail_take (cs : List Char) : IsNumberTail (cs.take (numberTailLength cs)) :=
  ⟨_, _, isExponent_take cs, isOptional_take isNumberSuffix (cs.drop _), by
    rw [numberTailLength, List.take_add]⟩

theorem numberTailLength_eq_length (h : IsNumberTail cs) : numberTailLength cs = cs.length := by
  obtain ⟨exponent, suffix, he, hs, rfl⟩ := h
  have hletter : Clear isExponentLetter suffix := clear_of_numberSuffix hs rfl
  have hdigits : Clear isDecimalDigit suffix := clear_of_numberSuffix hs rfl
  have hsuffix := optionalLength_append (v := []) hs fun _ => clear_nil
  rw [List.append_nil] at hsuffix
  rw [numberTailLength, exponentLength_append he hletter hdigits, List.drop_left, hsuffix,
    List.length_append]

/-! ## Marked numbers -/

theorem markedNumberLength?_eq_length_iff (hp : ∀ c, isLongSuffix c = true → p c = false) :
    markedNumberLength? p cs = some (cs.length + 1) ↔ IsMarkedNumber p cs := by
  constructor
  · intro h
    rw [markedNumberLength?] at h
    split at h
    · cases h
    · next hdigits =>
        have hlength := Option.some.inj h
        have hle := spanLength_le p cs
        refine ⟨cs.take (spanLength p cs), cs.drop (spanLength p cs), fun hnil => hdigits ?_,
          isStretch_take p cs, ?_, (List.take_append_drop _ cs).symm⟩
        · have hlength := congrArg List.length hnil
          rwa [List.length_take_of_le hle] at hlength
        · have hsuffix := isOptional_take isLongSuffix (cs.drop (spanLength p cs))
          rwa [List.take_of_length_le] at hsuffix
          rw [List.length_drop]
          omega
  · rintro ⟨digits, suffix, hne, hd, hs, rfl⟩
    have hsuffix := optionalLength_append (v := []) hs fun _ => clear_nil
    rw [List.append_nil] at hsuffix
    rw [markedNumberLength?, spanLength_append hd (hs.clear hp), List.drop_left, hsuffix,
      if_neg fun h => hne (List.length_eq_zero_iff.1 h), List.length_append]
    exact congrArg some (by omega)

theorem isLongSuffix_clear (hp : p 'l' = false) (hp' : p 'L' = false) :
    ∀ c, isLongSuffix c = true → p c = false := by
  intro c hc
  simp only [isLongSuffix, Bool.or_eq_true, beq_iff_eq] at hc
  rcases hc with rfl | rfl
  · exact hp
  · exact hp'

/-- A letter of one radix, and what is behind it. -/
def IsRadixRest (cs : List Char) : Prop :=
  ∃ mark rest, cs = mark :: rest ∧
    ((mark = 'x' ∨ mark = 'X') ∧ IsMarkedNumber isHexDigitOrBar rest ∨
      (mark = 'b' ∨ mark = 'B') ∧ IsMarkedNumber isBinaryDigitOrBar rest)

theorem radixNumberLength?_eq_length_iff :
    radixNumberLength? c cs = some cs.length ↔ c = '0' ∧ IsRadixRest cs := by
  cases cs with
  | nil =>
      constructor
      · rintro ⟨⟩
      · rintro ⟨-, _, _, ⟨⟩, -⟩
  | cons mark rest =>
      have hhex : markedNumberLength? isHexDigitOrBar rest = some (rest.length + 1) ↔
          IsMarkedNumber isHexDigitOrBar rest :=
        markedNumberLength?_eq_length_iff (isLongSuffix_clear rfl rfl)
      have hbinary : markedNumberLength? isBinaryDigitOrBar rest = some (rest.length + 1) ↔
          IsMarkedNumber isBinaryDigitOrBar rest :=
        markedNumberLength?_eq_length_iff (isLongSuffix_clear rfl rfl)
      constructor
      · intro h
        rw [radixNumberLength?, List.length_cons] at h
        split at h
        · cases h
        · next hzero =>
            refine ⟨by simpa using hzero, mark, rest, rfl, ?_⟩
            split at h
            · next hmark => exact .inl ⟨by simpa using hmark, hhex.1 h⟩
            · split at h
              · next hmark => exact .inr ⟨by simpa using hmark, hbinary.1 h⟩
              · cases h
      · rintro ⟨rfl, _, _, heq, h⟩
        obtain ⟨rfl, rfl⟩ := List.cons.inj heq
        obtain ⟨rfl | rfl, h⟩ | ⟨rfl | rfl, h⟩ := h
        · exact hhex.2 h
        · exact hhex.2 h
        · exact hbinary.2 h
        · exact hbinary.2 h

/-- Without the letter of a radix there is no such number. -/
theorem radixNumberLength?_eq_none (h : Clear ("xXbB".toList.contains ·) cs) :
    radixNumberLength? c cs = none := by
  cases cs with
  | nil => rfl
  | cons mark rest =>
      have hmark := h mark rfl
      simp only [String.reduceToList, List.contains_cons, List.contains_nil, Bool.or_eq_false_iff,
        Bool.or_false, beq_eq_false_iff_ne] at hmark
      obtain ⟨hx, hX, hb, hB⟩ := hmark
      simp [radixNumberLength?, hx, hX, hb, hB]

/-! ## Numbers -/

theorem isDigitOrBar_clear : ∀ c, isDigitOrBar c = true → "xXbB".toList.contains c = false := by
  refine fun c hc => Bool.eq_false_iff.2 fun hmark => ?_
  simp only [String.reduceToList, List.contains_cons, List.contains_nil, Bool.or_eq_true,
    Bool.or_false, beq_iff_eq] at hmark
  rcases hmark with rfl | rfl | rfl | rfl <;> cases hc

/-- A number that begins with a digit and has no letter of a radix. -/
theorem isNumber_of_decimalLength (hc : isDecimalDigit c = true)
    (h : numberLength? c cs = some cs.length) (hradix : radixNumberLength? c cs = none) :
    IsNumber (c :: cs) := by
  rw [numberLength?, hradix, if_pos hc] at h
  have hlength := Option.some.inj h
  generalize hn : spanLength isDigitOrBar cs +
    fractionLength (cs.drop (spanLength isDigitOrBar cs)) = n at hlength
  have htail : IsNumberTail (cs.drop n) := by
    have := isNumberTail_take (cs.drop n)
    rwa [List.take_of_length_le (by rw [List.length_drop]; omega)] at this
  have hparts : cs = cs.take (spanLength isDigitOrBar cs) ++
      ((cs.drop (spanLength isDigitOrBar cs)).take
        (fractionLength (cs.drop (spanLength isDigitOrBar cs))) ++ cs.drop n) := by
    rw [← List.append_assoc, ← List.take_add, hn, List.take_append_drop]
  rw [hparts]
  exact .decimal hc (isStretch_take isDigitOrBar cs) (isFraction_take _) htail

/-- A number that begins with the point. -/
theorem isNumber_of_pointLength (hc : isDecimalDigit c = false)
    (h : numberLength? c cs = some cs.length) (hradix : radixNumberLength? c cs = none) :
    IsNumber (c :: cs) := by
  rw [numberLength?, hradix, hc, if_neg Bool.false_ne_true] at h
  dsimp only at h
  split at h
  · next hpoint =>
      obtain ⟨hdot, hhead⟩ := Bool.and_eq_true_iff.1 hpoint
      obtain rfl := beq_iff_eq.1 hdot
      cases cs with
      | nil => cases hhead
      | cons first cs =>
          have hfirst : isDecimalDigit first = true := hhead
          have hspan : spanLength isDigitOrBar (first :: cs) = spanLength isDigitOrBar cs + 1 := by
            have hbar : isDigitOrBar first = true := Bool.or_eq_true_iff.2 (.inl hfirst)
            rw [spanLength, List.takeWhile_cons, if_pos hbar]
            rfl
          rw [hspan, List.drop_succ_cons, List.length_cons] at h
          have hlength := Option.some.inj h
          have htail : IsNumberTail (cs.drop (spanLength isDigitOrBar cs)) := by
            have := isNumberTail_take (cs.drop (spanLength isDigitOrBar cs))
            rwa [List.take_of_length_le (by rw [List.length_drop]; omega)] at this
          rw [← List.take_append_drop (spanLength isDigitOrBar cs) cs]
          exact .point hfirst (isStretch_take isDigitOrBar cs) htail
  · cases h

theorem numberLength?_of_decimal {first : Char} {whole fraction tail : List Char}
    (hfirst : isDecimalDigit first = true) (hwhole : IsStretch isDigitOrBar whole)
    (hfraction : IsFraction fraction) (htail : IsNumberTail tail) :
    numberLength? first (whole ++ (fraction ++ tail)) =
      some (whole ++ (fraction ++ tail)).length := by
  have hmark : Clear ("xXbB".toList.contains ·) (whole ++ (fraction ++ tail)) := by
    refine .append (fun c hc => isDigitOrBar_clear c (hwhole c (List.mem_of_mem_head? hc))) ?_
    exact (hfraction.clear rfl).append (htail.clear rfl)
  have hrest : Clear isDigitOrBar (fraction ++ tail) :=
    (hfraction.clear rfl).append (htail.clear rfl)
  have hfractionLength : fractionLength (fraction ++ tail) = fraction.length :=
    fractionLength_append hfraction (htail.clear rfl) (htail.clear rfl)
  rw [numberLength?, radixNumberLength?_eq_none hmark, if_pos hfirst]
  dsimp only
  rw [spanLength_append hwhole hrest, List.drop_left, hfractionLength, ← List.drop_drop,
    List.drop_left, List.drop_left, numberTailLength_eq_length htail, List.length_append,
    List.length_append, Nat.add_assoc]

theorem numberLength?_of_point {first : Char} {digits tail : List Char}
    (hfirst : isDecimalDigit first = true) (hdigits : IsStretch isDigitOrBar digits)
    (htail : IsNumberTail tail) :
    numberLength? '.' (first :: (digits ++ tail)) = some (first :: (digits ++ tail)).length := by
  have hstretch : IsStretch isDigitOrBar (first :: digits) :=
    List.forall_mem_cons.2 ⟨Bool.or_eq_true_iff.2 (.inl hfirst), hdigits⟩
  have hradix : radixNumberLength? '.' (first :: (digits ++ tail)) = none := rfl
  have hspan := spanLength_append hstretch (htail.clear rfl)
  rw [List.cons_append] at hspan
  rw [numberLength?, hradix]
  dsimp only
  rw [if_neg (by decide), if_pos (by exact hfirst), hspan, ← List.cons_append, List.drop_left,
    numberTailLength_eq_length htail, List.length_append]

/-- A text is read as one number if and only if it is written as one. -/
theorem numberLength?_eq_length_iff : numberLength? c cs = some cs.length ↔ IsNumber (c :: cs) := by
  constructor
  · intro h
    cases hradix : radixNumberLength? c cs with
    | some n =>
        have hn : n = cs.length := by
          rw [numberLength?, hradix] at h
          exact Option.some.inj h
        obtain ⟨rfl, mark, rest, rfl, hrest⟩ :=
          radixNumberLength?_eq_length_iff.1 (hn ▸ hradix)
        obtain ⟨hmark, hdigits⟩ | ⟨hmark, hdigits⟩ := hrest
        · exact .hexadecimal hmark hdigits
        · exact .binary hmark hdigits
    | none =>
        cases hc : isDecimalDigit c with
        | true => exact isNumber_of_decimalLength hc h hradix
        | false => exact isNumber_of_pointLength hc h hradix
  · intro h
    have hradix (hc : c = '0' ∧ IsRadixRest cs) : numberLength? c cs = some cs.length := by
      rw [numberLength?, radixNumberLength?_eq_length_iff.2 hc]
    cases h with
    | hexadecimal hmark h => exact hradix ⟨rfl, _, _, rfl, .inl ⟨hmark, h⟩⟩
    | binary hmark h => exact hradix ⟨rfl, _, _, rfl, .inr ⟨hmark, h⟩⟩
    | decimal hfirst hwhole hfraction htail =>
        exact numberLength?_of_decimal hfirst hwhole hfraction htail
    | point hfirst hdigits htail => exact numberLength?_of_point hfirst hdigits htail

end Lexer
end EmbeddedSql
