/-
# Escapes and pairs

Two readers go through the body of a literal on one line, and each has its own idea of what belongs to a
backslash:

| | takes with a backslash |
| :-- | :-- |
| the lexer, on its way to the quote | the one character behind it, always |
| the decoder | up to three octal digits, or `u`s and four hexadecimal digits, or one character |

Both are run here with a note of the places where they find a backslash of their own
(`quoteEndNoting`, `decodeNoting`), and the notes agree.  What the decoder takes beyond the pair of the
lexer is `u`s and digits (`plain_of_escape`), so the next backslash is where the lexer has it.  It
also never looks past that backslash (`escape_append`): what stands before it is decoded on its own.

So whether a literal denotes anything can be told from its pairs.
-/
import EmbeddedSql.Proofs.Token.Shapes
import EmbeddedSql.Proofs.Token.WrittenLiterals

namespace EmbeddedSql

namespace Literal

open Lexer

/-! ## Pairs -/

/-- A backslash at a place, the character that belongs to it, and what comes behind the two. -/
structure Pair where
  start : Nat
  marked : Char
  after : List Char
deriving DecidableEq, Repr

/-- The pairs of a text whose first character stands at place `i`. -/
def pairsFrom (i : Nat) : List Char → List Pair
  | [] => []
  | '\\' :: c :: rest => ⟨i, c, rest⟩ :: pairsFrom (i + 2) rest
  | _ :: rest => pairsFrom (i + 1) rest

def pairs (body : List Char) : List Pair := pairsFrom 0 body

/-- A text that is pairs and other characters, to its end. -/
inductive IsPaired : List Char → Prop
  | nil : IsPaired []
  | plain {c : Char} {cs : List Char} : c ≠ '\\' → IsPaired cs → IsPaired (c :: cs)
  | pair {c : Char} {cs : List Char} : IsPaired cs → IsPaired ('\\' :: c :: cs)

def IsHexDigit (c : Char) : Prop :=
  ('0' ≤ c ∧ c ≤ '9') ∨ ('a' ≤ c ∧ c ≤ 'f') ∨ ('A' ≤ c ∧ c ≤ 'F')

instance (c : Char) : Decidable (IsHexDigit c) :=
  inferInstanceAs (Decidable ((_ ∧ _) ∨ (_ ∧ _) ∨ (_ ∧ _)))

/-- A run of `u`s, perhaps none, and four hexadecimal digits. -/
def BeginsWithUnicode (cs : List Char) : Prop :=
  ∃ us digits rest, cs = us ++ (digits ++ rest) ∧ (∀ c ∈ us, c = 'u') ∧
    digits.length = 4 ∧ ∀ c ∈ digits, IsHexDigit c

/-- A pair that denotes nothing: a `u` without its digits, or a digit of any script that has no value
from 0 to 7.  Superscripts and the like have no value. -/
inductive Pair.IsFaulty (p : Pair) : Prop
  | unicode : p.marked = 'u' → ¬ BeginsWithUnicode p.after → p.IsFaulty
  | digit : isDigit p.marked = true → (∀ v, decimalValue? p.marked = some v → 8 ≤ v) → p.IsFaulty

/-! ## Two readers -/

/-- The search for the quote, and the places of the backslashes with which it takes a character. -/
def quoteEndNoting (quote : Char) (i : Nat) : List Char → List Nat × Option Nat
  | [] => ([], none)
  | '\\' :: c :: rest =>
    if c == '\n' then ([], none)
    else
      let (places, n) := quoteEndNoting quote (i + 2) rest
      (i :: places, n.map (· + 2))
  | c :: rest =>
    if c == '\\' || c == '\n' then ([], none)
    else if c == quote then ([], some 1)
    else
      let (places, n) := quoteEndNoting quote (i + 1) rest
      (places, n.map (· + 1))

/-- Decoding, and the places of the backslashes at which it sees an escape. -/
def decodeNoting (i : Nat) : List Char → List Nat × Except LiteralError Text
  | [] => ([], .ok [])
  | '\\' :: c :: rest =>
    match escape c rest with
    | .error e => ([i], .error e)
    | .ok (t, n) =>
      let (places, u) := decodeNoting (i + 2 + n) (rest.drop n)
      (i :: places, u.map (t ++ ·))
  | c :: rest =>
    let (places, u) := decodeNoting (i + 1) rest
    (places, u.map (.char c :: ·))
termination_by cs => cs.length
decreasing_by all_goals simp only [List.length_drop, List.length_cons]; omega

/-- Taking notes changes nothing. -/
theorem quoteEndNoting_snd (quote : Char) (i : Nat) (cs : List Char) :
    (quoteEndNoting quote i cs).2 = quoteEnd? quote cs := by
  fun_induction quoteEnd? quote cs generalizing i with
  | case1 => rfl
  | case2 c rest hc => rw [quoteEndNoting, if_pos hc]
  | case3 c rest hc ih => rw [quoteEndNoting, if_neg hc, ← ih (i + 2)]
  | case4 c rest hpair hc =>
      rw [quoteEndNoting, if_pos hc]
      exact hpair
  | case5 c rest hpair hc hquote =>
      rw [quoteEndNoting, if_neg hc, if_pos hquote]
      exact hpair
  | case6 c rest hpair hc hquote ih =>
      rw [quoteEndNoting, if_neg hc, if_neg hquote, ← ih (i + 1)]
      exact hpair

theorem decodeNoting_snd (i : Nat) (cs : List Char) : (decodeNoting i cs).2 = decode cs := by
  fun_induction decode cs generalizing i with
  | case1 => rw [decodeNoting]
  | case2 c rest e he => rw [decodeNoting, he]
  | case3 c rest t n he e hrest ih =>
      rw [decodeNoting, he]
      dsimp only
      rw [ih (i + 2 + n), hrest]
      rfl
  | case4 c rest t n he u hrest ih =>
      rw [decodeNoting, he]
      dsimp only
      rw [ih (i + 2 + n), hrest]
      rfl
  | case5 c rest hpair e hrest ih =>
      rw [decodeNoting]
      · dsimp only
        rw [ih (i + 1), hrest]
        rfl
      · exact hpair
  | case6 c rest hpair u hrest ih =>
      rw [decodeNoting]
      · dsimp only
        rw [ih (i + 1), hrest]
        rfl
      · exact hpair

/-! ## What an escape takes -/

variable {c : Char} {rest : List Char}

theorem exists_hexDigit? : (∃ v, hexDigit? c = some v) ↔ IsHexDigit c := by
  rw [hexDigit?, IsHexDigit]
  split
  · next h => simp [h]
  · next h₀ =>
      split
      · next h => simp [h]
      · next h₁ =>
          split
          · next h => simp [h]
          · next h₂ => simp [h₀, h₁, h₂]

theorem exists_fourHexDigits? {cs : List Char} :
    (∃ n, fourHexDigits? cs = some n) ↔
      ∃ digits rest, cs = digits ++ rest ∧ digits.length = 4 ∧ ∀ d ∈ digits, IsHexDigit d := by
  constructor
  · rintro ⟨n, hn⟩
    match cs with
    | a :: b :: c :: d :: rest =>
        obtain ⟨va, ha, hn⟩ := Option.bind_eq_some_iff.1 hn
        obtain ⟨vb, hb, hn⟩ := Option.bind_eq_some_iff.1 hn
        obtain ⟨vc, hc, hn⟩ := Option.bind_eq_some_iff.1 hn
        obtain ⟨vd, hd, -⟩ := Option.bind_eq_some_iff.1 hn
        refine ⟨[a, b, c, d], rest, rfl, rfl, ?_⟩
        simp only [List.forall_mem_cons, ← exists_hexDigit?]
        exact ⟨⟨va, ha⟩, ⟨vb, hb⟩, ⟨vc, hc⟩, ⟨vd, hd⟩, List.forall_mem_nil _⟩
  · rintro ⟨digits, rest, rfl, hlength, hdigits⟩
    obtain ⟨a, b, c, d, rfl⟩ := List.length_eq_four.1 hlength
    simp only [List.forall_mem_cons, ← exists_hexDigit?] at hdigits
    obtain ⟨⟨va, ha⟩, ⟨vb, hb⟩, ⟨vc, hc⟩, ⟨vd, hd⟩, -⟩ := hdigits
    exact ⟨4096 * va + 256 * vb + 16 * vc + vd, by simp [fourHexDigits?, ha, hb, hc, hd]⟩

theorem IsHexDigit.ne_backslash (h : IsHexDigit c) : c ≠ '\\' := by
  rintro rfl
  exact absurd h (by decide)

theorem IsHexDigit.ne_u (h : IsHexDigit c) : c ≠ 'u' := by
  rintro rfl
  exact absurd h (by decide)

/-- The digits are looked for behind all the `u`s: a `u` is no digit, so no shorter run will do. -/
theorem beginsWithUnicode_iff :
    BeginsWithUnicode rest ↔ ∃ n, fourHexDigits? (rest.dropWhile (· == 'u')) = some n := by
  rw [exists_fourHexDigits?]
  constructor
  · rintro ⟨us, digits, after, rfl, hus, hlength, hdigits⟩
    refine ⟨digits, after, ?_, hlength, hdigits⟩
    rw [List.dropWhile_append_of_pos fun d hd => beq_iff_eq.2 (hus d hd)]
    obtain ⟨a, b, c, d, rfl⟩ := List.length_eq_four.1 hlength
    have ha : a ≠ 'u' := (hdigits a List.mem_cons_self).ne_u
    exact List.dropWhile_cons_of_neg (by simpa using ha)
  · rintro ⟨digits, after, hrest, hlength, hdigits⟩
    refine ⟨rest.takeWhile (· == 'u'), digits, after, ?_, ?_, hlength, hdigits⟩
    · rw [← hrest, List.takeWhile_append_dropWhile]
    · intro d hd
      simpa using List.mem_takeWhile_imp hd

/-- The three forms of an escape, the longest first. -/
inductive EscapeForm (c : Char) (rest : List Char) : Except LiteralError (Text × Nat) → Prop
  | unicode {n : Nat} : c = 'u' → fourHexDigits? (rest.dropWhile (· == 'u')) = some n →
      EscapeForm c rest (.ok ([.ofNat n], (rest.takeWhile (· == 'u')).length + 4))
  | octal {n : Nat} : isOctal c = true →
      EscapeForm c rest
        (.ok ([.char (Char.ofNat n)], ((rest.take (octalRoom c)).takeWhile isOctal).length))
  | single : isOctal c = false → (c = 'u' → ¬ BeginsWithUnicode rest) →
      EscapeForm c rest ((escapedChar c).map (·, 0))

theorem escapeForm (c : Char) (rest : List Char) : EscapeForm c rest (escape c rest) := by
  have hdrop : rest.drop (rest.takeWhile (· == 'u')).length = rest.dropWhile (· == 'u') :=
    drop_spanLength _ rest
  rw [escape]
  dsimp only
  rw [hdrop]
  split
  · next n hn =>
      split at hn
      · next hu => exact .unicode (beq_iff_eq.1 hu) hn
      · cases hn
  · next hn =>
      split
      · next hoctal => exact .octal hoctal
      · next hoctal =>
          have hsingle : EscapeForm c rest ((escapedChar c).map (·, 0)) := by
            refine .single (Bool.eq_false_iff.2 hoctal) fun hu hdigits => ?_
            obtain ⟨n, hdigits⟩ := beginsWithUnicode_iff.1 hdigits
            rw [if_pos (beq_iff_eq.2 hu), hdigits] at hn
            cases hn
          revert hsingle
          cases escapedChar c <;> exact id

/-- What belongs to an escape beyond its pair holds no backslash. -/
theorem plain_of_escape {t : Text} {n : Nat} (h : escape c rest = .ok (t, n)) :
    ∃ taken left, rest = taken ++ left ∧ taken.length = n ∧ ∀ d ∈ taken, d ≠ '\\' := by
  have hform := escapeForm c rest
  rw [h] at hform
  generalize hresult : Except.ok (t, n) = result at hform
  cases hform with
  | unicode _ hdigits =>
      cases hresult
      obtain ⟨digits, left, hleft, hlength, hdigits⟩ := exists_fourHexDigits?.1 ⟨_, hdigits⟩
      refine ⟨rest.takeWhile (· == 'u') ++ digits, left, ?_, ?_, ?_⟩
      · rw [List.append_assoc, ← hleft, List.takeWhile_append_dropWhile]
      · rw [List.length_append, hlength]
      · intro d hd
        rcases List.mem_append.1 hd with hd | hd
        · rintro rfl
          cases List.mem_takeWhile_imp hd
        · exact (hdigits d hd).ne_backslash
  | octal _ =>
      cases hresult
      refine ⟨_, _, (List.prefix_iff_eq_append.1 ?_).symm, rfl, ?_⟩
      · exact (List.takeWhile_prefix isOctal).trans (List.take_prefix _ rest)
      · intro d hd
        rintro rfl
        cases List.mem_takeWhile_imp hd
  | single _ _ =>
      obtain ⟨u, -, hu⟩ := ok_of_map_eq_ok hresult.symm
      cases hu
      exact ⟨[], rest, rfl, rfl, List.forall_mem_nil _⟩

/-! ## Faults -/

theorem decimalValue?_of_isOctal (h : isOctal c = true) :
    decimalValue? c = some (c.toNat - 0x30) ∧ c.toNat - 0x30 < 8 := by
  rw [isOctal, Bool.and_eq_true, decide_eq_true_eq, decide_eq_true_eq] at h
  have hlow : 0x30 ≤ c.toNat := h.1
  have hhigh : c.toNat ≤ 0x37 := h.2
  have hrow : (decide (0x30 ≤ c.toNat) && decide (c.toNat < 0x30 + 10)) = true := by
    rw [Bool.and_eq_true, decide_eq_true_eq, decide_eq_true_eq]
    omega
  obtain ⟨rows, hrows⟩ : ∃ rows, decimalZeros = 0x30 :: rows := ⟨_, rfl⟩
  refine ⟨?_, by omega⟩
  simp only [decimalValue?, hrows, List.find?_cons, hrow, Option.map_some]

/-- Marks with a meaning of their own are neither digits nor a `u`. -/
theorem isDigit_of_simpleEscape? {d : Char} (h : simpleEscape? c = some d) :
    isDigit c = false ∧ c ≠ 'u' := by
  rw [simpleEscape?.eq_def] at h
  split at h
  case h_10 => cases h
  all_goals exact ⟨by decide, by decide⟩

/-- One character fails if it is a `u` or a digit without an octal value. -/
theorem exists_escapedChar_error :
    (∃ e, escapedChar c = .error e) ↔
      c = 'u' ∨ isDigit c = true ∧ ∀ v, decimalValue? c = some v → 8 ≤ v := by
  rw [escapedChar]
  cases hsimple : simpleEscape? c with
  | some d =>
      obtain ⟨hdigit, hu⟩ := isDigit_of_simpleEscape? hsimple
      simp [hdigit, hu]
  | none =>
      by_cases hline : c = '\n'
      · subst hline
        simp [show isDigit '\n' = false by decide]
      by_cases hu : c = 'u'
      · simp [hu]
      by_cases hdigit : isDigit c = true
      · cases hvalue : decimalValue? c with
        | none => simp [hline, hu, hdigit]
        | some v =>
            by_cases hv : v < 8
            · simp [hline, hu, hdigit, hv]
            · simpa [hline, hu, hdigit, hv] using Nat.not_lt.1 hv
      · simp [hline, hu, hdigit]

theorem exists_escape_error (i : Nat) :
    (∃ e, escape c rest = .error e) ↔ (⟨i, c, rest⟩ : Pair).IsFaulty := by
  have hform := escapeForm c rest
  generalize escape c rest = result at hform
  cases hform with
  | unicode hu hdigits =>
      refine iff_of_false (by simp) ?_
      rintro (⟨-, hnone⟩ | ⟨hdigit, -⟩)
      · exact hnone (beginsWithUnicode_iff.2 ⟨_, hdigits⟩)
      · rw [hu] at hdigit
        cases hdigit
  | octal hoctal =>
      obtain ⟨hvalue, hlt⟩ := decimalValue?_of_isOctal hoctal
      refine iff_of_false (by simp) ?_
      rintro (⟨hu, -⟩ | ⟨-, hlarge⟩)
      · rw [show c = 'u' from hu] at hoctal
        cases hoctal
      · exact absurd (hlarge _ hvalue) (Nat.not_le.2 hlt)
  | single hoctal hnone =>
      have hmap : (∃ e, (escapedChar c).map (·, 0) = .error e) ↔ ∃ e, escapedChar c = .error e := by
        cases escapedChar c <;> simp [Except.map]
      rw [hmap, exists_escapedChar_error]
      constructor
      · rintro (hu | ⟨hdigit, hlarge⟩)
        · exact .unicode hu (hnone hu)
        · exact .digit hdigit hlarge
      · rintro (⟨hu, -⟩ | ⟨hdigit, hlarge⟩)
        · exact .inl hu
        · exact .inr ⟨hdigit, hlarge⟩

/-! ## The notes agree -/

theorem pairsFrom_plain {p : List Char} (hp : ∀ d ∈ p, d ≠ '\\') (i : Nat) (cs : List Char) :
    pairsFrom i (p ++ cs) = pairsFrom (i + p.length) cs := by
  induction p generalizing i with
  | nil => rfl
  | cons d p ih =>
      obtain ⟨hd, hp⟩ := List.forall_mem_cons.1 hp
      rw [List.cons_append, pairsFrom, ih hp, List.length_cons, Nat.add_right_comm]
      · rfl
      · exact fun _ _ heq _ => hd heq

/-- Behind an escape the decoder is where the lexer is after some more characters that are no
backslashes. -/
theorem pairsFrom_escape {t : Text} {n : Nat} (h : escape c rest = .ok (t, n)) (i : Nat) :
    pairsFrom i ('\\' :: c :: rest) = ⟨i, c, rest⟩ :: pairsFrom (i + 2 + n) (rest.drop n) := by
  obtain ⟨taken, left, rfl, rfl, hplain⟩ := plain_of_escape h
  rw [pairsFrom, pairsFrom_plain hplain, List.drop_left]

/-- The escapes that the decoder sees begin where the pairs do, and if it comes to the end it has seen
them all. -/
theorem decodeNoting_fst (i : Nat) (cs : List Char) :
    (decodeNoting i cs).1 <+: (pairsFrom i cs).map Pair.start ∧
      ∀ w, (decodeNoting i cs).2 = .ok w →
        (decodeNoting i cs).1 = (pairsFrom i cs).map Pair.start := by
  fun_induction decodeNoting i cs with
  | case1 => exact ⟨List.prefix_refl _, fun _ _ => rfl⟩
  | case2 i c rest e he =>
      refine ⟨?_, fun w hw => by cases hw⟩
      rw [pairsFrom, List.map_cons]
      exact List.prefix_append [i] _
  | case3 i c rest t n he places u hrest ih =>
      rw [hrest] at ih
      rw [pairsFrom_escape he, List.map_cons]
      refine ⟨List.cons_prefix_cons.2 ⟨rfl, ih.1⟩, fun w hw => ?_⟩
      obtain ⟨v, hv, -⟩ := ok_of_map_eq_ok hw
      exact congrArg (i :: ·) (ih.2 v hv)
  | case4 i c rest hpair places u hrest ih =>
      rw [hrest] at ih
      rw [pairsFrom]
      · refine ⟨ih.1, fun w hw => ?_⟩
        obtain ⟨v, hv, -⟩ := ok_of_map_eq_ok hw
        exact ih.2 v hv
      · exact hpair

/-- Decoding fails at a faulty pair and nowhere else. -/
theorem exists_decode_error (i : Nat) (cs : List Char) :
    (∃ e, decode cs = .error e) ↔ ∃ p ∈ pairsFrom i cs, p.IsFaulty := by
  fun_induction decode cs generalizing i with
  | case1 => simp [pairsFrom]
  | case2 c rest e he =>
      refine iff_of_true ⟨e, rfl⟩ ⟨⟨i, c, rest⟩, ?_, (exists_escape_error i).1 ⟨e, he⟩⟩
      rw [pairsFrom]
      exact List.mem_cons_self
  | case3 c rest t n he e hrest ih =>
      obtain ⟨p, hp, hfaulty⟩ := (ih (i + 2 + n)).1 ⟨e, hrest⟩
      refine iff_of_true ⟨e, rfl⟩ ⟨p, ?_, hfaulty⟩
      rw [pairsFrom_escape he]
      exact List.mem_cons_of_mem _ hp
  | case4 c rest t n he u hrest ih =>
      refine iff_of_false (by simp) ?_
      rw [pairsFrom_escape he]
      rintro ⟨p, hp, hfaulty⟩
      rcases List.mem_cons.1 hp with rfl | hp
      · obtain ⟨e, he'⟩ := (exists_escape_error i).2 hfaulty
        rw [he] at he'
        cases he'
      · obtain ⟨e, hrest'⟩ := (ih (i + 2 + n)).2 ⟨p, hp, hfaulty⟩
        rw [hrest] at hrest'
        cases hrest'
  | case5 c rest hpair e hrest ih =>
      rw [pairsFrom]
      · exact iff_of_true ⟨e, rfl⟩ ((ih (i + 1)).1 ⟨e, hrest⟩)
      · exact hpair
  | case6 c rest hpair u hrest ih =>
      rw [pairsFrom]
      · refine iff_of_false (by simp) fun hfaulty => ?_
        obtain ⟨e, hrest'⟩ := (ih (i + 1)).2 hfaulty
        rw [hrest] at hrest'
        cases hrest'
      · exact hpair

/-! ## Decoding in parts -/

theorem takeWhile_backslash {p : Char → Bool} (hp : p '\\' = false) (x y : List Char) :
    (x ++ '\\' :: y).takeWhile p = x.takeWhile p := by
  induction x with
  | nil => rw [List.nil_append, List.takeWhile_cons, hp, List.takeWhile_nil]; rfl
  | cons d x ih => rw [List.cons_append, List.takeWhile_cons, List.takeWhile_cons, ih]

/-- Four digits at the front are four characters before the first backslash. -/
theorem fourHexDigits?_append (x y : List Char) :
    fourHexDigits? (x ++ '\\' :: y) = fourHexDigits? x := by
  rcases Nat.lt_or_ge x.length 4 with hshort | hlong
  · have hleft : fourHexDigits? (x ++ '\\' :: y) = none := by
      refine Option.eq_none_iff_forall_ne_some.2 fun n hn => ?_
      obtain ⟨digits, rest, hcs, hlength, hdigits⟩ := exists_fourHexDigits?.1 ⟨n, hn⟩
      have hat : digits[x.length]? = some '\\' := by
        have hinside : x.length < digits.length := by omega
        rw [← List.getElem?_append_left hinside, ← hcs, List.getElem?_append_right (Nat.le_refl _),
          Nat.sub_self, List.getElem?_cons_zero]
      exact (hdigits '\\' (List.mem_of_getElem? hat)).ne_backslash rfl
    have hright : fourHexDigits? x = none := by
      refine Option.eq_none_iff_forall_ne_some.2 fun n hn => ?_
      obtain ⟨digits, rest, rfl, hlength, -⟩ := exists_fourHexDigits?.1 ⟨n, hn⟩
      rw [List.length_append] at hshort
      omega
    rw [hleft, hright]
  · match x, hlong with
    | a :: b :: c :: d :: x, _ => rfl

theorem take_octal_append (k : Nat) (x y : List Char) :
    ((x ++ '\\' :: y).take k).takeWhile isOctal = (x.take k).takeWhile isOctal := by
  rcases Nat.lt_or_ge x.length k with hlt | hle
  · rw [List.take_append, List.take_of_length_le hlt.le]
    obtain ⟨m, hm⟩ : ∃ m, k - x.length = m + 1 := ⟨k - x.length - 1, by omega⟩
    rw [hm, List.take_succ_cons, takeWhile_backslash rfl]
  · rw [List.take_append_of_le_length hle]

/-- An escape does not look past the next backslash. -/
theorem escape_append (c : Char) (x y : List Char) :
    escape c (x ++ '\\' :: y) = escape c x := by
  have hle : (x.takeWhile (· == 'u')).length ≤ x.length := (List.takeWhile_prefix _).length_le
  rw [escape, escape]
  dsimp only
  rw [takeWhile_backslash rfl, List.drop_append_of_le_length hle, fourHexDigits?_append,
    take_octal_append]

theorem IsPaired.drop_plain {taken left : List Char} (h : IsPaired (taken ++ left))
    (hplain : ∀ d ∈ taken, d ≠ '\\') : IsPaired left := by
  induction taken with
  | nil => exact h
  | cons d taken ih =>
      obtain ⟨hd, hplain⟩ := List.forall_mem_cons.1 hplain
      generalize hcs : d :: taken ++ left = cs at h
      cases h with
      | nil => cases hcs
      | plain _ h =>
          cases hcs
          exact ih h hplain
      | pair h => exact absurd (List.cons.inj hcs).1 hd

/-- What stands before a backslash of its own is decoded without what comes behind. -/
theorem decode_append {x : List Char} (hx : IsPaired x) (y : List Char) :
    decode (x ++ '\\' :: y) =
      (decode x).bind fun u => (decode ('\\' :: y)).map (u ++ ·) := by
  induction hlength : x.length using Nat.strong_induction_on generalizing x with
  | _ length ih =>
      cases hx with
      | nil =>
          have hnil : decode [] = .ok [] := by rw [decode]
          rw [hnil, List.nil_append]
          cases decode ('\\' :: y) <;> rfl
      | @plain c cs hc hcs =>
          have hshort : cs.length < length := hlength ▸ Nat.lt_succ_self _
          rw [List.cons_append, decode_plain hc, decode_plain hc, ih _ hshort hcs rfl]
          cases decode cs with
          | error e => rfl
          | ok u => cases decode ('\\' :: y) <;> rfl
      | @pair c cs hcs =>
          rw [List.cons_append, List.cons_append, decode, decode, escape_append]
          cases hescape : escape c cs with
          | error e => rfl
          | ok taken =>
              obtain ⟨t, n⟩ := taken
              obtain ⟨taken, left, rfl, rfl, hplain⟩ := plain_of_escape hescape
              have hshort : left.length < length := by
                rw [← hlength, List.length_cons, List.length_cons, List.length_append]
                omega
              dsimp only
              rw [List.append_assoc, List.drop_left, List.drop_left,
                ih _ hshort (hcs.drop_plain hplain) rfl]
              cases decode left with
              | error e => rfl
              | ok u =>
                  cases decode ('\\' :: y) with
                  | error e => rfl
                  | ok v => exact congrArg Except.ok (List.append_assoc t u v).symm

/-! ## Literals of the lexer -/

/-- The body of a literal on one line is pairs and other characters, and on its way to the quote the
lexer finds the backslashes of the pairs. -/
theorem exists_body_of_closesQuoted {quote : Char} {cs : List Char} (hquote : quote ≠ '\\')
    (hline : quote ≠ '\n') (h : ClosesQuoted quote cs) :
    ∃ body, cs = body ++ [quote] ∧ IsPaired body ∧
      ∀ i after, quoteEndNoting quote i (body ++ quote :: after) =
        ((pairsFrom i body).map Pair.start, some (body.length + 1)) := by
  induction h with
  | quote =>
      refine ⟨[], rfl, .nil, fun i after => ?_⟩
      rw [List.nil_append, quoteEndNoting]
      · simp [hquote, hline, pairsFrom]
      · exact fun _ _ heq _ => hquote heq
  | @plain c cs hc hplain hnewline _ ih =>
      obtain ⟨body, rfl, hbody, hnotes⟩ := ih
      refine ⟨c :: body, rfl, .plain hplain hbody, fun i after => ?_⟩
      rw [List.cons_append, quoteEndNoting, pairsFrom, hnotes (i + 1) after]
      · simp [hc, hplain, hnewline]
      · exact fun _ _ heq _ => hplain heq
      · exact fun _ _ heq _ => hplain heq
  | @escape c cs hnewline _ ih =>
      obtain ⟨body, rfl, hbody, hnotes⟩ := ih
      refine ⟨'\\' :: c :: body, rfl, .pair hbody, fun i after => ?_⟩
      rw [List.cons_append, List.cons_append, quoteEndNoting, pairsFrom, hnotes (i + 2) after]
      simp [hnewline]

/-- A literal on one line does not begin with three quotes. -/
theorem isTextBlock_of_closesQuoted {cs : List Char} (h : ClosesQuoted '"' cs) :
    isTextBlock ('"' :: cs) = false := by
  refine Bool.eq_false_iff.2 fun hblock => ?_
  obtain ⟨hquotes, hlength⟩ := Bool.and_eq_true_iff.1 hblock
  obtain ⟨tail, htail⟩ := List.isPrefixOf_iff_prefix.1 hquotes
  obtain ⟨-, rfl⟩ := List.cons.inj htail
  cases h with
  | plain hc => exact hc rfl

end Literal

/-- A string literal without a line break. -/
theorem Lexer.Cuts.isComplete_stringLiteral {line last : Nat} {cs : List Char} {tokens : List Token}
    {t : Token} (h : Lexer.Cuts line cs tokens last []) (ht : t ∈ tokens)
    (hkind : t.kind = .stringLiteral) (hline : '\n' ∉ t.text.toList) :
    Construct.stringLiteral.IsComplete t.text.toList := by
  obtain ⟨before, after, rfl⟩ := List.append_of_mem ht
  have hshape := h.hasShape
  rw [hkind] at hshape
  rcases hshape with hstring | ⟨gap, body, -, -, htext⟩
  · exact hstring
  · rw [htext] at hline
    simp at hline

/-- For every string literal on one line that the lexer cuts, with what stands between its quotes: the
lexer takes a character with a backslash where the pairs begin, whatever comes behind the literal; the
literal denotes nothing if and only if one of the pairs is faulty; the decoder sees escapes only where
pairs begin, one after the other, and all of them if the literal denotes something; and before a
backslash that begins a pair the text can be cut in two that are decoded apart. -/
theorem value_by_pairs {source : String} {tokens : List Token} {t : Token}
    (htokens : tokenize source = .ok tokens) (ht : t ∈ tokens) (hkind : t.kind = .stringLiteral)
    (hline : '\n' ∉ t.text.toList) :
    ∃ body, t.text.toList = '"' :: (body ++ ['"']) ∧ Literal.IsPaired body ∧
      (∀ after, Lexer.quoteEnd? '"' (body ++ '"' :: after) = some (body.length + 1) ∧
        Literal.quoteEndNoting '"' 0 (body ++ '"' :: after) =
          ((Literal.pairs body).map Literal.Pair.start, some (body.length + 1))) ∧
      ((∃ e, Literal.value t.text = .error e) ↔ ∃ p ∈ Literal.pairs body, p.IsFaulty) ∧
      ((∃ w, Literal.value t.text = .ok w) ↔ ∀ p ∈ Literal.pairs body, ¬ p.IsFaulty) ∧
      (Literal.decodeNoting 0 body).2 = Literal.value t.text ∧
      (Literal.decodeNoting 0 body).1 <+: (Literal.pairs body).map Literal.Pair.start ∧
      ((∃ w, Literal.value t.text = .ok w) →
        (Literal.decodeNoting 0 body).1 = (Literal.pairs body).map Literal.Pair.start) ∧
      ∀ x y, body = x ++ '\\' :: y → Literal.IsPaired x →
        Literal.decode body =
          (Literal.decode x).bind fun u => (Literal.decode ('\\' :: y)).map (u ++ ·) := by
  obtain ⟨last, hcuts⟩ := Lexer.tokensFrom_eq_ok_iff.1 htokens
  obtain ⟨closing, hcloses, htext⟩ := hcuts.isComplete_stringLiteral ht hkind hline
  obtain ⟨body, hbody, hpaired, hnotes⟩ :=
    Literal.exists_body_of_closesQuoted (by decide) (by decide) hcloses
  have hvalue : Literal.value t.text = Literal.decode body := by
    rw [Literal.value, htext, Literal.isTextBlock_of_closesQuoted hcloses, hbody,
      List.drop_succ_cons, List.drop_zero, List.dropLast_concat, if_neg Bool.false_ne_true]
  have hfails := Literal.exists_decode_error 0 body
  have hreturns : (∃ w, Literal.decode body = .ok w) ↔ ¬ ∃ e, Literal.decode body = .error e := by
    cases Literal.decode body <;> simp
  have hdecoded := Literal.decodeNoting_snd 0 body
  obtain ⟨hseen, hall⟩ := Literal.decodeNoting_fst 0 body
  rw [hdecoded] at hall
  refine ⟨body, htext.trans (congrArg _ hbody), hpaired, fun after => ?_, ?_, ?_, ?_, hseen, ?_, ?_⟩
  · rw [← Literal.quoteEndNoting_snd '"' 0, hnotes 0 after]
    exact ⟨rfl, rfl⟩
  · rw [hvalue]
    exact hfails
  · rw [hvalue, hreturns, hfails]
    simp [Literal.pairs]
  · rw [hvalue, hdecoded]
  · rw [hvalue]
    rintro ⟨w, hw⟩
    exact hall w hw
  · rintro x y rfl hx
    exact Literal.decode_append hx y

/-- An escaped backslash in front of what would be an escape, an octal escape with a digit behind it, a run
of `u`s, a digit of another script, and a superscript. -/
def escapedSource : String := "f(\"\\\\u00\\1012\\uuu0041\\\u0663\\\u00B2\")"

theorem value_by_pairs_escapedSource :
    ∃ tokens t, tokenize escapedSource = .ok tokens ∧ t ∈ tokens ∧ t.kind = .stringLiteral ∧
      '\n' ∉ t.text.toList ∧ Literal.value t.text = .error (.notOctal '\u00B2') ∧
      ∃ body, t.text.toList = '"' :: (body ++ ['"']) ∧
        (Literal.pairs body).map Literal.Pair.start = [0, 5, 10, 18, 20] ∧
        (Literal.decodeNoting 0 body).1 <+: [0, 5, 10, 18, 20] ∧
        ∃ p ∈ Literal.pairs body, p.IsFaulty := by
  let t : Token := ⟨.stringLiteral, "\"\\\\u00\\1012\\uuu0041\\\u0663\\\u00B2\"", 1, 1⟩
  let tokens : List Token :=
    [⟨.identifier, "f", 1, 1⟩, ⟨.punctuation, "(", 1, 1⟩, t, ⟨.punctuation, ")", 1, 1⟩]
  have htokens : tokenize escapedSource = .ok tokens := by decide +kernel
  have ht : t ∈ tokens := by simp [tokens]
  have hline : '\n' ∉ t.text.toList := by decide +kernel
  have hvalue : Literal.value t.text = .error (.notOctal '\u00B2') := by decide +kernel
  obtain ⟨body, hbody, -, -, hfails, -, -, hseen, -, -⟩ := value_by_pairs htokens ht rfl hline
  have hpairs : (Literal.pairs body).map Literal.Pair.start = [0, 5, 10, 18, 20] := by
    have htext : body = (t.text.toList.drop 1).dropLast := by
      rw [hbody, List.drop_succ_cons, List.drop_zero, List.dropLast_concat]
    rw [htext]
    decide +kernel
  exact ⟨tokens, t, htokens, ht, rfl, hline, hvalue, body, hbody, hpairs, hpairs ▸ hseen,
    hfails.1 ⟨_, hvalue⟩⟩

end EmbeddedSql
