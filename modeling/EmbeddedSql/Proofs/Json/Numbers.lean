/-
# Reading numbers back

A number is written as an integer, as digits with a point among them, or as digits with an exponent.  The
reader takes the digits before a point, those after it, and the exponent.

| written | digits | scale |
| :-- | :-- | :-- |
| `12.5` | `125` | `-1` |
| `120.0` | `1200` | `-1` |
| `0.0012` | `00012` | `-4` |
| `1.25e+20` | `125` | `18` |

The digits that are read need not be those that were written, since zeros come in, but they stand for the
same decimal, and that is read as the value.
-/
import Mathlib.Data.List.TakeWhile
import EmbeddedSql.Proofs.Json.ReadingBack
import EmbeddedSql.Proofs.Number.Rounding

namespace EmbeddedSql.Json

/-! ## Digits -/

theorem decimalNumber_eq (digits : List Char) : decimalNumber digits = Nat.ofDigitChars 10 digits 0 :=
  Nat.ofDigitChars_eq_foldl.symm

theorem decimalNumber_toDigits (n : Nat) : decimalNumber (Nat.toDigits 10 n) = n := by
  rw [decimalNumber_eq, Nat.ofDigitChars_ten_toDigits]

theorem decimalNumber_append_zeros (digits : List Char) (k : Nat) :
    decimalNumber (digits ++ List.replicate k '0') = decimalNumber digits * 10 ^ k := by
  rw [decimalNumber_eq, decimalNumber_eq, Nat.ofDigitChars_append, Nat.ofDigitChars_replicate_zero,
    Nat.mul_comm]

theorem decimalNumber_zeros_append (k : Nat) (digits : List Char) :
    decimalNumber (List.replicate k '0' ++ digits) = decimalNumber digits := by
  rw [decimalNumber_eq, decimalNumber_eq, Nat.ofDigitChars_append, Nat.ofDigitChars_replicate_zero,
    Nat.mul_zero]

/-- Characters that are all digits. -/
def AreDigits (cs : List Char) : Prop := ∀ c ∈ cs, isDecimal c = true

theorem AreDigits.append {cs ds : List Char} (hc : AreDigits cs) (hd : AreDigits ds) :
    AreDigits (cs ++ ds) := by
  intro c h
  rcases List.mem_append.1 h with h | h
  · exact hc c h
  · exact hd c h

theorem areDigits_zeros (k : Nat) : AreDigits (List.replicate k '0') := by
  intro c h
  rw [List.eq_of_mem_replicate h]
  rfl

theorem areDigits_toDigits (n : Nat) : AreDigits (Nat.toDigits 10 n) :=
  fun _ h => Nat.isDigit_of_mem_toDigits (by decide) (by decide) h

/-- What comes after the digits begins with none. -/
def NoDigit (rest : List Char) : Prop := ∀ c ∈ rest.head?, isDecimal c = false

theorem takeWhile_digits {digits rest : List Char} (hd : AreDigits digits) (hr : NoDigit rest) :
    (digits ++ rest).takeWhile isDecimal = digits := by
  rw [List.takeWhile_append_of_pos hd]
  cases rest with
  | nil => rw [List.takeWhile_nil, List.append_nil]
  | cons c rest =>
      rw [List.takeWhile_cons_of_neg (by simp [hr c rfl]), List.append_nil]

/-- The digits of a positive number begin with another digit than zero. -/
theorem head?_toDigits {n : Nat} (hn : 0 < n) : (Nat.toDigits 10 n).head? ≠ some '0' := by
  induction n using Nat.strong_induction_on with
  | _ n ih =>
      by_cases hlt : n < 10
      · rw [Nat.toDigits_of_lt_base hlt]
        exact (by decide : ∀ d : Fin 10, 0 < d.val → [Nat.digitChar d.val].head? ≠ some '0') ⟨n, hlt⟩ hn
      · rw [Nat.toDigits_of_base_le (by decide) (not_lt.1 hlt), List.head?_append]
        have hne : (Nat.toDigits 10 (n / 10)).head? ≠ none :=
          fun h => Nat.toDigits_ne_nil (List.head?_eq_none_iff.1 h)
        obtain ⟨c, hc⟩ := Option.ne_none_iff_exists'.1 hne
        rw [hc, Option.some_or, ← hc]
        exact ih (n / 10) (Nat.div_lt_self hn (by decide)) (Nat.div_pos (not_lt.1 hlt) (by decide))

/-! ## Parts of a number -/

/-- The digits that can stand before a point: a zero alone, or digits that begin with another. -/
structure IsWhole (whole : List Char) : Prop where
  ne_nil : whole ≠ []
  digits : AreDigits whole
  zero : whole.head? = some '0' → whole = ['0']

theorem isWhole_toDigits (n : Nat) : IsWhole (Nat.toDigits 10 n) where
  ne_nil := Nat.toDigits_ne_nil
  digits := areDigits_toDigits n
  zero := by
    intro h
    rcases Nat.eq_zero_or_pos n with rfl | hn
    · rfl
    · exact absurd h (head?_toDigits hn)

/-- The sign of a number. -/
def signOf (negative : Bool) : List Char := if negative then ['-'] else []

theorem readFraction_point {digits rest : List Char} (hne : digits ≠ []) (hd : AreDigits digits)
    (hr : NoDigit rest) : readFraction ('.' :: (digits ++ rest)) = (digits, rest) := by
  rw [readFraction, takeWhile_digits hd hr]
  rw [if_neg (by simpa using hne), List.drop_left]

theorem readFraction_of_ne {rest : List Char} (h : rest.head? ≠ some '.') : readFraction rest = ([], rest) := by
  unfold readFraction
  split
  · exact absurd rfl h
  · rfl

theorem readExponent_of_ne {rest : List Char} (h : ∀ c ∈ rest.head?, c ≠ 'e' ∧ c ≠ 'E') :
    readExponent rest = (none, rest) := by
  cases rest with
  | nil => rfl
  | cons c rest =>
      have hc := h c rfl
      unfold readExponent
      dsimp only
      rw [if_neg (by simp [hc.1, hc.2])]

theorem readExponent_written {digits rest : List Char} (hne : digits ≠ []) (hd : AreDigits digits)
    (hr : NoDigit rest) (negative : Bool) :
    readExponent ('e' :: (if negative then '-' else '+') :: (digits ++ rest)) =
      (some (if negative then -(decimalNumber digits : Int) else decimalNumber digits), rest) := by
  have hempty : ¬ digits.isEmpty = true := by simpa using hne
  cases negative with
  | false =>
      show readExponent ('e' :: '+' :: (digits ++ rest)) = _
      rw [readExponent, if_pos (by decide)]
      dsimp only
      rw [takeWhile_digits hd hr, if_neg hempty, List.drop_left]
  | true =>
      show readExponent ('e' :: '-' :: (digits ++ rest)) = _
      rw [readExponent, if_pos (by decide)]
      dsimp only
      rw [takeWhile_digits hd hr, if_neg hempty, List.drop_left]

/-! ## Numbers -/

theorem readWhole_append {whole tail : List Char} (hw : IsWhole whole) (ht : NoDigit tail) :
    readWhole (whole ++ tail) = whole := by
  obtain ⟨c, more, rfl⟩ := List.exists_cons_of_ne_nil hw.ne_nil
  by_cases hc : c = '0'
  · have hzero := hw.zero (congrArg some hc)
    rw [hzero]
    rfl
  · unfold readWhole
    split
    · next heq =>
        cases heq
        exact absurd rfl hc
    · exact takeWhile_digits hw.digits ht

theorem readSign_append {whole : List Char} (hw : IsWhole whole) (tail : List Char) (negative : Bool) :
    readSign (signOf negative ++ (whole ++ tail)) = (negative, whole ++ tail) := by
  cases negative with
  | true => rfl
  | false =>
      obtain ⟨c, more, rfl⟩ := List.exists_cons_of_ne_nil hw.ne_nil
      show readSign (c :: (more ++ tail)) = _
      rw [readSign]
      · rfl
      · rintro rest ⟨⟩
        cases hw.digits _ List.mem_cons_self

/-- Behind its whole part a number is an integer, or has a fraction or an exponent. -/
theorem readNumber_append {whole tail : List Char} (hw : IsWhole whole) (ht : NoDigit tail) (negative : Bool)
    {fraction rest after : List Char} {exponent : Option Int} (hf : readFraction tail = (fraction, rest))
    (he : readExponent rest = (exponent, after)) :
    readNumber (signOf negative ++ (whole ++ tail)) =
      if fraction = [] ∧ exponent = none then
        if maxIntegerDigits < whole.length then .error (.tooManyDigits whole.length)
        else
          .ok (.int (if negative then -(decimalNumber whole : Int) else decimalNumber whole), after)
      else
        .ok (.float (.ofDecimal negative (decimalNumber (whole ++ fraction))
          (exponent.getD 0 - fraction.length)), after) := by
  unfold readNumber
  rw [readSign_append hw]
  dsimp only
  rw [readWhole_append hw ht, if_neg (by simpa using hw.ne_nil), List.drop_left, hf]
  dsimp only
  rw [he]
  cases fraction with
  | nil =>
      cases exponent with
      | none => exact (if_pos ⟨rfl, rfl⟩).symm
      | some exponent => exact (if_neg fun h => Option.some_ne_none _ h.2).symm
  | cons c fraction => exact (if_neg fun h => List.cons_ne_nil _ _ h.1).symm

theorem Ends.noDigit {after : List Char} (h : Ends after) : NoDigit after := by
  intro c hc
  rcases h c hc with rfl | rfl | rfl <;> rfl

theorem Ends.readFraction {after : List Char} (h : Ends after) : readFraction after = ([], after) := by
  refine readFraction_of_ne fun hpoint => ?_
  rcases h '.' hpoint with h | h | h <;> cases h

theorem Ends.readExponent {after : List Char} (h : Ends after) : readExponent after = (none, after) := by
  refine readExponent_of_ne fun c hc => ?_
  rcases h c hc with rfl | rfl | rfl <;> decide

theorem readNumber_int {whole after : List Char} (hw : IsWhole whole)
    (hsize : whole.length ≤ maxIntegerDigits) (ha : Ends after) (negative : Bool) :
    readNumber (signOf negative ++ (whole ++ after)) =
      .ok (.int (if negative then -(decimalNumber whole : Int) else decimalNumber whole), after) := by
  rw [readNumber_append hw ha.noDigit negative ha.readFraction ha.readExponent, if_pos ⟨rfl, rfl⟩,
    if_neg (not_lt.2 hsize)]

theorem readNumber_point {whole fraction after : List Char} (hw : IsWhole whole) (hne : fraction ≠ [])
    (hd : AreDigits fraction) (ha : Ends after) (negative : Bool) :
    readNumber (signOf negative ++ (whole ++ '.' :: (fraction ++ after))) =
      .ok (.float (.ofDecimal negative (decimalNumber (whole ++ fraction)) (-fraction.length)), after) := by
  have hpoint : NoDigit ('.' :: (fraction ++ after)) := by
    rintro c ⟨⟩
    rfl
  rw [readNumber_append hw hpoint negative (readFraction_point hne hd ha.noDigit) ha.readExponent,
    if_neg fun h => hne h.1, Option.getD_none, zero_sub]

/-- A fraction with its point, nothing where there is no fraction. -/
def pointed (fraction : List Char) : List Char := if fraction = [] then [] else '.' :: fraction

theorem readNumber_exponent {whole fraction size after : List Char} (hw : IsWhole whole)
    (hd : AreDigits fraction) (hne : size ≠ []) (hs : AreDigits size) (ha : Ends after)
    (negative below : Bool) :
    readNumber (signOf negative ++ (whole ++ (pointed fraction
        ++ 'e' :: (if below then '-' else '+') :: (size ++ after)))) =
      .ok (.float (.ofDecimal negative (decimalNumber (whole ++ fraction))
        ((if below then -(decimalNumber size : Int) else decimalNumber size) - fraction.length)), after) := by
  have hletter : NoDigit ('e' :: (if below then '-' else '+') :: (size ++ after)) := by
    rintro c ⟨⟩
    rfl
  have hexponent := readExponent_written hne hs ha.noDigit below
  have hfraction : NoDigit (pointed fraction ++ 'e' :: (if below then '-' else '+') :: (size ++ after)) ∧
      readFraction (pointed fraction ++ 'e' :: (if below then '-' else '+') :: (size ++ after)) =
        (fraction, 'e' :: (if below then '-' else '+') :: (size ++ after)) := by
    unfold pointed
    split
    · next hnil =>
        rw [hnil]
        exact ⟨hletter, readFraction_of_ne (by rintro ⟨⟩)⟩
    · next hsome =>
        refine ⟨?_, readFraction_point hsome hd hletter⟩
        rintro c ⟨⟩
        rfl
  rw [readNumber_append hw hfraction.1 negative hfraction.2 hexponent,
    if_neg fun h => Option.some_ne_none _ h.2, Option.getD_some]

/-! ## Layouts -/

section Layout

open Binary64

variable {digits : List Char}

/-- The digits of an exponent, at least two. -/
def exponentDigits (n : Nat) : List Char :=
  if (Nat.toDigits 10 n).length < 2 then '0' :: Nat.toDigits 10 n else Nat.toDigits 10 n

theorem exponentDigits_ne_nil (n : Nat) : exponentDigits n ≠ [] := by
  unfold exponentDigits
  split
  · exact List.cons_ne_nil _ _
  · exact Nat.toDigits_ne_nil

theorem areDigits_exponentDigits (n : Nat) : AreDigits (exponentDigits n) := by
  unfold exponentDigits
  split
  · exact (areDigits_zeros 1).append (areDigits_toDigits n)
  · exact areDigits_toDigits n

theorem decimalNumber_exponentDigits (n : Nat) : decimalNumber (exponentDigits n) = n := by
  unfold exponentDigits
  split
  · exact (decimalNumber_zeros_append 1 _).trans (decimalNumber_toDigits n)
  · exact decimalNumber_toDigits n

theorem layout_exponent {c : Char} {fraction : List Char} {point : Int} (h : point ≤ -4 ∨ 16 < point) :
    layout (c :: fraction) point = [c] ++ (pointed fraction ++ 'e' ::
      (if decide (point - 1 < 0) then '-' else '+') :: exponentDigits (point - 1).natAbs) := by
  unfold layout
  rw [if_pos h]
  simp only [decide_eq_true_eq]
  cases fraction with
  | nil => rfl
  | cons d fraction => rfl

theorem readNumber_layout_exponent (hne : digits ≠ []) (hd : AreDigits digits)
    (hz : digits.head? ≠ some '0') {point : Int} (h : point ≤ -4 ∨ 16 < point) {after : List Char}
    (ha : Ends after) (negative : Bool) :
    readNumber (signOf negative ++ (layout digits point ++ after)) =
      .ok (.float (.ofDecimal negative (decimalNumber digits) (point - digits.length)), after) := by
  obtain ⟨c, fraction, rfl⟩ := List.exists_cons_of_ne_nil hne
  have hw : IsWhole [c] := by
    refine ⟨List.cons_ne_nil _ _, fun d hm => ?_, fun hzero => absurd hzero hz⟩
    exact hd d (List.mem_singleton.1 hm ▸ List.mem_cons_self)
  have hfraction : AreDigits fraction := fun d hm => hd d (List.mem_cons_of_mem _ hm)
  rw [layout_exponent h]
  have hread := readNumber_exponent hw hfraction (exponentDigits_ne_nil _)
    (areDigits_exponentDigits (point - 1).natAbs) ha negative (decide (point - 1 < 0))
  rw [decimalNumber_exponentDigits] at hread
  have hscale : (if decide (point - 1 < 0) = true then -((point - 1).natAbs : Int) else (point - 1).natAbs)
      - (fraction.length : Int) = point - ((c :: fraction).length : Nat) := by
    rw [List.length_cons]
    split
    · next hneg =>
        have := of_decide_eq_true hneg
        omega
    · next hneg =>
        have := of_decide_eq_false (Bool.not_eq_true _ ▸ hneg)
        omega
  rw [hscale] at hread
  rw [List.append_assoc, List.append_assoc]
  exact hread

/-- Digits around a point, as they are read, and the value that they stand for. -/
structure Around (written : List Char) (x : ℚ) (whole fraction : List Char) : Prop where
  eq : written = whole ++ '.' :: fraction
  isWhole : IsWhole whole
  ne_nil : fraction ≠ []
  digits : AreDigits fraction
  value : (decimalNumber (whole ++ fraction) * 10 ^ (-fraction.length : Int) : ℚ) = x

/-- Zeros behind the point come before the digits. -/
theorem around_below (hne : digits ≠ []) (hd : AreDigits digits) (k : Nat) :
    Around ('0' :: '.' :: List.replicate k '0' ++ digits)
      (decimalNumber digits * 10 ^ (-(k : Int) - digits.length)) ['0'] (List.replicate k '0' ++ digits) where
  eq := rfl
  isWhole := ⟨List.cons_ne_nil _ _, areDigits_zeros 1, fun _ => rfl⟩
  ne_nil := List.append_ne_nil_of_right_ne_nil _ hne
  digits := (areDigits_zeros k).append hd
  value := by
    have hnumber := decimalNumber_zeros_append (k + 1) digits
    rw [List.replicate_succ, List.cons_append] at hnumber
    rw [List.singleton_append, hnumber, List.length_append, List.length_replicate]
    congr 2
    push_cast
    ring

/-- Zeros before the point come behind the digits. -/
theorem around_above (hne : digits ≠ []) (hd : AreDigits digits) (hz : digits.head? ≠ some '0') (k : Nat) :
    Around (digits ++ List.replicate k '0' ++ '.' :: ['0']) (decimalNumber digits * 10 ^ (k : Int))
      (digits ++ List.replicate k '0') ['0'] where
  eq := rfl
  isWhole := by
    refine ⟨List.append_ne_nil_of_left_ne_nil hne _, hd.append (areDigits_zeros k), fun h => ?_⟩
    rw [List.head?_append_of_ne_nil _ hne] at h
    exact absurd h hz
  ne_nil := List.cons_ne_nil _ _
  digits := areDigits_zeros 1
  value := by
    have hnumber := decimalNumber_append_zeros digits (k + 1)
    rw [List.replicate_succ', ← List.append_assoc] at hnumber
    rw [hnumber]
    push_cast
    rw [pow_succ, zpow_neg, List.length_singleton, zpow_natCast]
    norm_num
    ring

/-- The point stands among the digits. -/
theorem around_among (hd : AreDigits digits) (hz : digits.head? ≠ some '0') {k : Nat} (hk : 0 < k)
    (hlen : k < digits.length) :
    Around (digits.take k ++ '.' :: digits.drop k) (decimalNumber digits * 10 ^ ((k : Int) - digits.length))
      (digits.take k) (digits.drop k) where
  eq := rfl
  isWhole := by
    refine ⟨?_, fun c hc => hd c (List.mem_of_mem_take hc), fun h => ?_⟩
    · rw [ne_eq, List.take_eq_nil_iff]
      rintro (rfl | rfl)
      · exact absurd hk (lt_irrefl 0)
      · exact absurd hlen (Nat.not_lt_zero k)
    · rw [List.head?_take, if_neg hk.ne'] at h
      exact absurd h hz
  ne_nil := by
    rw [ne_eq, List.drop_eq_nil_iff]
    omega
  digits := fun c hc => hd c (List.mem_of_mem_drop hc)
  value := by
    rw [List.take_append_drop, List.length_drop, Nat.cast_sub hlen.le, neg_sub]

/-- Without an exponent, digits are laid out around a point. -/
theorem exists_around (hne : digits ≠ []) (hd : AreDigits digits) (hz : digits.head? ≠ some '0')
    {point : Int} (h : ¬ (point ≤ -4 ∨ 16 < point)) :
    ∃ whole fraction, Around (layout digits point) (decimalNumber digits * 10 ^ (point - digits.length))
      whole fraction := by
  unfold layout
  rw [if_neg h]
  split
  · obtain ⟨k, rfl⟩ : ∃ k : Nat, point = -k := ⟨(-point).toNat, by omega⟩
    rw [neg_neg, Int.toNat_natCast]
    exact ⟨_, _, around_below hne hd k⟩
  · next hpos =>
      obtain ⟨k, rfl⟩ : ∃ k : Nat, point = k := ⟨point.toNat, by omega⟩
      simp only [Int.toNat_natCast]
      by_cases hlen : k < digits.length
      · rw [if_neg (by simpa using hlen), List.length_take, Nat.min_eq_left hlen.le, Nat.sub_self,
          List.replicate_zero, List.append_nil]
        exact ⟨_, _, around_among hd hz (by omega) hlen⟩
      · obtain ⟨j, rfl⟩ := Nat.exists_eq_add_of_le (not_lt.1 hlen)
        rw [if_pos (by simp), List.take_of_length_le (Nat.le_add_right _ _), Nat.add_sub_cancel_left,
          Nat.cast_add, add_sub_cancel_left]
        exact ⟨_, _, around_above hne hd hz j⟩

/-- What is laid out is read as a decimal of the same value. -/
theorem readNumber_layout (hne : digits ≠ []) (hd : AreDigits digits) (hz : digits.head? ≠ some '0')
    (point : Int) {after : List Char} (ha : Ends after) (negative : Bool) :
    ∃ (n : Nat) (scale : Int),
      readNumber (signOf negative ++ (layout digits point ++ after)) =
        .ok (.float (.ofDecimal negative n scale), after) ∧
      (n * 10 ^ scale : ℚ) = decimalNumber digits * 10 ^ (point - digits.length) := by
  by_cases hexponent : point ≤ -4 ∨ 16 < point
  · exact ⟨_, _, readNumber_layout_exponent hne hd hz hexponent ha negative, rfl⟩
  · obtain ⟨whole, fraction, h⟩ := exists_around hne hd hz hexponent
    have hread := readNumber_point h.isWhole h.ne_nil h.digits ha negative
    refine ⟨_, _, ?_, h.value⟩
    rw [h.eq, List.append_assoc]
    exact hread

end Layout

/-! ## Values -/

/-- The digits that are kept are followed by zeros. -/
theorem exists_stripZeros (digits : List Char) (scale : Int) :
    ∃ kept k, digits = kept ++ List.replicate k '0' ∧ Binary64.stripZeros digits scale = (kept, scale + k) := by
  let zeros := digits.reverse.takeWhile (· == '0')
  let kept := (digits.reverse.dropWhile (· == '0')).reverse
  have hsplit : digits = kept ++ zeros.reverse := by
    rw [← List.reverse_append, List.takeWhile_append_dropWhile, List.reverse_reverse]
  have hzeros : zeros.reverse = List.replicate zeros.length '0' := by
    refine List.eq_replicate_iff.2 ⟨List.length_reverse, fun c hc => ?_⟩
    have hzero := List.mem_takeWhile_imp (p := (· == '0')) (List.mem_reverse.1 hc)
    exact beq_iff_eq.1 hzero
  have hlength : digits.length - kept.length = zeros.length := by
    conv_lhs => rw [hsplit]
    rw [List.length_append, Nat.add_sub_cancel_left, List.length_reverse]
  refine ⟨kept, zeros.length, hzeros ▸ hsplit, ?_⟩
  rw [← hlength]
  rfl

/-- What is written of a positive value: digits that round to it, laid out. -/
theorem exists_layout {m : Nat} {e : Int} (hfits : Binary64.Fits m e) (negative : Bool) :
    ∃ digits point,
      (Binary64.finite negative m e).render = signOf negative ++ Binary64.layout digits point ∧
      digits ≠ [] ∧ AreDigits digits ∧ digits.head? ≠ some '0' ∧
      Binary64.Rounds (decimalNumber digits * 10 ^ (point - digits.length)) m e := by
  have hrounds := Binary64.rounds_shortest hfits.pos e
  unfold Binary64.render
  dsimp only
  rw [if_neg hfits.pos.ne']
  generalize Binary64.shortest m e = found at hrounds ⊢
  obtain ⟨n, scale⟩ := found
  have hn : 0 < n := by
    have hcast : (0 : ℚ) < n := (pos_iff_pos_of_mul_pos (hrounds.pos hfits)).2 (by positivity)
    exact_mod_cast hcast
  have hhead := head?_toDigits hn
  have hdigits := areDigits_toDigits n
  have hnumber := decimalNumber_toDigits n
  have hnil : Nat.toDigits 10 n ≠ [] := Nat.toDigits_ne_nil
  obtain ⟨kept, k, hsplit, hstrip⟩ := exists_stripZeros (Nat.toDigits 10 n) scale
  dsimp only
  rw [hstrip]
  rw [hsplit] at hhead hdigits hnumber hnil
  have hne : kept ≠ [] := by
    rintro rfl
    cases k with
    | zero => exact hnil rfl
    | succ k => exact hhead rfl
  rw [List.head?_append_of_ne_nil _ hne] at hhead
  have hvalue : (decimalNumber kept * 10 ^ ((kept.length : Int) + (scale + k) - kept.length) : ℚ) =
      n * 10 ^ scale := by
    rw [← hnumber, decimalNumber_append_zeros, add_sub_cancel_left, add_comm scale, Binary64.ten_pow_add]
    push_cast
    rw [zpow_natCast, mul_assoc]
  exact ⟨kept, kept.length + (scale + k), rfl, hne, fun c hc => hdigits c (List.mem_append_left _ hc), hhead,
    hvalue ▸ hrounds⟩

/-! ## Values that are numbers or words -/

theorem ne_of_isDecimal {c d : Char} (hc : isDecimal c = true) (hd : isDecimal d = false) : c ≠ d := by
  rintro rfl
  rw [hc] at hd
  cases hd

/-- What begins with a sign and a digit is read as a number. -/
theorem readValue_number {fuel : Nat} {c : Char} (hc : isDecimal c = true) (negative : Bool)
    (rest : List Char) :
    readValue (fuel + 1) (signOf negative ++ c :: rest) = readNumber (signOf negative ++ c :: rest) := by
  have hne {d : Char} (hd : isDecimal d = false) : c ≠ d := ne_of_isDecimal hc hd
  cases negative with
  | true =>
      have hwords : words.find? (fun word => word.1.isPrefixOf ('-' :: c :: rest)) = none := by
        simp [words, List.isPrefixOf, (hne (d := 'I') rfl).symm]
      show readValue (fuel + 1) ('-' :: c :: rest) = readNumber ('-' :: c :: rest)
      rw [readValue]
      · split
        · next heq => cases heq.symm.trans hwords
        · rfl
      all_goals
        rintro tail ⟨⟩
  | false =>
      have hwords : words.find? (fun word => word.1.isPrefixOf (c :: rest)) = none := by
        simp [words, List.isPrefixOf, (hne (d := 'n') rfl).symm, (hne (d := 't') rfl).symm,
          (hne (d := 'f') rfl).symm, (hne (d := 'N') rfl).symm, (hne (d := 'I') rfl).symm,
          (hne (d := '-') rfl).symm]
      show readValue (fuel + 1) (c :: rest) = readNumber (c :: rest)
      rw [readValue]
      · split
        · next heq => cases heq.symm.trans hwords
        · rfl
      · rintro tail ⟨⟩
        exact hne rfl rfl
      · rintro tail ⟨⟩
        exact hne rfl rfl
      · rintro tail ⟨⟩
        exact hne rfl rfl

/-- A text that begins like a number and is read as one. -/
structure IsNumber (written : List Char) (v : Json) : Prop where
  begins : ∃ negative c rest, written = signOf negative ++ c :: rest ∧ isDecimal c = true
  read : ∀ after, Ends after → readNumber (written ++ after) = .ok (v, after)

theorem opening_of_isDecimal {c : Char} (hc : isDecimal c = true) (negative : Bool) (rest : List Char) :
    ∃ d tail, signOf negative ++ c :: rest = d :: tail ∧ isSpace d = false ∧ d ≠ ']' ∧ d ≠ '\uFEFF' := by
  have hne {d : Char} (hd : isDecimal d = false) : c ≠ d := ne_of_isDecimal hc hd
  cases negative with
  | true => exact ⟨'-', c :: rest, rfl, rfl, by decide, by decide⟩
  | false =>
      refine ⟨c, rest, rfl, ?_, hne rfl, hne rfl⟩
      simp only [isSpace, Bool.or_eq_false_iff, beq_eq_false_iff_ne]
      exact ⟨⟨⟨hne rfl, hne rfl⟩, hne rfl⟩, hne rfl⟩

theorem readsBack_of_isNumber {v : Json} (h : IsNumber (compact v) v) : ReadsBack v := by
  obtain ⟨negative, c, rest, hwritten, hc⟩ := h.begins
  obtain ⟨d, tail, hfirst, hopening⟩ := opening_of_isDecimal hc negative rest
  refine readsBack_of_succ (hwritten.trans hfirst) hopening fun fuel after ha => ?_
  have hread := h.read after ha
  rw [hwritten, List.append_assoc, List.cons_append] at hread ⊢
  rw [readValue_number hc, hread]

theorem writeInt_eq (n : Int) : writeInt n = signOf (decide (n < 0)) ++ Nat.toDigits 10 n.natAbs := by
  unfold writeInt
  cases n with
  | ofNat k =>
      show (toString k).toList = _
      rw [Nat.toString_eq_ofList_toDigits, String.toList_ofList]
      rfl
  | negSucc k =>
      show ("-" ++ toString (k + 1)).toList = _
      rw [String.toList_append, Nat.toString_eq_ofList_toDigits, String.toList_ofList, String.toList_ofList,
        decide_eq_true (Int.negSucc_lt_zero k)]
      rfl

/-- Integers read back unless they have more digits than the reader takes. -/
theorem readsBack_int {n : Int} (h : n.natAbs < 10 ^ maxIntegerDigits) : ReadsBack (.int n) := by
  refine readsBack_of_isNumber ?_
  show IsNumber (writeInt n) (.int n)
  have hsize : (Nat.toDigits 10 n.natAbs).length ≤ maxIntegerDigits :=
    (Nat.length_toDigits_le_iff (by decide) (by decide)).2 h
  have hw := isWhole_toDigits n.natAbs
  rw [writeInt_eq]
  constructor
  · obtain ⟨c, rest, hcons⟩ := List.exists_cons_of_ne_nil hw.ne_nil
    exact ⟨_, c, rest, by rw [hcons], hw.digits c (hcons ▸ List.mem_cons_self)⟩
  · intro after ha
    have hread := readNumber_int hw hsize ha (decide (n < 0))
    have hvalue : (if decide (n < 0) = true then -(n.natAbs : Int) else n.natAbs) = n := by
      by_cases hneg : n < 0
      · rw [if_pos (decide_eq_true hneg)]
        omega
      · rw [if_neg (mt of_decide_eq_true hneg)]
        omega
    rw [decimalNumber_toDigits, hvalue] at hread
    rw [List.append_assoc]
    exact hread

theorem readsBack_null : ReadsBack .null := readsBack_of_succ rfl (by decide) fun _ _ _ => rfl

theorem readsBack_bool (b : Bool) : ReadsBack (.bool b) := by
  cases b with
  | false => exact readsBack_of_succ rfl (by decide) fun _ _ _ => rfl
  | true => exact readsBack_of_succ rfl (by decide) fun _ _ _ => rfl

theorem layout_begins {digits : List Char} (hne : digits ≠ []) (hd : AreDigits digits)
    (hz : digits.head? ≠ some '0') (point : Int) :
    ∃ c rest, Binary64.layout digits point = c :: rest ∧ isDecimal c = true := by
  by_cases h : point ≤ -4 ∨ 16 < point
  · obtain ⟨c, fraction, rfl⟩ := List.exists_cons_of_ne_nil hne
    exact ⟨c, _, layout_exponent h, hd c List.mem_cons_self⟩
  · obtain ⟨whole, fraction, haround⟩ := exists_around hne hd hz h
    obtain ⟨c, rest, rfl⟩ := List.exists_cons_of_ne_nil haround.isWhole.ne_nil
    exact ⟨c, _, haround.eq, haround.isWhole.digits c List.mem_cons_self⟩

theorem isNumber_render {negative : Bool} {m : Nat} {e : Int}
    (hx : (Binary64.finite negative m e).IsValue) :
    IsNumber (Binary64.finite negative m e).render (.float (.finite negative m e)) := by
  rcases hx with ⟨rfl, rfl⟩ | hfits
  · refine ⟨⟨negative, '0', ['.', '0'], by cases negative <;> rfl, rfl⟩, fun after ha => ?_⟩
    have hw : IsWhole ['0'] := ⟨List.cons_ne_nil _ _, areDigits_zeros 1, fun _ => rfl⟩
    have hread := readNumber_point hw (List.cons_ne_nil _ _) (areDigits_zeros 1) ha negative
    cases negative <;> exact hread
  · obtain ⟨digits, point, hrender, hne, hd, hz, hrounds⟩ := exists_layout hfits negative
    rw [hrender]
    constructor
    · obtain ⟨c, rest, hlayout, hc⟩ := layout_begins hne hd hz point
      exact ⟨negative, c, rest, by rw [hlayout], hc⟩
    · intro after ha
      obtain ⟨n, scale, hread, hvalue⟩ := readNumber_layout hne hd hz point ha negative
      rw [Binary64.ofDecimal_eq hfits (hvalue ▸ hrounds)] at hread
      rw [List.append_assoc]
      exact hread

/-- Numbers read back, also those that have no decimal form. -/
theorem readsBack_float {x : Binary64} (hx : x.IsValue) : ReadsBack (.float x) := by
  cases x with
  | finite negative m e => exact readsBack_of_isNumber (isNumber_render hx)
  | infinite negative =>
      cases negative with
      | false => exact readsBack_of_succ rfl (by decide) fun _ _ _ => rfl
      | true => exact readsBack_of_succ rfl (by decide) fun _ _ _ => rfl
  | nan => exact readsBack_of_succ rfl (by decide) fun _ _ _ => rfl

end EmbeddedSql.Json
