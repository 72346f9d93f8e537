/-
# The nearest value

A positive number is read as `m · 2 ^ e` if it lies between the two points that are halfway to the
neighbours; on one of these points it is if `m` is even.  The neighbour below a power of two is half as far
away as the one above, unless the exponent is the least.

| | of the unit `2 ^ e` |
| :-- | :-- |
| from below | `m - 1/2`, and `m - 1/4` where `m = 2 ^ 52` and `-1074 < e` |
| from above | `m + 1/2` |

Reading is done on natural numbers, with the powers moved to the side on which they are whole.  What it does
is stated here on rational numbers, so that a decimal counts for what it is and not for how it is written.

What is written of a value are digits that are read as the value.  They are looked for on coarse grids first,
and each candidate is tested; the exact value stands at the end of the search.  So that the digits are read
back does not depend on how they were found, nor on how many there are (`rounds_shortest`).
-/
import Mathlib.Algebra.Order.Field.Power
import Mathlib.Data.Rat.Cast.Order
import Mathlib.Tactic.FieldSimp
import Mathlib.Tactic.Linarith
import Mathlib.Tactic.NormNum
import Mathlib.Tactic.Positivity
import Mathlib.Tactic.Ring
import EmbeddedSql.Number.Binary64

namespace EmbeddedSql.Binary64

/-! ## Values -/

/-- A significand and an exponent by which a positive value is kept: 53 binary digits, or fewer at the
least exponent. -/
structure Fits (m : Nat) (e : Int) : Prop where
  pos : 0 < m
  lt : m < 2 ^ 53
  low : -1074 ≤ e
  high : e ≤ 971
  full : 2 ^ 52 ≤ m ∨ e = -1074

instance (m : Nat) (e : Int) : Decidable (Fits m e) :=
  decidable_of_iff (0 < m ∧ m < 2 ^ 53 ∧ -1074 ≤ e ∧ e ≤ 971 ∧ (2 ^ 52 ≤ m ∨ e = -1074))
    ⟨fun h => ⟨h.1, h.2.1, h.2.2.1, h.2.2.2.1, h.2.2.2.2⟩,
      fun h => ⟨h.pos, h.lt, h.low, h.high, h.full⟩⟩

/-- The values there are: each number has one form. -/
def IsValue : Binary64 → Prop
  | finite _ m e => (m = 0 ∧ e = 0) ∨ Fits m e
  | _ => True

/-- Is the positive `x` read as `m · 2 ^ e`? -/
structure Rounds (x : ℚ) (m : Nat) (e : Int) : Prop where
  low : m - 1 / 2 ≤ x / 2 ^ e
  narrow : m = 2 ^ 52 → -1074 < e → m - 1 / 4 ≤ x / 2 ^ e
  high : x / 2 ^ e ≤ m + 1 / 2
  odd : m % 2 = 1 → m - 1 / 2 < x / 2 ^ e ∧ x / 2 ^ e < m + 1 / 2

theorem rounds_self (m : Nat) (e : Int) : Rounds (m * 2 ^ e) m e := by
  have hscaled : (m * 2 ^ e : ℚ) / 2 ^ e = m := mul_div_cancel_right₀ _ (by positivity)
  constructor
  · linarith
  · intro _ _
    linarith
  · linarith
  · exact fun _ => ⟨by linarith, by linarith⟩

/-! ## Powers -/

theorem cast_pow_toNat {b : Nat} (hb : 0 < b) (i : Int) :
    (Nat.pow b i.toNat : ℚ) = b ^ i * Nat.pow b (-i).toNat := by
  have hb' : (b : ℚ) ≠ 0 := by positivity
  obtain ⟨n, rfl | rfl⟩ := i.eq_nat_or_neg
  · simp
  · simp [hb']

theorem cast_twoTo (i : Int) : (twoTo i : ℚ) = 2 ^ i * twoTo (-i) := by
  exact_mod_cast cast_pow_toNat (b := 2) (by decide) i

theorem cast_twoTo_natCast (n : Nat) : (twoTo n : ℚ) = 2 ^ n := by simp [twoTo]

theorem cast_tenTo (i : Int) : (tenTo i : ℚ) = 10 ^ i * tenTo (-i) := by
  exact_mod_cast cast_pow_toNat (b := 10) (by decide) i

theorem twoTo_pos (i : Int) : (0 : ℚ) < twoTo i := by
  exact_mod_cast Nat.pow_pos (by decide)

theorem tenTo_pos (i : Int) : (0 : ℚ) < tenTo i := by
  exact_mod_cast Nat.pow_pos (by decide)

/-! ## Division -/

/-- The quotient rounds to a natural number at most half away, which is even at just half. -/
theorem divideToEven_eq {n d m : Nat} (hd : 0 < d) (hlow : 2 * (m * d) ≤ 2 * n + d)
    (hhigh : 2 * n ≤ 2 * (m * d) + d)
    (hodd : m % 2 = 1 → 2 * (m * d) < 2 * n + d ∧ 2 * n < 2 * (m * d) + d) :
    divideToEven n d = m := by
  have hdiv := Nat.div_add_mod n d
  have hmod := Nat.mod_lt n hd
  rw [Nat.mul_comm] at hdiv
  generalize hq : n / d = q at hdiv
  generalize hr : n % d = r at hdiv hmod
  unfold divideToEven
  simp only [hq, hr]
  -- Only the two neighbours of the quotient are that near.
  have hnear : m = q ∨ m = q + 1 := by
    by_contra hne
    rcases Nat.lt_or_ge m q with h | h
    · have hle := Nat.mul_le_mul_right d (Nat.succ_le_of_lt h)
      rw [Nat.succ_mul] at hle
      omega
    · have hle := Nat.mul_le_mul_right d (show q + 2 ≤ m by omega)
      rw [Nat.add_mul] at hle
      omega
  rcases hnear with rfl | rfl
  · split
    · rfl
    · split <;> omega
  · rw [Nat.add_one_mul q d] at hlow hhigh hodd
    split
    · omega
    · split <;> omega

theorem cast_scaled (n : Nat) {d : Nat} (hd : 0 < d) (e : Int) :
    ((n * twoTo (-e) : Nat) : ℚ) = (n / d : ℚ) / 2 ^ e * (d * twoTo e : Nat) := by
  have hd' : (d : ℚ) ≠ 0 := by positivity
  have h2 : ((2 : ℚ) ^ e) ≠ 0 := by positivity
  rw [Nat.cast_mul, Nat.cast_mul, cast_twoTo e]
  field_simp

/-- A ratio that rounds to `m` units of `2 ^ e` does so on natural numbers. -/
theorem divideToEven_scaled {n d m : Nat} {e : Int} (hd : 0 < d)
    (hlow : (m : ℚ) - 1 / 2 ≤ (n / d : ℚ) / 2 ^ e) (hhigh : (n / d : ℚ) / 2 ^ e ≤ m + 1 / 2)
    (hodd : m % 2 = 1 → (m : ℚ) - 1 / 2 < (n / d : ℚ) / 2 ^ e ∧ (n / d : ℚ) / 2 ^ e < m + 1 / 2) :
    divideToEven (n * twoTo (-e)) (d * twoTo e) = m := by
  have hscaled := cast_scaled n hd e
  have hpos : 0 < d * twoTo e := Nat.mul_pos hd (Nat.pow_pos (by decide))
  generalize d * twoTo e = b at hscaled hpos ⊢
  generalize n * twoTo (-e) = a at hscaled ⊢
  generalize (n / d : ℚ) / 2 ^ e = y at hscaled hlow hhigh hodd
  have hb : (0 : ℚ) < b := by exact_mod_cast hpos
  refine divideToEven_eq hpos ?_ ?_ fun h => ⟨?_, ?_⟩
  · have h : (2 * (m * b) : ℚ) ≤ 2 * a + b := by
      rw [hscaled]
      nlinarith [mul_le_mul_of_nonneg_right hlow hb.le]
    exact_mod_cast h
  · have h : (2 * a : ℚ) ≤ 2 * (m * b) + b := by
      rw [hscaled]
      nlinarith [mul_le_mul_of_nonneg_right hhigh hb.le]
    exact_mod_cast h
  · have h : (2 * (m * b) : ℚ) < 2 * a + b := by
      rw [hscaled]
      nlinarith [mul_lt_mul_of_pos_right (hodd h).1 hb]
    exact_mod_cast h
  · have h : (2 * a : ℚ) < 2 * (m * b) + b := by
      rw [hscaled]
      nlinarith [mul_lt_mul_of_pos_right (hodd h).2 hb]
    exact_mod_cast h

/-! ## The unit -/

/-- A ratio lies between two powers of two that are known from the sizes of its parts. -/
theorem ratio_between {n d : Nat} (hn : 0 < n) (hd : 0 < d) :
    (2 : ℚ) ^ ((n.log2 : Int) - d.log2 - 1) < n / d ∧ (n / d : ℚ) < 2 ^ ((n.log2 : Int) - d.log2 + 1) := by
  have hd' : (0 : ℚ) < d := by exact_mod_cast hd
  have hlog : ∀ k : Nat, 0 < k → (2 : ℚ) ^ (k.log2 : Int) ≤ k ∧ (k : ℚ) < 2 ^ ((k.log2 : Int) + 1) := by
    intro k hk
    refine ⟨?_, ?_⟩
    · exact_mod_cast Nat.log2_self_le hk.ne'
    · exact_mod_cast Nat.lt_log2_self
  obtain ⟨hnlow, hnhigh⟩ := hlog n hn
  obtain ⟨hdlow, hdhigh⟩ := hlog d hd
  have h2 : (2 : ℚ) ≠ 0 := by norm_num
  refine ⟨(lt_div_iff₀ hd').2 ?_, (div_lt_iff₀ hd').2 ?_⟩
  · calc (2 : ℚ) ^ ((n.log2 : Int) - d.log2 - 1) * d
        < 2 ^ ((n.log2 : Int) - d.log2 - 1) * 2 ^ ((d.log2 : Int) + 1) := by gcongr
      _ = 2 ^ (n.log2 : Int) := by
        rw [← zpow_add₀ h2]
        congr 1
        ring
      _ ≤ n := hnlow
  · calc (n : ℚ) < 2 ^ ((n.log2 : Int) + 1) := hnhigh
      _ = 2 ^ ((n.log2 : Int) - d.log2 + 1) * 2 ^ (d.log2 : Int) := by
        rw [← zpow_add₀ h2]
        congr 1
        ring
      _ ≤ 2 ^ ((n.log2 : Int) - d.log2 + 1) * d := by gcongr

theorem two_pow_add (i j : Int) : (2 : ℚ) ^ (i + j) = 2 ^ i * 2 ^ j := zpow_add₀ (by norm_num) i j

/-- In its unit a ratio takes 53 binary digits. -/
theorem unitExponent_spec {n d : Nat} (hn : 0 < n) (hd : 0 < d) :
    (2 : ℚ) ^ (unitExponent n d + 52) ≤ n / d ∧ (n / d : ℚ) < 2 ^ (unitExponent n d + 53) := by
  obtain ⟨hlow, hhigh⟩ := ratio_between hn hd
  unfold unitExponent
  dsimp only
  generalize hg : (n.log2 : Int) - d.log2 - 52 = g
  rw [show (n.log2 : Int) - d.log2 - 1 = g + 51 by omega] at hlow
  rw [show (n.log2 : Int) - d.log2 + 1 = g + 53 by omega] at hhigh
  have hscaled := cast_scaled n hd g
  have hpos : 0 < d * twoTo g := Nat.mul_pos hd (Nat.pow_pos (by decide))
  have htwo : (twoTo 52 : ℚ) = 2 ^ (52 : Int) := by exact_mod_cast cast_twoTo_natCast 52
  have hcast : ∀ a b : Nat, a < b ↔ (a : ℚ) < b := fun a b => Nat.cast_lt.symm
  have htest : n * twoTo (-g) / (d * twoTo g) < twoTo 52 ↔ (n / d : ℚ) < 2 ^ (g + 52) := by
    rw [Nat.div_lt_iff_lt_mul hpos, hcast, hscaled, Nat.cast_mul (twoTo 52),
      mul_lt_mul_iff_left₀ (by exact_mod_cast hpos), div_lt_iff₀ (by positivity), two_pow_add,
      mul_comm ((2 : ℚ) ^ g), htwo]
  split
  · next h =>
      rw [show g - 1 + 52 = g + 51 by ring, show g - 1 + 53 = g + 52 by ring]
      exact ⟨hlow.le, htest.1 h⟩
  · next h => exact ⟨not_lt.1 (mt htest.2 h), hhigh⟩

theorem lt_of_two_pow_le {x : ℚ} {i j : Int} (hi : (2 : ℚ) ^ i ≤ x) (hj : x < 2 ^ j) : i < j :=
  (zpow_lt_zpow_iff_right₀ (by norm_num)).1 (lt_of_le_of_lt hi hj)

/-! ## Reading a ratio -/

variable {x : ℚ} {m : Nat} {e : Int}

theorem Rounds.pos (h : Rounds x m e) (hfits : Fits m e) : 0 < x := by
  have hm : (1 : ℚ) ≤ m := by exact_mod_cast hfits.pos
  have hscaled : 0 < x / 2 ^ e := by linarith [h.low]
  exact (div_pos_iff_of_pos_right (by positivity)).1 hscaled

theorem Rounds.lt (h : Rounds x m e) (hfits : Fits m e) : x < 2 ^ (e + 53) := by
  have hm : (m : ℚ) + 1 ≤ 2 ^ 53 := by exact_mod_cast Nat.succ_le_of_lt hfits.lt
  rw [two_pow_add, mul_comm, ← div_lt_iff₀ (by positivity)]
  norm_num at hm ⊢
  linarith [h.high]

/-- A ratio is read as the value that it rounds to. -/
theorem ofRatio_eq {n d : Nat} (hn : 0 < n) (hd : 0 < d) (hfits : Fits m e)
    (h : Rounds (n / d) m e) (negative : Bool) : ofRatio negative n d = finite negative m e := by
  obtain ⟨hunit, hbelow⟩ := unitExponent_spec hn hd
  have hle : unitExponent n d ≤ e := by
    have := lt_of_two_pow_le hunit (h.lt hfits)
    omega
  have hparts : ofParts negative m e = finite negative m e := by
    unfold ofParts
    rw [if_neg (not_lt.2 hfits.high), if_neg hfits.pos.ne']
  unfold ofRatio
  dsimp only
  by_cases he : max (-1074) (unitExponent n d) = e
  · have hdiv := divideToEven_scaled hd h.low h.high h.odd
    have hne : m ≠ twoTo 53 := hfits.lt.ne
    rw [he, hdiv, if_neg hne, hparts]
  · -- The value is a power of two, and the ratio takes its digits just below it.
    have := hfits.low
    have hm := hfits.full.resolve_right (by omega)
    have hlt : (n / d : ℚ) < 2 ^ (e + 52) := by
      by_contra hge
      have := lt_of_two_pow_le (not_lt.1 hge) hbelow
      omega
    have hscaled : (n / d : ℚ) / 2 ^ e < 2 ^ 52 := by
      rw [div_lt_iff₀ (by positivity), mul_comm]
      exact_mod_cast two_pow_add e 52 ▸ hlt
    have hpower : m = 2 ^ 52 := by
      have hhalf : (m : ℚ) < 2 ^ 52 + 1 := by linarith [h.low]
      have : m < 2 ^ 52 + 1 := by exact_mod_cast hhalf
      omega
    have hnarrow := h.narrow hpower (by omega)
    rw [hpower] at hnarrow
    have hunitLow : (2 : ℚ) ^ (e + 51) ≤ n / d := by
      rw [two_pow_add, mul_comm, ← le_div_iff₀ (by positivity)]
      norm_num at hnarrow ⊢
      linarith
    have hbelow' := lt_of_two_pow_le hunitLow hbelow
    have hunit' := lt_of_two_pow_le hunit hlt
    have hmax : max (-1074) (unitExponent n d) = e - 1 := by omega
    have hhalf : (n / d : ℚ) / 2 ^ (e - 1) = 2 * ((n / d : ℚ) / 2 ^ e) := by
      rw [zpow_sub_one₀ (by norm_num)]
      field_simp
    have hdiv : divideToEven (n * twoTo (-(e - 1))) (d * twoTo (e - 1)) = twoTo 53 := by
      have htwo : (twoTo 53 : ℚ) = 2 ^ 53 := cast_twoTo_natCast 53
      refine divideToEven_scaled hd ?_ ?_ fun hodd => absurd hodd (by decide)
      · rw [hhalf, htwo]
        norm_num at hnarrow ⊢
        linarith
      · rw [hhalf, htwo]
        norm_num at hscaled ⊢
        linarith
    rw [hmax, hdiv, if_pos rfl, sub_add_cancel, show twoTo 52 = m from hpower.symm, hparts]

/-! ## Reading a decimal -/

/-- The digits of a positive number say between which powers of ten it lies. -/
theorem digits_between {n : Nat} (hn : 0 < n) :
    (10 : ℚ) ^ (((Nat.toDigits 10 n).length : Int) - 1) ≤ n ∧
      (n : ℚ) < 10 ^ ((Nat.toDigits 10 n).length : Int) := by
  have hpos : 0 < (Nat.toDigits 10 n).length := Nat.length_toDigits_pos
  have hiff : ∀ k, 0 < k → ((Nat.toDigits 10 n).length ≤ k ↔ n < 10 ^ k) :=
    fun k => Nat.length_toDigits_le_iff (by decide)
  generalize (Nat.toDigits 10 n).length = length at hpos hiff
  obtain ⟨k, rfl⟩ : ∃ k, length = k + 1 := ⟨length - 1, by omega⟩
  have hlow : 10 ^ k ≤ n := by
    cases k with
    | zero => exact hn
    | succ k => exact not_lt.1 (mt (hiff (k + 1) (Nat.succ_pos k)).2 (by omega))
  rw [Nat.cast_add, Nat.cast_one, add_sub_cancel_right, zpow_natCast]
  refine ⟨by exact_mod_cast hlow, ?_⟩
  exact_mod_cast (hiff (k + 1) hpos).1 le_rfl

theorem ten_pow_add (i j : Int) : (10 : ℚ) ^ (i + j) = 10 ^ i * 10 ^ j := zpow_add₀ (by norm_num) i j

theorem two_pow_mul_le {i j : Int} (h : (2 : ℚ) ^ i ≤ 10 ^ j) (k : Nat) :
    (2 : ℚ) ^ (i * k) ≤ 10 ^ (j * k) := by
  rw [zpow_mul, zpow_mul, zpow_natCast, zpow_natCast]
  exact pow_le_pow_left₀ (by positivity) h k

/-- No value is as large as the numbers that are too large to be looked at. -/
theorem two_pow_le_large : (2 : ℚ) ^ (1024 : Int) ≤ 10 ^ (310 : Int) :=
  le_trans (zpow_le_zpow_right₀ (by norm_num) (by norm_num))
    (two_pow_mul_le (i := 205) (j := 62) (by norm_num) 5)

/-- Nothing that rounds to a value other than zero is as small as the numbers that are too small to be
looked at. -/
theorem small_le_two_pow : (10 : ℚ) ^ (-330 : Int) ≤ 2 ^ (-1075 : Int) := by
  have h : (2 : ℚ) ^ (1075 : Int) ≤ 10 ^ (325 : Int) :=
    two_pow_mul_le (i := 43) (j := 13) (by norm_num) 25
  have hten : (10 : ℚ) ^ (325 : Int) ≤ 10 ^ (330 : Int) := zpow_le_zpow_right₀ (by norm_num) (by norm_num)
  rw [zpow_neg, zpow_neg]
  exact inv_anti₀ (by positivity) (h.trans hten)

/-- A decimal is read as the value that it rounds to. -/
theorem ofDecimal_eq {digits : Nat} {exponent : Int} (hfits : Fits m e)
    (h : Rounds (digits * 10 ^ exponent) m e) (negative : Bool) :
    ofDecimal negative digits exponent = finite negative m e := by
  have hx := h.pos hfits
  have hdigits : 0 < digits := by
    have hcast : (0 : ℚ) < digits := (pos_iff_pos_of_mul_pos hx).2 (by positivity)
    exact_mod_cast hcast
  obtain ⟨hlow, hhigh⟩ := digits_between hdigits
  unfold ofDecimal
  dsimp only
  generalize ((Nat.toDigits 10 digits).length : Int) = length at hlow hhigh
  -- The value is neither so small nor so large that the digits are not looked at.
  have hsmall : ¬ length + exponent < -330 := by
    intro hsize
    have hten : (digits * 10 ^ exponent : ℚ) < 10 ^ (-330 : Int) := by
      calc (digits * 10 ^ exponent : ℚ) < 10 ^ length * 10 ^ exponent := by gcongr
        _ = 10 ^ (length + exponent) := (ten_pow_add ..).symm
        _ ≤ 10 ^ (-330 : Int) := zpow_le_zpow_right₀ (by norm_num) hsize.le
    have hm : (1 : ℚ) ≤ m := by exact_mod_cast hfits.pos
    have htwo : (2 : ℚ) ^ (-1075 : Int) ≤ digits * 10 ^ exponent := by
      calc (2 : ℚ) ^ (-1075 : Int) ≤ 2 ^ (-1 + e) :=
            zpow_le_zpow_right₀ (by norm_num) (by linarith [hfits.low])
        _ = 1 / 2 * 2 ^ e := by rw [two_pow_add, zpow_neg_one, one_div]
        _ ≤ digits * 10 ^ exponent := by
          rw [← le_div_iff₀ (by positivity)]
          linarith [h.low]
    exact absurd small_le_two_pow (not_le.2 (lt_of_le_of_lt htwo hten))
  have hlarge : ¬ 310 < length + exponent := by
    intro hsize
    have hten : (10 : ℚ) ^ (310 : Int) ≤ digits * 10 ^ exponent := by
      calc (10 : ℚ) ^ (310 : Int) ≤ 10 ^ (length - 1 + exponent) :=
            zpow_le_zpow_right₀ (by norm_num) (by omega)
        _ = 10 ^ (length - 1) * 10 ^ exponent := ten_pow_add ..
        _ ≤ digits * 10 ^ exponent := by gcongr
    have htwo : (digits * 10 ^ exponent : ℚ) < 2 ^ (1024 : Int) :=
      lt_of_lt_of_le (h.lt hfits) (zpow_le_zpow_right₀ (by norm_num) (by linarith [hfits.high]))
    exact absurd two_pow_le_large (not_le.2 (lt_of_le_of_lt hten htwo))
  have hden : 0 < tenTo (-exponent) := Nat.pow_pos (by decide)
  have hratio : ((digits * tenTo exponent : Nat) / (tenTo (-exponent) : Nat) : ℚ) =
      digits * 10 ^ exponent := by
    rw [Nat.cast_mul, cast_tenTo exponent]
    have := (tenTo_pos (-exponent)).ne'
    field_simp
  rw [if_neg (not_or.2 ⟨hdigits.ne', hsmall⟩), if_neg hlarge]
  exact ofRatio_eq (Nat.mul_pos hdigits (Nat.pow_pos (by decide))) hden hfits (hratio ▸ h) negative

/-! ## What is read is a value -/

theorem divideToEven_cases (n d : Nat) : divideToEven n d = n / d ∨ divideToEven n d = n / d + 1 := by
  unfold divideToEven
  dsimp only
  split
  · exact .inl rfl
  · split
    · exact .inr rfl
    · omega

theorem isValue_ofParts (negative : Bool) (hlt : m < 2 ^ 53) (hlow : -1074 ≤ e)
    (hfull : 2 ^ 52 ≤ m ∨ e = -1074) : (ofParts negative m e).IsValue := by
  unfold ofParts
  split
  · trivial
  · next hhigh =>
      split
      · exact .inl ⟨rfl, rfl⟩
      · next hm => exact .inr ⟨Nat.pos_of_ne_zero hm, hlt, hlow, not_lt.1 hhigh, hfull⟩

theorem isValue_ofRatio {n d : Nat} (hn : 0 < n) (hd : 0 < d) (negative : Bool) :
    (ofRatio negative n d).IsValue := by
  obtain ⟨hunit, hbelow⟩ := unitExponent_spec hn hd
  unfold ofRatio
  dsimp only
  generalize he : max (-1074) (unitExponent n d) = e
  have hscaled := cast_scaled n hd e
  have hpos : 0 < d * twoTo e := Nat.mul_pos hd (Nat.pow_pos (by decide))
  have hcases := divideToEven_cases (n * twoTo (-e)) (d * twoTo e)
  have hb : (0 : ℚ) < (d * twoTo e : Nat) := by exact_mod_cast hpos
  generalize d * twoTo e = b at hscaled hpos hcases hb ⊢
  generalize n * twoTo (-e) = a at hscaled hcases ⊢
  have hlt : a / b < 2 ^ 53 := by
    have hy : (n / d : ℚ) / 2 ^ e < 2 ^ 53 := by
      rw [div_lt_iff₀ (by positivity), mul_comm]
      refine lt_of_lt_of_le hbelow ?_
      rw [two_pow_add]
      gcongr
      · norm_num
      · omega
      · norm_num
    rw [Nat.div_lt_iff_lt_mul hpos]
    have hab : (a : ℚ) < 2 ^ 53 * b := by
      rw [hscaled]
      gcongr
    exact_mod_cast hab
  have hfull : 2 ^ 52 ≤ a / b ∨ e = -1074 := by
    by_cases hleast : e = -1074
    · exact .inr hleast
    · have hy : (2 ^ 52 : ℚ) ≤ (n / d : ℚ) / 2 ^ e := by
        rw [show unitExponent n d = e by omega, two_pow_add] at hunit
        rw [le_div_iff₀ (by positivity), mul_comm]
        exact_mod_cast hunit
      refine .inl ((Nat.le_div_iff_mul_le hpos).2 ?_)
      have hab : (2 ^ 52 * b : ℚ) ≤ a := by
        rw [hscaled]
        gcongr
      exact_mod_cast hab
  split
  · exact isValue_ofParts negative (by decide) (by omega) (.inl (by decide))
  · next hne =>
      have hne' : divideToEven a b ≠ 2 ^ 53 := hne
      exact isValue_ofParts negative (by omega) (by omega) (by omega)

/-- Whatever decimal is read, what comes of it is a value. -/
theorem isValue_ofDecimal (negative : Bool) (digits : Nat) (exponent : Int) :
    (ofDecimal negative digits exponent).IsValue := by
  unfold ofDecimal
  dsimp only
  split
  · exact .inl ⟨rfl, rfl⟩
  · next h =>
      split
      · trivial
      · have hdigits := Nat.pos_of_ne_zero (not_or.1 h).1
        exact isValue_ofRatio (Nat.mul_pos hdigits (Nat.pow_pos (by decide)))
          (Nat.pow_pos (by decide)) negative

/-! ## Comparing -/

section Comparing

variable {a : Nat} {i : Int} {n : Nat} {j : Int}

/-- Both sides are multiplied by what makes them whole. -/
theorem exists_scale (a : Nat) (i : Int) (n : Nat) (j : Int) : ∃ c : ℚ, 0 < c ∧
    ((a * tenTo i * twoTo (-j) : Nat) : ℚ) = a * 10 ^ i * c ∧
    ((n * twoTo j * tenTo (-i) : Nat) : ℚ) = n * 2 ^ j * c := by
  refine ⟨tenTo (-i) * twoTo (-j), mul_pos (tenTo_pos _) (twoTo_pos _), ?_, ?_⟩
  · rw [Nat.cast_mul, Nat.cast_mul, cast_tenTo i]
    ring
  · rw [Nat.cast_mul, Nat.cast_mul, cast_twoTo j]
    ring

theorem compareScaled_eq_lt : compareScaled a i n j = .lt ↔ (a * 10 ^ i : ℚ) < n * 2 ^ j := by
  obtain ⟨c, hc, ha, hn⟩ := exists_scale a i n j
  rw [compareScaled, Nat.compare_eq_lt, ← mul_lt_mul_iff_left₀ hc, ← ha, ← hn, Nat.cast_lt]

theorem compareScaled_eq_gt : compareScaled a i n j = .gt ↔ (n * 2 ^ j : ℚ) < a * 10 ^ i := by
  obtain ⟨c, hc, ha, hn⟩ := exists_scale a i n j
  rw [compareScaled, Nat.compare_eq_gt, ← mul_lt_mul_iff_left₀ hc, ← ha, ← hn, Nat.cast_lt]

theorem compareScaled_eq_eq : compareScaled a i n j = .eq ↔ (a * 10 ^ i : ℚ) = n * 2 ^ j := by
  obtain ⟨c, hc, ha, hn⟩ := exists_scale a i n j
  rw [compareScaled, Nat.compare_eq_eq, ← mul_left_inj' hc.ne', ← ha, ← hn, Nat.cast_inj]

end Comparing

/-! ## Testing digits -/

/-- Digits that pass the test are read as the value. -/
theorem rounds_of_readsBack (hm : 0 < m) {digits : Nat} {scale : Int}
    (h : readsBack m e digits scale = true) : Rounds (digits * 10 ^ scale) m e := by
  have hpos : (0 : ℚ) < 2 ^ e := by positivity
  have hquarter : (2 : ℚ) ^ (e - 2) = 2 ^ e / 4 := by
    rw [zpow_sub₀ (by norm_num)]
    norm_num
  unfold readsBack at h
  dsimp only at h
  simp only [Bool.and_eq_true, Bool.or_eq_true, beq_iff_eq, decide_eq_true_eq, compareScaled_eq_lt,
    compareScaled_eq_gt, compareScaled_eq_eq, hquarter] at h
  generalize (digits * 10 ^ scale : ℚ) = x at h ⊢
  have hlt : ∀ c : ℚ, c * (2 ^ e / 4) < x ↔ c / 4 < x / 2 ^ e := fun c => by
    rw [lt_div_iff₀ hpos, div_mul_eq_mul_div, mul_div_assoc]
  have hgt : ∀ c : ℚ, x < c * (2 ^ e / 4) ↔ x / 2 ^ e < c / 4 := fun c => by
    rw [div_lt_iff₀ hpos, div_mul_eq_mul_div, mul_div_assoc]
  have heq : ∀ c : ℚ, x = c * (2 ^ e / 4) ↔ x / 2 ^ e = c / 4 := fun c => by
    rw [div_eq_iff hpos.ne', div_mul_eq_mul_div, mul_div_assoc]
  simp only [hlt, hgt, heq, Nat.cast_add, Nat.cast_mul, Nat.cast_ofNat] at h
  obtain ⟨hlow, hhigh⟩ := h
  have hnarrow : m = 2 ^ 52 → -1074 < e → (m : ℚ) - 1 / 4 ≤ x / 2 ^ e := by
    intro hpower he
    rw [if_pos ⟨hpower, he⟩, Nat.cast_sub (by omega)] at hlow
    push_cast at hlow
    rcases hlow with hlow | ⟨-, hlow⟩ <;> linarith
  have hwide : ∀ c : ℚ, ((if m = twoTo 52 ∧ -1074 < e then 4 * m - 1 else 4 * m - 2 : Nat) : ℚ) = c →
      4 * m - 2 ≤ c := by
    rintro c rfl
    split
    · rw [Nat.cast_sub (by omega)]
      push_cast
      linarith
    · rw [Nat.cast_sub (by omega)]
      push_cast
      rfl
  have hlower := hwide _ rfl
  constructor
  · rcases hlow with hlow | ⟨-, hlow⟩ <;> linarith
  · exact hnarrow
  · rcases hhigh with hhigh | ⟨-, hhigh⟩ <;> linarith
  · intro hodd
    have hstrict : ∀ p : Prop, ¬ (m % 2 = 0 ∧ p) := fun p h => by omega
    have hlow := hlow.resolve_right (hstrict _)
    have hhigh := hhigh.resolve_right (hstrict _)
    exact ⟨by linarith, by linarith⟩

/-! ## The fewest digits -/

theorem readsBack_of_onGrid {scale : Int} {digits : Nat} (h : onGrid m e scale = some digits) :
    readsBack m e digits scale = true := by
  unfold onGrid at h
  dsimp only at h
  split at h
  · cases h
  · next hbelow _ =>
      cases h
      exact hbelow
  · next _ habove =>
      cases h
      exact habove
  · next hbelow habove =>
      split at h
      · cases h
        exact hbelow
      · cases h
        exact habove
      · generalize hn : m * twoTo e * tenTo (-scale) / (twoTo (-e) * tenTo scale) = below at *
        cases h
        rcases Nat.mod_two_eq_zero_or_one below with heven | hodd
        · rwa [heven]
        · rwa [hodd]

/-- A power of two is a power of ten and one of five. -/
theorem exact_value (m : Nat) (e : Int) :
    ((m * twoTo e * Nat.pow 5 (-e).toNat : Nat) : ℚ) * 10 ^ min e 0 = m * 2 ^ e := by
  obtain ⟨n, rfl | rfl⟩ := e.eq_nat_or_neg
  · simp [twoTo]
  · have hmin : min (-(n : Int)) 0 = -n := by omega
    have hten : (10 : ℚ) ^ n = 5 ^ n * 2 ^ n := by
      rw [← mul_pow]
      norm_num
    rw [hmin, zpow_neg, zpow_neg, zpow_natCast, zpow_natCast, hten]
    simp only [twoTo, Int.toNat_neg_natCast, neg_neg, Int.toNat_natCast, Nat.pow_eq, pow_zero, mul_one,
      Nat.cast_mul, Nat.cast_pow, Nat.cast_ofNat]
    field_simp

/-- The digits that are found are read as the value. -/
theorem rounds_shortest (hm : 0 < m) (e : Int) :
    Rounds ((shortest m e).1 * 10 ^ (shortest m e).2) m e := by
  unfold shortest
  dsimp only
  generalize magnitude m e 4 ((((m.log2 : Int) + e) * 30103) / 100000 - 1) = k
  cases hfound : (List.range 17).findSome? fun (n : Nat) =>
      (onGrid m e (k - (n + 1))).map fun digits => (digits, k - (n + 1)) with
  | none =>
      rw [Option.getD_none, exact_value]
      exact rounds_self m e
  | some found =>
      obtain ⟨n, -, hn⟩ := List.exists_of_findSome?_eq_some hfound
      obtain ⟨digits, hdigits, rfl⟩ := Option.map_eq_some_iff.1 hn
      exact rounds_of_readsBack hm (readsBack_of_onGrid hdigits)

end EmbeddedSql.Binary64
