/-
# Binary floating point numbers and their decimal form

A value is kept exactly, as `significand · 2 ^ exponent`.  Reading a decimal takes the nearest value
(a tie goes to the even significand); writing takes the fewest digits that read back, the nearest of
those where several do.  Everything is computed on natural numbers, so no rounding is hidden.
-/
namespace EmbeddedSql

/-- A binary64 value. -/
inductive Binary64 where
  | finite (negative : Bool) (significand : Nat) (exponent : Int)
  | infinite (negative : Bool)
  | nan
deriving DecidableEq, Repr

namespace Binary64

/-- A power of two; one where the exponent is negative. -/
def twoTo (i : Int) : Nat := Nat.pow 2 i.toNat

/-- A power of ten; one where the exponent is negative. -/
def tenTo (i : Int) : Nat := Nat.pow 10 i.toNat

/-- `a · 10 ^ i` compared with `n · 2 ^ j`. -/
def compareScaled (a : Nat) (i : Int) (n : Nat) (j : Int) : Ordering :=
  compare (a * tenTo i * twoTo (-j)) (n * twoTo j * tenTo (-i))

/-- `n / d` to the nearest natural number; a half goes to the even neighbour. -/
def divideToEven (n d : Nat) : Nat :=
  let q := n / d
  let twice := 2 * (n % d)
  if twice < d then q else if d < twice then q + 1 else q + q % 2

/-- The exponent of the unit in which the positive `n / d` takes 53 binary digits. -/
def unitExponent (n d : Nat) : Int :=
  let guess : Int := (n.log2 : Int) - d.log2 - 52
  if n * twoTo (-guess) / (d * twoTo guess) < twoTo 52 then guess - 1 else guess

/-- The value `m · 2 ^ e`, where zero has only one form and no exponent is too large. -/
def ofParts (negative : Bool) (m : Nat) (e : Int) : Binary64 :=
  if 971 < e then infinite negative
  else if m = 0 then finite negative 0 0
  else finite negative m e

/-- The value nearest to `n / d`, for positive `n` and `d`. -/
def ofRatio (negative : Bool) (n d : Nat) : Binary64 :=
  let e := max (-1074) (unitExponent n d)
  let m := divideToEven (n * twoTo (-e)) (d * twoTo e)
  if m = twoTo 53 then ofParts negative (twoTo 52) (e + 1) else ofParts negative m e

/-- The value nearest to `digits · 10 ^ exponent`.  Decimals far outside the range are answered
without computing their power of ten. -/
def ofDecimal (negative : Bool) (digits : Nat) (exponent : Int) : Binary64 :=
  let size := ((Nat.toDigits 10 digits).length : Int) + exponent
  if digits = 0 ∨ size < -330 then finite negative 0 0
  else if 310 < size then infinite negative
  else ofRatio negative (digits * tenTo exponent) (tenTo (-exponent))

/-- Does `digits · 10 ^ scale` read back as `m · 2 ^ e`?  The decimals that do form an interval from
halfway to the value below to halfway to the value above, with its ends if `m` is even.  Below a
power of two the gap is half as wide. -/
def readsBack (m : Nat) (e : Int) (digits : Nat) (scale : Int) : Bool :=
  let narrow := m = twoTo 52 && -1074 < e
  let low := if narrow then 4 * m - 1 else 4 * m - 2
  let ends := m % 2 = 0
  let atLow := compareScaled digits scale low (e - 2)
  let atHigh := compareScaled digits scale (4 * m + 2) (e - 2)
  (atLow == .gt || (ends && atLow == .eq)) && (atHigh == .lt || (ends && atHigh == .eq))

/-- The least `k` with `m · 2 ^ e < 10 ^ k`, found upwards from a lower estimate. -/
def magnitude (m : Nat) (e : Int) : Nat → Int → Int
  | 0, k => k
  | tries + 1, k => if compareScaled 1 k m e == .gt then k else magnitude m e tries (k + 1)

/-- On the grid of step `10 ^ scale`, the neighbour of `m · 2 ^ e` that reads back, the nearer one
if both do, the even one if they are equally near. -/
def onGrid (m : Nat) (e scale : Int) : Option Nat :=
  let below := (m * twoTo e * tenTo (-scale)) / (twoTo (-e) * tenTo scale)
  match readsBack m e below scale, readsBack m e (below + 1) scale with
  | false, false => none
  | true, false => some below
  | false, true => some (below + 1)
  | true, true =>
    match compareScaled (2 * below + 1) scale (2 * m) e with
    | .gt => some below
    | .lt => some (below + 1)
    | .eq => some (below + below % 2)

/-- The fewest digits that read back as the positive value `m · 2 ^ e`, and their scale.  Seventeen
digits always do; the exact value stands at the end so that the search has an answer by itself. -/
def shortest (m : Nat) (e : Int) : Nat × Int :=
  let k := magnitude m e 4 ((((m.log2 : Int) + e) * 30103) / 100000 - 1)
  let found := (List.range 17).findSome? fun (n : Nat) =>
    (onGrid m e (k - (n + 1))).map (·, k - (n + 1))
  found.getD (m * twoTo e * Nat.pow 5 (-e).toNat, min e 0)

/-- Move final zeros of the digits into the scale. -/
def stripZeros (digits : List Char) (scale : Int) : List Char × Int :=
  let kept := (digits.reverse.dropWhile (· == '0')).reverse
  (kept, scale + (digits.length - kept.length : Nat))

/-- Digits with a point after the first `point` of them: positional with at least one digit on both
sides while the point stays within sixteen digits of the front and three zeros suffice before it,
and otherwise one digit before the point and a signed exponent of at least two digits. -/
def layout (digits : List Char) (point : Int) : List Char :=
  if point ≤ -4 ∨ 16 < point then
    let exponent := point - 1
    let size := Nat.toDigits 10 exponent.natAbs
    let mantissa := match digits with
      | first :: second :: rest => first :: '.' :: second :: rest
      | short => short
    mantissa ++ 'e' :: (if exponent < 0 then '-' else '+')
      :: (if size.length < 2 then '0' :: size else size)
  else if point ≤ 0 then '0' :: '.' :: List.replicate (-point).toNat '0' ++ digits
  else
    let whole := digits.take point.toNat
    let rest := digits.drop point.toNat
    whole ++ List.replicate (point.toNat - whole.length) '0' ++ '.' ::
      (if rest.isEmpty then ['0'] else rest)

/-- The decimal form of a value; the values that have none are spelled out. -/
def render : Binary64 → List Char
  | nan => "NaN".toList
  | infinite negative => (if negative then "-Infinity" else "Infinity").toList
  | finite negative m e =>
    let sign := if negative then ['-'] else []
    if m = 0 then sign ++ "0.0".toList
    else
      let (digits, scale) := shortest m e
      let (kept, scale) := stripZeros (Nat.toDigits 10 digits) scale
      sign ++ layout kept (kept.length + scale)

end Binary64

end EmbeddedSql
