/-
# Written integers

An integer is written with an optional sign and decimal digits, and blanks may stand around the whole.
Single underscores may stand between digits.  Zeros at the front say nothing, nor do underscores among
them, so that a minus sign may follow them, and nor does a fraction that is all zeros.  A number is
cleaned of all these before it is read, and only then are its digits counted.
-/
import EmbeddedSql.Text.Blank

namespace EmbeddedSql

/-! ## Cleaning -/

/-- May a number begin with a character? -/
def beginsNumber (c : Char) : Bool := c.isDigit || c == '-'

/-- A number without the zeros at its front and the underscores among them.  Where nothing follows them
with which a number may begin, the last of them stays. -/
def withoutLeadingZeros? (number : List Char) : Option (List Char) :=
  let isFiller (c : Char) : Bool := c == '0' || c == '_'
  if number.head? = some '0' then
    let rest := number.dropWhile isFiller
    if rest.head?.any beginsNumber then some rest
    else some ((number.takeWhile isFiller).getLast?.toList ++ rest)
  else if number.head?.any beginsNumber then some number
  else none

/-- A number without its fraction, if that is all zeros. -/
def withoutFraction (number : List Char) : List Char :=
  match number.dropWhile (· != '.') with
  | '.' :: '0' :: more => if more.all (· == '0') then number.takeWhile (· != '.') else number
  | _ => number

/-- Are there two underscores in a row? -/
def hasDoubleUnderscore : List Char → Bool
  | '_' :: '_' :: _ => true
  | _ :: rest => hasDoubleUnderscore rest
  | [] => false

/-- A number without its underscores, which have to stand inside it and alone. -/
def withoutUnderscores? (number : List Char) : Option (List Char) :=
  if number.head? = some '_' || number.getLast? = some '_' || hasDoubleUnderscore number then none
  else some (number.filter (· != '_'))

/-- A number with nothing left but a minus sign and its digits, if it is one. -/
def cleaned? (number : List Char) : Option (List Char) := do
  let bare ← match number with
    | '+' :: '-' :: _ => none
    | '+' :: rest => withoutLeadingZeros? rest
    | '-' :: rest => (withoutLeadingZeros? rest).map ('-' :: ·)
    | rest => withoutLeadingZeros? rest
  withoutUnderscores? (withoutFraction bare)

/-! ## Reading -/

/-- The most digits that are read. -/
def maxDigits : Nat := 4300

/-- The natural number that digits write, with no zero at the front of others. -/
def readDigits (digits : List Char) : Option Nat :=
  let isPlain := digits.all Char.isDigit && (digits.head? ≠ some '0' || digits = ['0'])
  if digits ≠ [] && digits.length ≤ maxDigits && isPlain then
    some (digits.foldl (fun n c => 10 * n + (c.toNat - '0'.toNat)) 0)
  else none

/-- The blanks that may stand around a number: all but the information separators. -/
def isOuterBlank (c : Char) : Bool := isBlank c && !(0x1C ≤ c.toNat && c.toNat ≤ 0x1F)

/-- The integer that a text writes. -/
def readInteger (text : String) : Option Int := do
  match ← cleaned? (trim isOuterBlank text.toList) with
  | '-' :: digits => (readDigits digits).map fun n => -(n : Int)
  | digits => (readDigits digits).map Int.ofNat

end EmbeddedSql
