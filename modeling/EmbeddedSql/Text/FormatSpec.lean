/-
# Format specifications

A field of a template may say how its text is laid out:

    [[fill]align][sign][z][#][0][width][,][_][.precision][type]

A text is cut to its precision and filled up to its width.  Signs, separators and the other marks are
for numbers: they are read, and refused.  A specification is read to its end before any of it is
refused, apart from separators that exclude each other and numbers that do not fit in 64 bits.
-/
import EmbeddedSql.Text.Digit

namespace EmbeddedSql

/-- What is wrong with a format specification of a text. -/
inductive FormatError where
  | hugeNumber
  | bothSeparators
  | separatorWith (separator type : Char)
  | noPrecision
  | invalid (spec : String)
  | unknownType (type : Char)
  | space
  | sign
  | zeroCoercion
  | alternateForm
  | padding
deriving DecidableEq, Repr

namespace FormatError

/-- A type as messages show it: as it is, or by number. -/
def showType (c : Char) : String :=
  if 32 < c.toNat && c.toNat < 128 then c.toString
  else "\\x" ++ String.ofList (Nat.toDigits 16 c.toNat)

def message : FormatError → String
  | hugeNumber => "Too many decimal digits in format string"
  | bothSeparators => "Cannot specify both ',' and '_'."
  | separatorWith separator type =>
    "Cannot specify '" ++ separator.toString ++ "' with '" ++ showType type ++ "'."
  | noPrecision => "Format specifier missing precision"
  | invalid spec => "Invalid format specifier '" ++ spec ++ "' for object of type 'str'"
  | unknownType type => "Unknown format code '" ++ showType type ++ "' for object of type 'str'"
  | space => "Space not allowed in string format specifier"
  | sign => "Sign not allowed in string format specifier"
  | zeroCoercion => "Negative zero coercion (z) not allowed in string format specifier"
  | alternateForm => "Alternate form (#) not allowed in string format specifier"
  | padding => "'=' alignment not allowed in string format specifier"

end FormatError

/-! ## Numbers -/

/-- The number that decimal digits write.  Every script has its own ten. -/
def decimalNumber (digits : List Char) : Nat :=
  digits.foldl (fun n c => 10 * n + (decimalValue? c).getD 0) 0

/-- The number that the decimal digits in front of a text write, if it is one of 64 bits. -/
def leadingNumber? (cs : List Char) : Option Nat :=
  let n := decimalNumber (cs.takeWhile isDecimalDigit)
  if n < 9223372036854775808 then some n else none

/-! ## Reading a specification -/

/-- Where the filling goes. -/
inductive Alignment where
  | left
  | right
  | center
  | afterSign
deriving DecidableEq, Repr

def Alignment.ofChar? : Char → Option Alignment
  | '<' => some .left
  | '>' => some .right
  | '^' => some .center
  | '=' => some .afterSign
  | _ => none

structure FormatSpec where
  fill : Char
  align : Alignment
  sign : Option Char
  zeroCoercion : Bool
  alternateForm : Bool
  width : Option Nat
  precision : Option Nat
  type : Char
deriving DecidableEq, Repr

namespace FormatSpec

/-- Read the first character if it is one of these. -/
def mark? (marks : List Char) : List Char → Option Char × List Char
  | [] => (none, [])
  | c :: cs => if marks.contains c then (some c, cs) else (none, c :: cs)

/-- Read an alignment.  A character in front of one is the filling, whatever it is. -/
def alignment? (cs : List Char) : Option Char × Option Alignment × List Char :=
  match cs.tail.head?.bind Alignment.ofChar?, cs.head?.bind Alignment.ofChar? with
  | some align, _ => (cs.head?, some align, cs.drop 2)
  | none, some align => (none, some align, cs.drop 1)
  | none, none => (none, none, cs)

/-- Read a number, if there is one. -/
def number? (cs : List Char) : Except FormatError (Option Nat × List Char) :=
  let digits := cs.takeWhile isDecimalDigit
  match leadingNumber? cs with
  | none => .error .hugeNumber
  | some n => .ok (if digits.isEmpty then none else some n, cs.drop digits.length)

/-- Read the separators of thousands. -/
def separator? (cs : List Char) : Except FormatError (Option Char × List Char) :=
  let (comma, cs) := mark? [','] cs
  let (underscore, cs) := mark? ['_'] cs
  if underscore.isSome && (comma.isSome || cs.head? == some ',') then .error .bothSeparators
  else .ok (comma <|> underscore, cs)

/-- Read a precision: a dot needs a number. -/
def precision? : List Char → Except FormatError (Option Nat × List Char)
  | '.' :: cs => do
    let (precision, cs) ← number? cs
    if precision.isNone then .error .noPrecision else .ok (precision, cs)
  | cs => .ok (none, cs)

/-- The types of numbers that are written with a separator. -/
def separates (separator type : Char) : Bool :=
  "defgEG%F\x00".toList.contains type || separator == '_' && "boxX".toList.contains type

/-- Read a specification. -/
def parse (spec : List Char) : Except FormatError FormatSpec := do
  let (fill, align, cs) := alignment? spec
  let (sign, cs) := mark? [' ', '+', '-'] cs
  let (zeroCoercion, cs) := mark? ['z'] cs
  let (alternateForm, cs) := mark? ['#'] cs
  let (zero, cs) := if fill.isNone then mark? ['0'] cs else (none, cs)
  let (width, cs) ← number? cs
  let (separator, cs) ← separator? cs
  let (precision, cs) ← precision? cs
  if 1 < cs.length then .error (.invalid (String.ofList spec))
  let type := cs.headD 's'
  if let some separator := separator then
    if !separates separator type then .error (.separatorWith separator type)
  return {
    fill := (fill <|> zero).getD ' '
    align := align.getD .left
    sign, zeroCoercion := zeroCoercion.isSome, alternateForm := alternateForm.isSome
    width, precision, type }

/-- What a text cannot be asked for. -/
def refusal? (spec : FormatSpec) : Option FormatError :=
  if spec.type != 's' then some (.unknownType spec.type)
  else if spec.sign == some ' ' then some .space
  else if spec.sign.isSome then some .sign
  else if spec.zeroCoercion then some .zeroCoercion
  else if spec.alternateForm then some .alternateForm
  else if spec.align == .afterSign then some .padding
  else none

/-- Lay a text out: cut it to the precision, then fill it up to the width. -/
def layOut (spec : FormatSpec) (value : List Char) : List Char :=
  let shown := match spec.precision with
    | none => value
    | some n => value.take n
  let missing := spec.width.getD 0 - shown.length
  let left := match spec.align with
    | .right => missing
    | .center => missing / 2
    | .left | .afterSign => 0
  List.replicate left spec.fill ++ shown ++ List.replicate (missing - left) spec.fill

end FormatSpec

/-- A text under a format specification. -/
def formatText (spec value : List Char) : Except FormatError (List Char) := do
  let spec ← FormatSpec.parse spec
  match spec.refusal? with
  | some e => .error e
  | none => .ok (spec.layOut value)

/-- Without a specification a text is shown as it is. -/
@[simp] theorem formatText_nil (value : List Char) : formatText [] value = .ok value := by
  simp [formatText, FormatSpec.parse, FormatSpec.alignment?, FormatSpec.mark?, FormatSpec.number?,
    leadingNumber?, decimalNumber, FormatSpec.separator?, FormatSpec.precision?, FormatSpec.refusal?,
    FormatSpec.layOut, bind, Except.bind, pure, Except.pure]

end EmbeddedSql
