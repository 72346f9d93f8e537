/-
# Reading JSON

The reader works on what remains of the text.  A failure carries its cause and how many characters
remained where it arose, from which the place in the text is computed at the end: an offset, and a
line and column.  The grammar is the usual one, with three more words for the numbers that have no
decimal form; control characters are refused inside strings; an escape of half a surrogate pair is
kept as it stands, and two halves in a row are joined.
-/
import EmbeddedSql.Json.Basic

namespace EmbeddedSql.Json

/-- What is wrong with a text. -/
inductive Problem where
  | expectingValue
  | expectingName
  | expectingColon
  | expectingComma
  | extraData
  | unterminatedString
  | controlCharacter
  | badEscape
  | badUnitEscape
  | byteOrderMark
deriving DecidableEq, Repr

def Problem.message : Problem → String
  | expectingValue => "Expecting value"
  | expectingName => "Expecting property name enclosed in double quotes"
  | expectingColon => "Expecting ':' delimiter"
  | expectingComma => "Expecting ',' delimiter"
  | extraData => "Extra data"
  | unterminatedString => "Unterminated string starting at"
  | controlCharacter => "Invalid control character at"
  | badEscape => "Invalid \\escape"
  | badUnitEscape => "Invalid \\uXXXX escape"
  | byteOrderMark => "Unexpected UTF-8 BOM (decode using utf-8-sig)"

/-- A failure while reading: a problem where `remaining` characters are left, or an integer with
more digits than the reader takes. -/
inductive Failure where
  | at (problem : Problem) (remaining : Nat)
  | tooManyDigits (count : Nat)
deriving DecidableEq, Repr

/-- What was read, and the rest of the text. -/
abbrev Reading (α : Type) := Except Failure (α × List Char)

def fail {α : Type} (problem : Problem) (rest : List Char) : Reading α :=
  .error (.at problem rest.length)

def isSpace (c : Char) : Bool := c == ' ' || c == '\t' || c == '\n' || c == '\r'

def skipSpace (cs : List Char) : List Char := cs.dropWhile isSpace

/-! ## Strings -/

def hexValue? (c : Char) : Option Nat :=
  if '0' ≤ c ∧ c ≤ '9' then some (c.toNat - '0'.toNat)
  else if 'a' ≤ c ∧ c ≤ 'f' then some (c.toNat - 'a'.toNat + 10)
  else if 'A' ≤ c ∧ c ≤ 'F' then some (c.toNat - 'A'.toNat + 10)
  else none

/-- The number written by hexadecimal digits. -/
def hexNumber? (cs : List Char) : Option Nat :=
  cs.foldl (fun acc c => acc.bind fun n => (hexValue? c).map (16 * n + ·)) (some 0)

/-- The unit after `\u`: four digits, and at least one more character has to follow them. -/
def unit? (cs : List Char) : Option Nat :=
  if cs.length < 5 then none else hexNumber? (cs.take 4)

def simpleEscape? : Char → Option Char
  | '"' => some '"'
  | '\\' => some '\\'
  | '/' => some '/'
  | 'b' => some '\x08'
  | 'f' => some '\x0c'
  | 'n' => some '\n'
  | 'r' => some '\r'
  | 't' => some '\t'
  | _ => none

/-- The code point of an escape whose backslash stands before `cs`, and how many characters of `cs`
belong to it.  A leading half of a pair is joined with a trailing half that follows at once. -/
def readEscape (opening : Nat) (cs : List Char) : Except Failure (CodePoint × Nat) :=
  match cs with
  | [] => .error (.at .unterminatedString opening)
  | 'u' :: rest =>
    match unit? rest with
    | none => .error (.at .badUnitEscape cs.length)
    | some n =>
      match CodePoint.ofNat n, rest.drop 4 with
      | p, '\\' :: 'u' :: more =>
        if p.isHighSurrogate ∧ 4 < more.length then
          match hexNumber? (more.take 4) with
          | none => .error (.at .badUnitEscape (more.length + 1))
          | some m =>
            if 0xDC00 ≤ m ∧ m < 0xE000 then
              .ok (.ofNat (0x10000 + (n - 0xD800) * 1024 + (m - 0xDC00)), 11)
            else .ok (p, 5)
        else .ok (p, 5)
      | p, _ => .ok (p, 5)
  | c :: _ =>
    match simpleEscape? c with
    | some d => .ok (.char d, 1)
    | none => .error (.at .badEscape (cs.length + 1))

/-- The text of a string up to its closing quote.  `opening` characters remained at the opening
quote, which is where a missing end is reported. -/
def readString (opening : Nat) : List Char → Reading Text
  | [] => .error (.at .unterminatedString opening)
  | c :: rest =>
    if c == '"' then .ok ([], rest)
    else if c == '\\' then
      match readEscape opening rest with
      | .error e => .error e
      | .ok (p, size) =>
        match readString opening (rest.drop size) with
        | .error e => .error e
        | .ok (t, after) => .ok (p :: t, after)
    else if c.toNat ≤ 0x1F then fail .controlCharacter (c :: rest)
    else
      match readString opening rest with
      | .error e => .error e
      | .ok (t, after) => .ok (.char c :: t, after)
termination_by cs => cs.length
decreasing_by all_goals simp only [List.length_drop, List.length_cons]; omega

/-! ## Numbers -/

def isDecimal (c : Char) : Bool := '0' ≤ c && c ≤ '9'

def decimalNumber (digits : List Char) : Nat :=
  digits.foldl (fun n c => 10 * n + (c.toNat - '0'.toNat)) 0

/-- The most digits an integer may have. -/
def maxIntegerDigits : Nat := 4300

/-- The digits after a point, if at least one follows it. -/
def readFraction : List Char → List Char × List Char
  | '.' :: rest =>
    let digits := rest.takeWhile isDecimal
    if digits.isEmpty then ([], '.' :: rest) else (digits, rest.drop digits.length)
  | cs => ([], cs)

/-- A signed exponent after `e`, if at least one digit follows. -/
def readExponent (cs : List Char) : Option Int × List Char :=
  match cs with
  | [] => (none, cs)
  | e :: rest =>
    if e == 'e' || e == 'E' then
      let (negative, unsigned) := match rest with
        | '-' :: more => (true, more)
        | '+' :: more => (false, more)
        | more => (false, more)
      let digits := unsigned.takeWhile isDecimal
      if digits.isEmpty then (none, cs)
      else
        let n := decimalNumber digits
        (some (if negative then -n else n), unsigned.drop digits.length)
    else (none, cs)

/-- Is there a minus sign, and what comes after it? -/
def readSign : List Char → Bool × List Char
  | '-' :: rest => (true, rest)
  | rest => (false, rest)

/-- The digits before the point: a zero alone, or all digits in a row. -/
def readWhole : List Char → List Char
  | '0' :: _ => ['0']
  | rest => rest.takeWhile isDecimal

/-- A number.  The whole part is a zero or starts with another digit; without fraction and exponent
the number is an integer. -/
def readNumber (cs : List Char) : Reading Json :=
  let (negative, unsigned) := readSign cs
  let whole := readWhole unsigned
  if whole.isEmpty then fail .expectingValue cs
  else
    let (fraction, rest) := readFraction (unsigned.drop whole.length)
    match fraction.isEmpty, readExponent rest with
    | true, (none, rest) =>
      if maxIntegerDigits < whole.length then .error (.tooManyDigits whole.length)
      else
        let n : Int := decimalNumber whole
        .ok (.int (if negative then -n else n), rest)
    | _, (exponent, rest) =>
      let digits := decimalNumber (whole ++ fraction)
      .ok (.float (.ofDecimal negative digits (exponent.getD 0 - fraction.length)), rest)

/-! ## Values -/

/-- The words that stand for values. -/
def words : List (List Char × Json) :=
  [("null".toList, .null), ("true".toList, .bool true), ("false".toList, .bool false),
    ("NaN".toList, .float .nan), ("Infinity".toList, .float (.infinite false)),
    ("-Infinity".toList, .float (.infinite true))]

mutual
/-- The value at the front of `cs`.  Each level of nesting and each item takes one of `fuel`, and
each of them takes a character, so twice the length is enough. -/
def readValue (fuel : Nat) (cs : List Char) : Reading Json :=
  match fuel, cs with
  | _ + 1, '"' :: rest =>
    match readString cs.length rest with
    | .error e => .error e
    | .ok (t, after) => .ok (.str t, after)
  | fuel + 1, '[' :: rest =>
    match skipSpace rest with
    | ']' :: after => .ok (.arr [], after)
    | inside =>
      match readItems fuel inside with
      | .error e => .error e
      | .ok (items, after) => .ok (.arr items, after)
  | fuel + 1, '\x7b' :: rest =>
    match skipSpace rest with
    | '\x7d' :: after => .ok (.obj [], after)
    | inside =>
      match readMembers fuel [] inside with
      | .error e => .error e
      | .ok (members, after) => .ok (.obj members, after)
  | _ + 1, cs =>
    match words.find? fun (word, _) => word.isPrefixOf cs with
    | some (word, value) => .ok (value, cs.drop word.length)
    | none => readNumber cs
  | 0, cs => fail .expectingValue cs

/-- The items of an array up to its closing bracket, at least one. -/
def readItems (fuel : Nat) (cs : List Char) : Reading (List Json) :=
  match fuel with
  | 0 => fail .expectingValue cs
  | fuel + 1 =>
    match readValue fuel cs with
    | .error e => .error e
    | .ok (item, rest) =>
      match skipSpace rest with
      | ']' :: after => .ok ([item], after)
      | ',' :: more =>
        match readItems fuel (skipSpace more) with
        | .error e => .error e
        | .ok (items, after) => .ok (item :: items, after)
      | other => fail .expectingComma other

/-- The members of an object up to its closing brace, at least one, put after `before`. -/
def readMembers (fuel : Nat) (before : List (Text × Json)) (cs : List Char) :
    Reading (List (Text × Json)) :=
  match fuel with
  | 0 => fail .expectingValue cs
  | fuel + 1 =>
    match cs with
    | '"' :: rest =>
      match readString cs.length rest with
      | .error e => .error e
      | .ok (key, rest) =>
        match skipSpace rest with
        | ':' :: rest =>
          match readValue fuel (skipSpace rest) with
          | .error e => .error e
          | .ok (value, rest) =>
            let members := putMember key value before
            match skipSpace rest with
            | '\x7d' :: after => .ok (members, after)
            | ',' :: more => readMembers fuel members (skipSpace more)
            | other => fail .expectingComma other
        | other => fail .expectingColon other
    | other => fail .expectingName other
end

/-- A whole text: one value, with nothing but space around it. -/
def read (cs : List Char) : Except Failure Json :=
  match cs with
  | '\uFEFF' :: _ => .error (.at .byteOrderMark cs.length)
  | _ =>
    match readValue (2 * cs.length + 2) (skipSpace cs) with
    | .error e => .error e
    | .ok (value, rest) =>
      match skipSpace rest with
      | [] => .ok value
      | more => .error (.at .extraData more.length)

/-- The text of a failure while reading `cs`: the problem and where it is, lines and columns counted
from one. -/
def Failure.message (cs : List Char) : Failure → String
  | .at problem remaining =>
    let offset := cs.length - remaining
    let before := cs.take offset
    let line := before.count '\n' + 1
    let column := (before.reverse.takeWhile (· != '\n')).length + 1
    problem.message ++ ": line " ++ toString line ++ " column " ++ toString column
      ++ " (char " ++ toString offset ++ ")"
  | .tooManyDigits count =>
    "Exceeds the limit (" ++ toString maxIntegerDigits
      ++ " digits) for integer string conversion: value has " ++ toString count
      ++ " digits; use sys.set_int_max_str_digits() to increase the limit"

end EmbeddedSql.Json
