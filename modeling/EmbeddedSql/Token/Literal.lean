/-
# What a literal denotes

The text between the quotes of a literal, with its escapes replaced.  A text block is first freed of
its opening line and of the margin its lines share.

An escape is a backslash and what follows it: `u`s and four hexadecimal digits for a code point (a
half of a surrogate pair stays a half), up to three octal digits below 256, a line break for nothing,
a letter with a meaning of its own, and any other character for itself.  Two kinds of escape denote
nothing and make decoding fail: a `u` without its digits, and a digit that is not octal.
-/
import EmbeddedSql.Text.Blank
import EmbeddedSql.Text.Digit
import EmbeddedSql.Token.Basic

namespace EmbeddedSql

/-- Escapes that denote nothing. -/
inductive LiteralError where
  | missingHexDigits
  | notOctal (digit : Char)
deriving DecidableEq, Repr

def LiteralError.message : LiteralError → String
  | missingHexDigits => "invalid literal for int() with base 16: ''"
  | notOctal digit => "invalid literal for int() with base 8: '" ++ digit.toString ++ "'"

namespace Literal

/-! ## Escapes -/

def hexDigit? (c : Char) : Option Nat :=
  if '0' ≤ c ∧ c ≤ '9' then some (c.toNat - '0'.toNat)
  else if 'a' ≤ c ∧ c ≤ 'f' then some (c.toNat - 'a'.toNat + 10)
  else if 'A' ≤ c ∧ c ≤ 'F' then some (c.toNat - 'A'.toNat + 10)
  else none

/-- The number of four hexadecimal digits at the front. -/
def fourHexDigits? : List Char → Option Nat
  | a :: b :: c :: d :: _ => do
    return 4096 * (← hexDigit? a) + 256 * (← hexDigit? b) + 16 * (← hexDigit? c) + (← hexDigit? d)
  | _ => none

def isOctal (c : Char) : Bool := '0' ≤ c && c ≤ '7'

def octalValue (c : Char) : Nat := c.toNat - '0'.toNat

/-- How many octal digits after the first one belong to an escape: two if the first is at most
three, and one otherwise. -/
def octalRoom (first : Char) : Nat := if first ≤ '3' then 2 else 1

/-- Letters and marks with a meaning of their own. -/
def simpleEscape? : Char → Option Char
  | 'b' => some '\x08'
  | 't' => some '\t'
  | 'n' => some '\n'
  | 'f' => some '\x0c'
  | 'r' => some '\r'
  | 's' => some ' '
  | '"' => some '"'
  | '\'' => some '\''
  | '\\' => some '\\'
  | _ => none

/-- A character after a backslash that begins none of the longer escapes. -/
def escapedChar (c : Char) : Except LiteralError Text :=
  match simpleEscape? c with
  | some d => .ok [.char d]
  | none =>
    if c == '\n' then .ok []
    else if c == 'u' then .error .missingHexDigits
    else if isDigit c then
      match decimalValue? c with
      | some v => if v < 8 then .ok [.char (Char.ofNat v)] else .error (.notOctal c)
      | none => .error (.notOctal c)
    else .ok [.char c]

/-- What the escape `\c…` denotes, and how many characters of `rest` belong to it. -/
def escape (c : Char) (rest : List Char) : Except LiteralError (Text × Nat) :=
  let more := (rest.takeWhile (· == 'u')).length
  match (if c == 'u' then fourHexDigits? (rest.drop more) else none) with
  | some n => .ok ([.ofNat n], more + 4)
  | none =>
    if isOctal c then
      let digits := (rest.take (octalRoom c)).takeWhile isOctal
      let n := digits.foldl (fun n d => 8 * n + octalValue d) (octalValue c)
      .ok ([.char (Char.ofNat n)], digits.length)
    else
      match escapedChar c with
      | .ok t => .ok (t, 0)
      | .error e => .error e

/-- Replace all escapes.  A backslash at the very end stays. -/
def decode : List Char → Except LiteralError Text
  | [] => .ok []
  | '\\' :: c :: rest =>
    match escape c rest with
    | .error e => .error e
    | .ok (t, n) =>
      match decode (rest.drop n) with
      | .error e => .error e
      | .ok u => .ok (t ++ u)
  | c :: rest =>
    match decode rest with
    | .error e => .error e
    | .ok u => .ok (.char c :: u)
termination_by cs => cs.length
decreasing_by all_goals simp only [List.length_drop, List.length_cons]; omega

/-! ## Margins -/

def splitLines (cs : List Char) : List (List Char) := cs.splitOn '\n'

def joinLines (lines : List (List Char)) : List Char := List.intercalate ['\n'] lines

def isBlankLine (line : List Char) : Bool := line.all isBlank

/-- The width of a line's indentation. -/
def indentation (line : List Char) : Nat := (line.takeWhile isBlank).length

/-- The margin of a block: the least indentation of its lines that are not blank and of its last
line, which holds the closing quotes. -/
def margin (lines : List (List Char)) : Nat :=
  let counted := lines.dropLast.filter (!isBlankLine ·) ++ lines.getLast?.toList
  (counted.map indentation).min?.getD 0

/-- Take the margin off a line, and the blanks at its end. -/
def freeLine (margin : Nat) (line : List Char) : List Char :=
  if isBlankLine line then [] else dropWhileEnd isBlank (line.drop margin)

/-- Take the common margin off all lines. -/
def stripIndent (body : List Char) : List Char :=
  let lines := splitLines body
  joinLines (lines.map (freeLine (margin lines)))

/-! ## Literals -/

/-- Three quotes at both ends, which may not overlap. -/
def isTextBlock (text : List Char) : Bool :=
  "\"\"\"".toList.isPrefixOf text && 6 ≤ text.length

/-- The content of a text block: everything after its first line break. -/
def blockBody (text : List Char) : List Char :=
  (((text.drop 3).dropLast.dropLast.dropLast).dropWhile (· != '\n')).drop 1

/-- What the literal with this source text denotes. -/
def value (text : String) : Except LiteralError Text :=
  let cs := text.toList
  if isTextBlock cs then decode (stripIndent (blockBody cs))
  else decode (cs.drop 1).dropLast

end Literal

end EmbeddedSql
