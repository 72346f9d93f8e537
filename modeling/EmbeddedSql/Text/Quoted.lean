/-
# Quoted names

The form in which messages show a file name or a field name: in single quotes, or in double quotes
when the name holds a single quote and no double one.  Inside, the backslash and the quote in use
are escaped, the common control characters have short forms, and other characters that cannot be
printed are written by number.
-/
import EmbeddedSql.Text.Printable

namespace EmbeddedSql

namespace Quoted

/-- The hexadecimal digits of `n`, at least `width` of them. -/
def hex (width n : Nat) : List Char :=
  let digits := Nat.toDigits 16 n
  List.replicate (width - digits.length) '0' ++ digits

/-- A character as it stands between quotes of the given kind. -/
def encodeChar (quote c : Char) : List Char :=
  if c == quote || c == '\\' then ['\\', c]
  else if c == '\t' then ['\\', 't']
  else if c == '\n' then ['\\', 'n']
  else if c == '\r' then ['\\', 'r']
  else if isPrintable c then [c]
  else if c.toNat ≤ 0xFF then '\\' :: 'x' :: hex 2 c.toNat
  else if c.toNat ≤ 0xFFFF then '\\' :: 'u' :: hex 4 c.toNat
  else '\\' :: 'U' :: hex 8 c.toNat

/-- Double quotes only where they spare an escape. -/
def chooseQuote (cs : List Char) : Char :=
  if cs.contains '\'' && !cs.contains '"' then '"' else '\''

def encode (cs : List Char) : List Char :=
  let quote := chooseQuote cs
  quote :: cs.flatMap (encodeChar quote) ++ [quote]

end Quoted

/-- A name in quotes, as messages show it. -/
def quoted (s : String) : String := String.ofList (Quoted.encode s.toList)

end EmbeddedSql
