/-
# Blanks

`isBlank` is the class of characters that separate words: the ASCII blanks and line breaks, the four
information separators, and the Unicode spaces.  Zero-width characters and the byte order mark are
not in it.  Trimming is stated for any class of elements, so that it serves strings and texts alike.
-/
import EmbeddedSql.Text.CodePoint

namespace EmbeddedSql

/-- White space of every script: `0x09`–`0x0D`, `0x1C`–`0x20` and the Unicode spaces. -/
def isBlank (c : Char) : Bool :=
  let n := c.toNat
  (0x09 ≤ n && n ≤ 0x0D) || (0x1C ≤ n && n ≤ 0x20) || n == 0x85 || n == 0xA0 || n == 0x1680
    || (0x2000 ≤ n && n ≤ 0x200A) || n == 0x2028 || n == 0x2029 || n == 0x202F || n == 0x205F
    || n == 0x3000

namespace CodePoint

def isBlank (p : CodePoint) : Bool := p.satisfies EmbeddedSql.isBlank

end CodePoint

/-- Drop the longest final stretch inside a class. -/
def dropWhileEnd {α : Type} (p : α → Bool) (xs : List α) : List α :=
  (xs.reverse.dropWhile p).reverse

/-- Drop the longest initial and final stretches inside a class. -/
def trim {α : Type} (p : α → Bool) (xs : List α) : List α := dropWhileEnd p (xs.dropWhile p)

end EmbeddedSql
