/-
# Writing JSON

Two layouts: `compact` on one line, with a blank after each comma and colon, and `pretty`, with each
item on a line of its own, indented by two blanks a level.  Both are plain ASCII: every other
character of a string is escaped, by the two halves of its surrogate pair if it has a higher plane,
so what is written holds no line break of its own.
-/
import EmbeddedSql.Json.Basic

namespace EmbeddedSql.Json

/-- The escape of a 16-bit unit. -/
def unitEscape (n : Nat) : List Char :=
  '\\' :: 'u' :: [n / 4096 % 16, n / 256 % 16, n / 16 % 16, n % 16].map Nat.digitChar

/-- The character itself, a short escape, or the escape of its units. -/
def escapeChar (c : Char) : List Char :=
  match c with
  | '"' => ['\\', '"']
  | '\\' => ['\\', '\\']
  | '\n' => ['\\', 'n']
  | '\r' => ['\\', 'r']
  | '\t' => ['\\', 't']
  | '\x08' => ['\\', 'b']
  | '\x0c' => ['\\', 'f']
  | c =>
    let n := c.toNat
    if 0x20 ≤ n ∧ n ≤ 0x7E then [c]
    else if n < 0x10000 then unitEscape n
    else unitEscape (0xD800 + (n - 0x10000) / 1024) ++ unitEscape (0xDC00 + (n - 0x10000) % 1024)

def escape : CodePoint → List Char
  | .char c => escapeChar c
  | .surrogate offset => unitEscape (0xD800 + offset.val)

def writeString (t : Text) : List Char := '"' :: t.flatMap escape ++ ['"']

def writeInt (n : Int) : List Char := (toString n).toList

/-- Values without parts. -/
def writeScalar : Json → List Char
  | null => "null".toList
  | bool b => (if b then "true" else "false").toList
  | int n => writeInt n
  | float x => x.render
  | str t => writeString t
  | arr _ | obj _ => []

mutual
/-- A value on one line. -/
def compact : Json → List Char
  | arr [] => "[]".toList
  | arr (item :: items) => '[' :: compact item ++ compactItems items
  | obj [] => "\x7b\x7d".toList
  | obj ((key, value) :: members) =>
    '\x7b' :: writeString key ++ ": ".toList ++ compact value ++ compactMembers members
  | scalar => writeScalar scalar

/-- What follows the first item of an array. -/
def compactItems : List Json → List Char
  | [] => [']']
  | item :: items => ", ".toList ++ compact item ++ compactItems items

/-- What follows the first member of an object. -/
def compactMembers : List (Text × Json) → List Char
  | [] => ['\x7d']
  | (key, value) :: members =>
    ", ".toList ++ writeString key ++ ": ".toList ++ compact value ++ compactMembers members
end

/-- A new line at a level of nesting. -/
def newLine (level : Nat) : List Char := '\n' :: List.replicate (2 * level) ' '

mutual
/-- A value whose items stand on lines of their own, inside `level` brackets. -/
def pretty (level : Nat) : Json → List Char
  | arr [] => "[]".toList
  | arr (item :: items) =>
    '[' :: newLine (level + 1) ++ pretty (level + 1) item ++ prettyItems level items
  | obj [] => "\x7b\x7d".toList
  | obj ((key, value) :: members) =>
    '\x7b' :: newLine (level + 1) ++ writeString key ++ ": ".toList ++ pretty (level + 1) value
      ++ prettyMembers level members
  | scalar => writeScalar scalar

def prettyItems (level : Nat) : List Json → List Char
  | [] => newLine level ++ [']']
  | item :: items =>
    ',' :: newLine (level + 1) ++ pretty (level + 1) item ++ prettyItems level items

def prettyMembers (level : Nat) : List (Text × Json) → List Char
  | [] => newLine level ++ ['\x7d']
  | (key, value) :: members =>
    ',' :: newLine (level + 1) ++ writeString key ++ ": ".toList ++ pretty (level + 1) value
      ++ prettyMembers level members
end

/-- The one-line form. -/
def toLine (v : Json) : String := String.ofList (compact v)

/-- The form for readers. -/
def toPage (v : Json) : String := String.ofList (pretty 0 v)

end EmbeddedSql.Json
