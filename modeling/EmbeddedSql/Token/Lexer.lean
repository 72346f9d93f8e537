/-
# Cutting source text into tokens

`lexeme c rest` looks at the text `c :: rest` and says which kind of token it begins with and how
many characters of `rest` belong to that token.  So a token is never empty, and what it leaves is a
final part of the text: `tokensFrom` only has to count lines.  The one thing that can fail is a
construct that is opened and never closed.

Comment marks inside literals and quotes inside comments mean nothing, because each construct is
looked for from its opening to its own end.
-/
import EmbeddedSql.Text.Alphanumeric
import EmbeddedSql.Text.Blank
import EmbeddedSql.Text.Digit
import EmbeddedSql.Token.Basic

namespace EmbeddedSql

/-- Constructs that have to be closed. -/
inductive Construct where
  | stringLiteral
  | characterLiteral
  | textBlock
  | blockComment
deriving DecidableEq, Repr

def Construct.name : Construct → String
  | stringLiteral => "string literal"
  | characterLiteral => "character literal"
  | textBlock => "text block"
  | blockComment => "block comment"

/-- A construct that is opened on a line and never closed. -/
structure LexError where
  construct : Construct
  line : Nat
deriving DecidableEq, Repr

def LexError.message (e : LexError) : String :=
  "line " ++ toString e.line ++ ": unterminated " ++ e.construct.name

namespace Lexer

/-! ## Ends of constructs

Each of these counts the characters up to and including the end it looks for. -/

/-- The length of the longest initial stretch inside a class. -/
def spanLength (p : Char → Bool) (cs : List Char) : Nat := (cs.takeWhile p).length

/-- Up to the end of a block comment. -/
def commentEnd? : List Char → Option Nat
  | '*' :: '/' :: _ => some 2
  | _ :: rest => (commentEnd? rest).map (· + 1)
  | [] => none

/-- Up to a closing quote on the same line.  A backslash takes the next character with it. -/
def quoteEnd? (quote : Char) : List Char → Option Nat
  | [] => none
  | '\\' :: c :: rest => if c == '\n' then none else (quoteEnd? quote rest).map (· + 2)
  | c :: rest =>
    if c == '\\' || c == '\n' then none
    else if c == quote then some 1
    else (quoteEnd? quote rest).map (· + 1)

/-- Up to three quotes in a row.  A backslash takes the next character with it. -/
def textBlockEnd? : List Char → Option Nat
  | '\\' :: _ :: rest => (textBlockEnd? rest).map (· + 2)
  | '"' :: '"' :: '"' :: _ => some 3
  | c :: rest => if c == '\\' then none else (textBlockEnd? rest).map (· + 1)
  | [] => none

/-- Three quotes open a text block if only blanks stand between them and the end of the line; given
what follows the quotes. -/
def opensTextBlock (cs : List Char) : Bool :=
  (cs.dropWhile fun c => c == ' ' || c == '\t' || c == '\x0c' || c == '\r').head? == some '\n'

/-! ## Numbers -/

def isHexDigitOrBar (c : Char) : Bool :=
  c.isDigit || ('a' ≤ c && c ≤ 'f') || ('A' ≤ c && c ≤ 'F') || c == '_'

def isDigitOrBar (c : Char) : Bool := isDecimalDigit c || c == '_'

/-- The length of one optional character. -/
def optionalLength (p : Char → Bool) (cs : List Char) : Nat :=
  match cs with
  | c :: _ => if p c then 1 else 0
  | [] => 0

def isLongSuffix (c : Char) : Bool := c == 'l' || c == 'L'

def isNumberSuffix (c : Char) : Bool :=
  c == 'f' || c == 'F' || c == 'd' || c == 'D' || c == 'l' || c == 'L'

/-- The length of an exponent: a letter, an optional sign and at least one digit. -/
def exponentLength : List Char → Nat
  | e :: rest =>
    if e == 'e' || e == 'E' then
      let sign := optionalLength (fun c => c == '+' || c == '-') rest
      let digits := spanLength isDecimalDigit (rest.drop sign)
      if digits = 0 then 0 else 1 + sign + digits
    else 0
  | [] => 0

/-- The length of an exponent and a suffix, both optional. -/
def numberTailLength (cs : List Char) : Nat :=
  let exponent := exponentLength cs
  exponent + optionalLength isNumberSuffix (cs.drop exponent)

/-- The length of a point and the digits after it, if a point comes first. -/
def fractionLength : List Char → Nat
  | c :: rest => if c == '.' then 1 + spanLength isDigitOrBar rest else 0
  | [] => 0

/-- Digits after a mark such as `0x`, with a suffix; nothing if there are none. -/
def markedNumberLength? (p : Char → Bool) (cs : List Char) : Option Nat :=
  let digits := spanLength p cs
  if digits = 0 then none else some (1 + digits + optionalLength isLongSuffix (cs.drop digits))

/-- A hexadecimal or binary number whose first character `c` is a zero: the length after `c`. -/
def radixNumberLength? (c : Char) : List Char → Option Nat
  | mark :: rest =>
    if c != '0' then none
    else if mark == 'x' || mark == 'X' then markedNumberLength? isHexDigitOrBar rest
    else if mark == 'b' || mark == 'B' then
      markedNumberLength? (fun d => d == '0' || d == '1' || d == '_') rest
    else none
  | [] => none

/-- A number that begins with `c`: how many of the following characters belong to it.  Digits of
every script count; a point begins a number if a digit follows it. -/
def numberLength? (c : Char) (rest : List Char) : Option Nat :=
  match radixNumberLength? c rest with
  | some n => some n
  | none =>
    if isDecimalDigit c then
      let whole := spanLength isDigitOrBar rest
      let n := whole + fractionLength (rest.drop whole)
      some (n + numberTailLength (rest.drop n))
    else if c == '.' && (rest.head?.map isDecimalDigit).getD false then
      let n := spanLength isDigitOrBar rest
      some (n + numberTailLength (rest.drop n))
    else none

/-! ## Words and symbols -/

/-- ASCII letters, the underscore, the dollar sign, and `0x80`–`0xFFFF`. -/
def isIdentStart (c : Char) : Bool :=
  c.isAlpha || c == '_' || c == '$' || (0x80 ≤ c.toNat && c.toNat ≤ 0xFFFF)

def isIdentChar (c : Char) : Bool :=
  isWordChar c || c == '$' || (0x80 ≤ c.toNat && c.toNat ≤ 0xFFFF)

def isPunctuationChar (c : Char) : Bool := "(){}[];,.@".toList.contains c

/-- The operators, each before those that begin it. -/
def operators : List String :=
  [">>>=", "<<=", ">>=", ">>>", "->", "::", "++", "--", "&&", "||", "==", "!=", "<=", ">=", "+=",
    "-=", "*=", "/=", "%=", "&=", "|=", "^=", "<<", ">>", "=", "+", "-", "*", "/", "%", "<", ">",
    "!", "~", "?", ":", "&", "|", "^"]

/-- The longest operator that a text begins with. -/
def operator? (cs : List Char) : Option String :=
  operators.find? fun op => op.toList.isPrefixOf cs

/-! ## Tokens -/

/-- A kind and a length, or an unclosed construct. -/
def closed (construct : Construct) (kind : TokenKind) :
    Option Nat → Except Construct (TokenKind × Nat)
  | some n => .ok (kind, n)
  | none => .error construct

/-- Does `rest` begin with the two characters? -/
def followedBy (a b : Char) : List Char → Bool
  | x :: y :: _ => x == a && y == b
  | _ => false

/-- The kind of the first token of `c :: rest`, and how many characters of `rest` belong to it. -/
def lexeme (c : Char) (rest : List Char) : Except Construct (TokenKind × Nat) :=
  if isBlank c then .ok (.whitespace, spanLength isBlank rest)
  else if c == '/' && rest.head? == some '/' then
    .ok (.lineComment, spanLength (· != '\n') rest)
  else if c == '/' && rest.head? == some '*' then
    closed .blockComment .blockComment ((commentEnd? (rest.drop 1)).map (1 + ·))
  else if c == '"' && followedBy '"' '"' rest && opensTextBlock (rest.drop 2) then
    closed .textBlock .stringLiteral ((textBlockEnd? (rest.drop 2)).map (2 + ·))
  else if c == '"' then closed .stringLiteral .stringLiteral (quoteEnd? '"' rest)
  else if c == '\'' then closed .characterLiteral .other (quoteEnd? '\'' rest)
  else
    match numberLength? c rest with
    | some n => .ok (.other, n)
    | none =>
      if isIdentStart c then .ok (.identifier, spanLength isIdentChar rest)
      else if c == '.' && followedBy '.' '.' rest then .ok (.punctuation, 2)
      else if isPunctuationChar c then .ok (.punctuation, 0)
      else
        match operator? (c :: rest) with
        | some op => .ok (.operator, op.length - 1)
        | none => .ok (.other, 0)

/-- The tokens of a text whose first character stands on `line`. -/
def tokensFrom (line : Nat) : List Char → Except LexError (List Token)
  | [] => .ok []
  | c :: rest =>
    match lexeme c rest with
    | .error construct => .error ⟨construct, line⟩
    | .ok (kind, n) =>
      let text := c :: rest.take n
      let endLine := line + text.count '\n'
      match tokensFrom endLine (rest.drop n) with
      | .error e => .error e
      | .ok tokens => .ok (⟨kind, String.ofList text, line, endLine⟩ :: tokens)
termination_by cs => cs.length
decreasing_by simp only [List.length_drop, List.length_cons]; omega

end Lexer

/-- The tokens of a source text. -/
def tokenize (source : String) : Except LexError (List Token) :=
  Lexer.tokensFrom 1 source.toList

end EmbeddedSql
