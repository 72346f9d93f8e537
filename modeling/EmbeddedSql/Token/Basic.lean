/-
# Tokens of Java source

A token is a piece of source text with the lines it covers, counted from one.  White space and
comments are tokens too, so the texts of all tokens, put together, are the source; what takes part
in patterns of code are the *significant* ones.
-/
namespace EmbeddedSql

inductive TokenKind where
  | stringLiteral
  | lineComment
  | blockComment
  | identifier
  | operator
  | punctuation
  | whitespace
  | other
deriving DecidableEq, Repr, Inhabited

namespace TokenKind

def name : TokenKind → String
  | stringLiteral => "string_literal"
  | lineComment => "line_comment"
  | blockComment => "block_comment"
  | identifier => "identifier"
  | operator => "operator"
  | punctuation => "punctuation"
  | whitespace => "whitespace"
  | other => "other"

/-- White space and comments. -/
def isTrivia : TokenKind → Bool
  | whitespace | lineComment | blockComment => true
  | _ => false

end TokenKind

/-- A piece of source text: quotes and comment marks included. -/
structure Token where
  kind : TokenKind
  text : String
  startLine : Nat
  endLine : Nat
deriving DecidableEq, Repr, Inhabited

namespace Token

def isPunct (t : Token) (text : String) : Bool := t.kind == .punctuation && t.text == text

def isOp (t : Token) (text : String) : Bool := t.kind == .operator && t.text == text

def isIdent (t : Token) : Bool := t.kind == .identifier

def isString (t : Token) : Bool := t.kind == .stringLiteral

/-- Character literals are kept as other tokens; they are known by their quote. -/
def isCharLiteral (t : Token) : Bool := t.kind == .other && t.text.toList.head? == some '\''

end Token

/-- The tokens that take part in patterns of code. -/
def significant (tokens : List Token) : List Token := tokens.filter fun t => !t.kind.isTrivia

end EmbeddedSql
