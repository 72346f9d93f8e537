/-
# Scopes with their calls

A scope is a list of significant tokens with everything that is known about it before variables are
followed: the extents of its bracket groups and, for each token, the parentheses around it.  A
parenthesis that follows a name is a call, which is classed by its receiver path and method name.
The class that counts for a token is that of the nearest call around it that has one.
-/
import EmbeddedSql.Rules.Classify
import EmbeddedSql.Scope.Skip
import EmbeddedSql.Text.Alphanumeric

namespace EmbeddedSql

/-- The names of a call: the path before the last dot, and the name before the parenthesis. -/
structure Call where
  receiver : String
  method : String
deriving DecidableEq, Repr

/-- A pair of parentheses around a token. -/
structure Frame where
  openAt : Nat
  closeAt : Nat
  call : Option Call
  disposition : CallClass
deriving DecidableEq, Repr

namespace Brackets

/-- Words whose parentheses are control flow. -/
def controlWords : List String :=
  ["if", "for", "while", "switch", "catch", "synchronized", "return", "throw", "assert", "try"]

/-- The path that ends with the `n`-th token, a dot, put before `path`.  A link is a name, or a name
with an argument list, which is shown as empty parentheses. -/
def receiverPath (b : Brackets) (n : Nat) (path : List String) : List String :=
  if 2 ≤ n then
    if b.isPunct (n - 1) "." then
      match b.token? (n - 2) with
      | some link =>
        if link.isIdent then receiverPath b (n - 2) (link.text :: path)
        else if link.isPunct ")" then
          match b.opener? (n - 2) with
          | some o =>
            match b.tokenBefore? o 1 with
            | some callee =>
              if callee.isIdent then receiverPath b (o - 1) ((callee.text ++ "()") :: path)
              else path
            | none => path
          | none => path
        else path
      | none => path
    else path
  else path
termination_by n

/-- The call whose parenthesis opens at `i`, if it is one.  After `new` and `@` that word is the
receiver. -/
def callAt (b : Brackets) (i : Nat) : Option Call :=
  match b.tokenBefore? i 1 with
  | none => none
  | some name =>
    if !name.isIdent || controlWords.contains name.text then none
    else if (b.tokenBefore? i 2).any fun t => t.isIdent && t.text == "new" then
      some ⟨"new", name.text⟩
    else if (b.tokenBefore? i 2).any (·.isPunct "@") then some ⟨"@", name.text⟩
    else some ⟨".".intercalate (b.receiverPath (i - 1) []), name.text⟩

/-- The frame of the parenthesis at `i`. -/
def frameAt (b : Brackets) (classifier : Classifier) (i : Nat) : Frame :=
  let call := b.callAt i
  { openAt := i
    closeAt := (b.closer? i).getD b.size
    call
    disposition := match call with
      | some c => classifier.classify c.receiver c.method
      | none => .unclassified }

/-- The frames around each token from place `i` on, innermost first, where `around` holds those
around the first of them.  Every closing parenthesis ends a frame. -/
def framesFrom (b : Brackets) (classifier : Classifier) (i : Nat) (around : List Frame) :
    List Token → List (List Frame)
  | [] => []
  | t :: rest =>
    let next :=
      if t.isPunct "(" then b.frameAt classifier i :: around
      else if t.isPunct ")" then around.tail
      else around
    around :: framesFrom b classifier (i + 1) next rest

end Brackets

/-- Significant tokens with their bracket groups and, for each token, its frames. -/
structure Scope extends Brackets where
  frames : Array (List Frame)

namespace Scope

def ofTokens (classifier : Classifier) (tokens : List Token) : Scope :=
  let b := Brackets.ofTokens tokens
  ⟨b, (b.framesFrom classifier 0 [] tokens).toArray⟩

/-- The frames around the token at place `i`, innermost first. -/
def framesAt (sc : Scope) (i : Nat) : List Frame := (sc.frames[i]?).getD []

/-- The class of the nearest classified call around the token at place `i`. -/
def callClassAt (sc : Scope) (i : Nat) : CallClass :=
  match (sc.framesAt i).find? (·.disposition ≠ .unclassified) with
  | some frame => frame.disposition
  | none => .unclassified

/-- Is the nearest classified call around the token one that executes its argument? -/
def underSink (sc : Scope) (i : Nat) : Bool := sc.callClassAt i == .executionSink

end Scope

/-! ## Source text of a stretch of tokens -/

/-- The texts of tokens, with a blank between two that would otherwise run together; `last` is the
character before the first of them. -/
def joinTexts (last : Option Char) : List Token → List Char
  | [] => []
  | t :: rest =>
    let text := t.text.toList
    let gap := last.any isAlphanumeric && text.head?.any isAlphanumeric
    (if gap then [' '] else []) ++ text ++ joinTexts text.getLast? rest

namespace Brackets

/-- The source text of the tokens from `start` up to `stop`. -/
def sourceText (b : Brackets) (start stop : Nat) : String :=
  String.ofList (joinTexts none (b.slice start stop))

/-! ## Statement boundaries -/

/-- Where the dotted name begins whose last part stands right before place `n`. -/
def dottedStart (b : Brackets) (n : Nat) : Nat :=
  if h : 3 ≤ n then
    if (b.tokenBefore? n 2).any (·.isPunct ".") && (b.tokenBefore? n 3).any (·.isIdent) then
      dottedStart b (n - 2)
    else n - 1
  else n - 1
termination_by n

theorem dottedStart_lt (b : Brackets) {n : Nat} (h : n ≠ 0) : b.dottedStart n < n := by
  fun_induction dottedStart b n with
  | case1 n hn _ ih => have := ih (by omega); omega
  | case2 => omega
  | case3 => omega

/-- The place before an argument list that ends right before place `n`, or `n` itself. -/
def beforeArguments (b : Brackets) (n : Nat) : Nat :=
  if (b.tokenBefore? n 1).any (·.isPunct ")") then
    match b.opener? (n - 1) with
    | some o => o
    | none => n
  else n

theorem beforeArguments_le (b : Brackets) (n : Nat) : b.beforeArguments n ≤ n := by
  unfold beforeArguments
  split
  · split
    · next o _ => have := o.isLt; omega
    · exact Nat.le_refl n
  · exact Nat.le_refl n

/-- The place before any annotations that end right before place `n`: each is an at sign, a dotted
name and perhaps an argument list. -/
def annotationStart (b : Brackets) (n : Nat) : Nat :=
  let nameEnd := b.beforeArguments n
  if h : (b.tokenBefore? nameEnd 1).any (·.isIdent) = true ∧ nameEnd ≠ 0 then
    let start := b.dottedStart nameEnd
    if (b.tokenBefore? start 1).any (·.isPunct "@") then annotationStart b (start - 1) else n
  else n
termination_by n
decreasing_by
  have h₁ := b.beforeArguments_le n
  have h₂ := @dottedStart_lt b (b.beforeArguments n) h.2
  omega

/-- Declarations may begin after these words. -/
def modifierWords : List String :=
  ["final", "static", "private", "public", "protected", "transient", "volatile"]

/-- Can a statement begin at place `i`?  It can at the start, after the end of a statement, a brace
or a closing parenthesis, an arrow or a label, and after `else` and `do`. -/
def atBoundary (b : Brackets) (i : Nat) : Bool :=
  match b.tokenBefore? i 1 with
  | none => true
  | some t =>
    match t.kind with
    | .punctuation => [";", "\x7b", "\x7d", ")"].contains t.text
    | .operator => ["->", ":"].contains t.text
    | .identifier => ["else", "do"].contains t.text
    | _ => false

/-- Can a declaration begin at place `i`?  Annotations before it are passed over, and a modifier may
stand there too. -/
def atDeclarationBoundary (b : Brackets) (i : Nat) : Bool :=
  let start := b.annotationStart i
  b.atBoundary start
    || (b.tokenBefore? start 1).any fun t => t.isIdent && modifierWords.contains t.text

/-- Does an equals sign, a comma or the end of a statement stand at place `i`? -/
def endsDeclarator (b : Brackets) (i : Nat) : Bool :=
  b.isOp i "=" || b.isPunct i ";" || b.isPunct i ","

end Brackets

end EmbeddedSql
