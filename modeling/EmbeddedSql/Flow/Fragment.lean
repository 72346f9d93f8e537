/-
# Fragments

The text of a string expression is a sequence of fragments: pieces of literal text, and expressions
whose value is not known, kept as their source text.  Whether fragments look like SQL is judged by
the literal pieces alone; when they are shown, an unknown value becomes a placeholder.

A text is taken for SQL by its first word alone: blanks at the front are passed over, then the
longest run of ASCII letters and underscores is compared, in upper case, with the keywords.
-/
import EmbeddedSql.Flow.Placeholder
import EmbeddedSql.Rules.Basic
import EmbeddedSql.Text.Blank

namespace EmbeddedSql

/-! ## The leading keyword -/

/-- ASCII letters and the underscore. -/
def isKeywordChar (c : Char) : Bool := c.isAlpha || c == '_'

/-- The ASCII word at the front of a text. -/
def leadingWord (t : Text) : Text :=
  (t.dropWhile CodePoint.isBlank).takeWhile (·.satisfies isKeywordChar)

def CodePoint.toUpperAscii : CodePoint → CodePoint
  | .char c => .char c.toUpper
  | p => p

/-- The keyword that a text starts with. -/
def RuleSet.leadingKeyword? (rules : RuleSet) (t : Text) : Option Text :=
  let word := (leadingWord t).map CodePoint.toUpperAscii
  if word ≠ [] ∧ word ∈ rules.sqlKeywords then some word else none

def RuleSet.isSql (rules : RuleSet) (t : Text) : Bool := (rules.leadingKeyword? t).isSome

/-! ## Fragments -/

/-- A piece of a string expression, with the line it starts on. -/
inductive Fragment where
  | literal (text : Text) (line : Nat)
  | unknown (source : String) (line : Nat)
deriving DecidableEq, Repr

namespace Fragment

def isLiteral : Fragment → Bool
  | literal .. => true
  | unknown .. => false

/-- The literal text of a fragment; an unknown value has none. -/
def literalText : Fragment → Text
  | literal text _ => text
  | unknown .. => []

/-- The text of a fragment, an unknown value by its placeholder. -/
def render (template : Template) : Fragment → Except TemplateError Text
  | literal text _ => .ok text
  | unknown source _ => Placeholder.render template source

/-- The text of a sequence of fragments. -/
def renderAll (template : Template) : List Fragment → Except TemplateError Text
  | [] => .ok []
  | f :: fs =>
    match f.render template with
    | .error e => .error e
    | .ok t =>
      match renderAll template fs with
      | .error e => .error e
      | .ok u => .ok (t ++ u)

end Fragment

/-- The keyword that the literal pieces, put together, start with. -/
def RuleSet.keywordOf? (rules : RuleSet) (fragments : List Fragment) : Option Text :=
  rules.leadingKeyword? (fragments.flatMap Fragment.literalText)

/-- Do the fragments look like a statement? -/
def RuleSet.isStatement (rules : RuleSet) (fragments : List Fragment) : Bool :=
  (rules.keywordOf? fragments).isSome

end EmbeddedSql
