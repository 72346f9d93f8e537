/-
# Scopes

Variables are followed within one scope at a time.  The bodies of methods, constructors,
initializers and member-level lambdas are scopes of their own; everything outside them is, in order,
one last scope for the members of the classes.

Whether a brace outside any body opens one is decided from the tokens before it alone, nearest
first.
-/
import EmbeddedSql.Token.Basic

namespace EmbeddedSql

namespace Scope

/-- Words of a type header; a brace after one of them and a dotted name opens no body. -/
def typeHeaderWords : List String :=
  ["class", "interface", "enum", "record", "extends", "implements", "permits", "new"]

/-- Does a `throws` clause end here?  It is a list of dotted names after the word. -/
def endsThrows : List Token → Bool
  | [] => false
  | t :: before =>
    if t.isIdent then
      if t.text == "throws" then true
      else if typeHeaderWords.contains t.text then false
      else endsThrows before
    else if t.isPunct "." || t.isPunct "," then endsThrows before
    else false

/-- Does a brace outside any body, inside `depth` braces, open one, given the tokens before it?
After a parameter list, an arrow, `static` or a `throws` clause it does; at a statement boundary it
opens an initializer if it stands inside a class. -/
def opensBody (before : List Token) (depth : Int) : Bool :=
  match before with
  | [] => false
  | t :: _ =>
    if t.isPunct ")" || t.isOp "->" then true
    else if t.isPunct ";" || t.isPunct "\x7b" || t.isPunct "\x7d" then 0 < depth
    else if !t.isIdent then false
    else t.text == "static" || endsThrows before

/-- How many tokens stand before the brace that closes the body, inside `level` further braces.  A
body that is never closed goes to the end. -/
def bodyLength (level : Nat) : List Token → Nat
  | [] => 0
  | t :: rest =>
    if t.isPunct "\x7b" then bodyLength (level + 1) rest + 1
    else if t.isPunct "\x7d" then
      match level with
      | 0 => 0
      | level + 1 => bodyLength level rest + 1
    else bodyLength level rest + 1

/-- The bodies of a stretch of tokens outside any body, and the tokens that belong to none. -/
def splitFrom (before : List Token) (depth : Int) : List Token → List (List Token) × List Token
  | [] => ([], [])
  | t :: rest =>
    if t.isPunct "\x7b" && opensBody before depth then
      let n := bodyLength 0 rest
      let body := rest.take n
      let (bodies, members) :=
        splitFrom (body.reverse ++ t :: before) (depth + 1) (rest.drop n)
      (body :: bodies, t :: members)
    else
      let inner := if t.isPunct "\x7b" then depth + 1 else if t.isPunct "\x7d" then depth - 1 else depth
      let (bodies, members) := splitFrom (t :: before) inner rest
      (bodies, t :: members)
termination_by tokens => tokens.length
decreasing_by
  · simp only [List.length_drop, List.length_cons]; omega
  · simp

/-- No token is moved or made up. -/
theorem splitFrom_sublist (before : List Token) (depth : Int) (tokens : List Token) :
    (∀ body ∈ (splitFrom before depth tokens).1, body.Sublist tokens)
      ∧ (splitFrom before depth tokens).2.Sublist tokens := by
  fun_induction splitFrom before depth tokens with
  | case1 => simp
  | case2 before depth t rest _ n body bodies members hs ih =>
    rw [hs] at ih
    have hbody : body.Sublist (t :: rest) := (List.take_sublist n rest).trans (.cons t (.refl _))
    have hrest : (rest.drop n).Sublist rest := List.drop_sublist n rest
    refine ⟨?_, (ih.2.trans hrest).cons_cons t⟩
    intro other ho
    rcases List.mem_cons.1 ho with rfl | ho
    · exact hbody
    · exact ((ih.1 other ho).trans hrest).cons t
  | case3 before depth t rest _ inner bodies members hs ih =>
    rw [hs] at ih
    exact ⟨fun body hb => (ih.1 body hb).cons t, ih.2.cons_cons t⟩

end Scope

/-- The scopes of a list of significant tokens: the bodies in order, then the members.  Empty ones
are left out. -/
def splitScopes (tokens : List Token) : List (List Token) :=
  let (bodies, members) := Scope.splitFrom [] 0 tokens
  (bodies ++ [members]).filter (!·.isEmpty)

theorem sublist_of_mem_splitScopes {tokens scope : List Token} (h : scope ∈ splitScopes tokens) :
    scope.Sublist tokens := by
  have hs := Scope.splitFrom_sublist [] 0 tokens
  unfold splitScopes at h
  rcases List.mem_append.1 (List.mem_filter.1 h).1 with hb | hm
  · exact hs.1 scope hb
  · rw [List.mem_singleton.1 hm]
    exact hs.2

theorem subset_of_mem_splitScopes {tokens scope : List Token} (h : scope ∈ splitScopes tokens) :
    scope ⊆ tokens :=
  (sublist_of_mem_splitScopes h).subset

end EmbeddedSql
