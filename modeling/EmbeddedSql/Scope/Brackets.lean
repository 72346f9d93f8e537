/-
# Matching brackets

Which closing bracket belongs to which opening one, in code whose brackets need not balance.  From
an opening bracket the tokens are read forward with a stack of the brackets opened since.  A closing
bracket belongs to the innermost open one of its kind; brackets opened after that one are given up.
If none of the brackets opened since is of its kind, it reaches the bracket itself, which it closes
if it is of its kind and gives up otherwise.  So the partner of a bracket depends on the tokens after
it alone.

The result is kept as a distance, the number of tokens between the two, so that the closing bracket
stands after the opening one by construction.
-/
import EmbeddedSql.Token.Basic

namespace EmbeddedSql

inductive Bracket where
  | paren
  | square
  | brace
deriving DecidableEq, Repr

/-- The bracket that a token opens. -/
def Token.opens? (t : Token) : Option Bracket :=
  if t.isPunct "(" then some .paren
  else if t.isPunct "[" then some .square
  else if t.isPunct "\x7b" then some .brace
  else none

/-- The bracket that a token closes. -/
def Token.closes? (t : Token) : Option Bracket :=
  if t.isPunct ")" then some .paren
  else if t.isPunct "]" then some .square
  else if t.isPunct "\x7d" then some .brace
  else none

namespace Bracket

/-- The number of tokens before the one that closes the bracket `own`; `inner` holds the brackets
opened since and not closed yet, innermost first. -/
def distance? (own : Bracket) (inner : List Bracket) : List Token → Option Nat
  | [] => none
  | t :: rest =>
    match t.opens?, t.closes? with
    | some b, _ => (distance? own (b :: inner) rest).map (· + 1)
    | none, none => (distance? own inner rest).map (· + 1)
    | none, some b =>
      match inner.dropWhile (· != b) with
      | _ :: outer => (distance? own outer rest).map (· + 1)
      | [] => if own = b then some 0 else none

/-- For every token, the number of tokens inside the group it opens. -/
def groups : List Token → List (Option Nat)
  | [] => []
  | t :: rest => t.opens?.bind (distance? · [] rest) :: groups rest

theorem distance?_lt {own : Bracket} {inner : List Bracket} {tokens : List Token} {n : Nat}
    (h : distance? own inner tokens = some n) : n < tokens.length := by
  fun_induction distance? own inner tokens generalizing n with
  | case1 => cases h
  | case2 _ _ _ _ _ ih | case3 _ _ _ _ _ ih | case4 _ _ _ _ _ _ _ _ _ ih =>
      obtain ⟨m, hm, rfl⟩ := Option.map_eq_some_iff.1 h
      exact Nat.succ_lt_succ (ih hm)
  | case5 => simp at h; simp [← h]
  | case6 => cases h

/-- Each group is measured from the tokens after its opening bracket. -/
theorem getElem?_groups (tokens : List Token) (i : Nat) :
    (groups tokens)[i]? =
      tokens[i]?.map fun t => t.opens?.bind (distance? · [] (tokens.drop (i + 1))) := by
  induction tokens generalizing i with
  | nil => simp [groups]
  | cons t rest ih =>
      cases i with
      | zero => simp [groups]
      | succ i => simpa [groups] using ih i

@[simp]
theorem length_groups (tokens : List Token) : (groups tokens).length = tokens.length := by
  induction tokens with
  | nil => rfl
  | cons t rest ih => simp [groups, ih]

end Bracket

/-- Tokens with the extent of every bracket group. -/
structure Brackets where
  tokens : Array Token
  inside : Array (Option Nat)
  inside_eq : inside.toList = Bracket.groups tokens.toList

namespace Brackets

def ofTokens (tokens : List Token) : Brackets :=
  ⟨tokens.toArray, (Bracket.groups tokens).toArray, rfl⟩

abbrev size (b : Brackets) : Nat := b.tokens.size

def token? (b : Brackets) (i : Nat) : Option Token := b.tokens[i]?

/-- The token `n` places before place `i`. -/
def tokenBefore? (b : Brackets) (i n : Nat) : Option Token :=
  if n ≤ i then b.tokens[i - n]? else none

@[simp]
theorem tokenBefore?_succ (b : Brackets) (i : Nat) : b.tokenBefore? (i + 1) 1 = b.token? i :=
  if_pos (Nat.succ_le_succ i.zero_le)

/-- The place of the bracket that closes the group opened at `i`. -/
def closer? (b : Brackets) (i : Nat) : Option Nat :=
  match b.inside[i]? with
  | some (some n) => some (i + n + 1)
  | _ => none

theorem lt_of_closer? {b : Brackets} {i j : Nat} (h : b.closer? i = some j) : i < j := by
  unfold closer? at h
  split at h
  · injection h; omega
  · simp at h

/-- The partner of a bracket, from the tokens after it. -/
theorem closer?_eq (b : Brackets) (i : Nat) :
    b.closer? i = ((b.token? i).bind Token.opens?).bind fun own =>
      (own.distance? [] (b.tokens.toList.drop (i + 1))).map (i + · + 1) := by
  unfold closer? token?
  rw [← Array.getElem?_toList, b.inside_eq, Bracket.getElem?_groups, Array.getElem?_toList]
  cases b.tokens[i]? with
  | none => rfl
  | some t =>
      cases ho : t.opens? with
      | none => simp [ho]
      | some own => cases hd : own.distance? [] (b.tokens.toList.drop (i + 1)) <;> simp [ho, hd]

theorem closer?_lt_size {b : Brackets} {i j : Nat} (h : b.closer? i = some j) : j < b.size := by
  rw [closer?_eq] at h
  simp only [Option.bind_eq_some_iff, Option.map_eq_some_iff] at h
  obtain ⟨own, -, n, hn, rfl⟩ := h
  have := Bracket.distance?_lt hn
  simp only [List.length_drop, Array.length_toList] at this
  simp only [size]
  omega

/-- The last number below `n` with a property. -/
def lastBelow (p : Nat → Bool) : (n : Nat) → Option (Fin n)
  | 0 => none
  | n + 1 => if p n then some ⟨n, n.lt_succ_self⟩ else (lastBelow p n).map Fin.castSucc

/-- The place of the bracket that opens the group closed at `j`. -/
def opener? (b : Brackets) (j : Nat) : Option (Fin j) :=
  lastBelow (fun i => b.closer? i == some j) j

/-! ## Looking at a place -/

def isPunct (b : Brackets) (i : Nat) (text : String) : Bool :=
  (b.token? i).any (·.isPunct text)

def isOp (b : Brackets) (i : Nat) (text : String) : Bool := (b.token? i).any (·.isOp text)

def isIdent (b : Brackets) (i : Nat) : Bool := (b.token? i).any (·.isIdent)

/-- Is the identifier with this text at place `i`? -/
def isWord (b : Brackets) (i : Nat) (text : String) : Bool :=
  (b.token? i).any fun t => t.isIdent && t.text == text

/-- Is there an identifier at place `i` whose text is in the list? -/
def isWordIn (b : Brackets) (i : Nat) (words : List String) : Bool :=
  (b.token? i).any fun t => t.isIdent && words.contains t.text

/-- Does a member access dot stand before place `i`? -/
def afterDot (b : Brackets) (i : Nat) : Bool := (b.tokenBefore? i 1).any (·.isPunct ".")

theorem lt_size_of_any {b : Brackets} {i : Nat} {p : Token → Bool}
    (h : (b.token? i).any p = true) : i < b.size := by
  by_cases hi : i < b.tokens.size
  · exact hi
  · simp [token?, Array.getElem?_eq_none (Nat.le_of_not_lt hi)] at h

/-- The slice of tokens from `start` up to `stop`. -/
def slice (b : Brackets) (start stop : Nat) : List Token := (b.tokens.extract start stop).toList

end Brackets

end EmbeddedSql
