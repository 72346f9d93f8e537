/-
# Skipping over code

How far certain stretches of code go: a bracket group, the member accesses, calls and index brackets
after an operand, a creation expression, the rest of a statement.  Each function takes a place and
gives the place just after the stretch.  None of them goes back, and none goes past the end of the
code.
-/
import EmbeddedSql.Scope.Brackets

namespace EmbeddedSql.Brackets

/-- The place after the bracket group opened at `i`; the end if it is never closed. -/
def skipGroup (b : Brackets) (i : Nat) : Nat :=
  match b.closer? i with
  | some j => j + 1
  | none => b.size

theorem lt_skipGroup {b : Brackets} {i : Nat} (h : i < b.size) : i < b.skipGroup i := by
  unfold skipGroup
  split
  · next j hj => have := lt_of_closer? hj; omega
  · exact h

theorem skipGroup_le_size (b : Brackets) (i : Nat) : b.skipGroup i ≤ b.size := by
  unfold skipGroup
  split
  · next j hj => exact closer?_lt_size hj
  · exact Nat.le_refl _

/-- The place after `.member`, `::member`, call parentheses and index brackets from `i` on. -/
def skipPostfix (b : Brackets) (i : Nat) : Nat :=
  if h : i < b.size then
    let t := b.tokens[i]
    if (t.isPunct "." || t.isOp "::") && b.isIdent (i + 1) then skipPostfix b (i + 2)
    else if t.isPunct "(" || t.isPunct "[" then
      have := lt_skipGroup h
      skipPostfix b (b.skipGroup i)
    else i
  else i
termination_by b.size - i

theorem le_skipPostfix (b : Brackets) (i : Nat) : i ≤ b.skipPostfix i := by
  fun_induction skipPostfix b i with
  | case1 i h t ht ih => omega
  | case2 i h t _ _ hlt ih => omega
  | case3 => omega
  | case4 => omega

theorem skipPostfix_le_size {b : Brackets} {i : Nat} (h : i ≤ b.size) :
    b.skipPostfix i ≤ b.size := by
  fun_induction skipPostfix b i with
  | case1 i hi t ht ih => exact ih (lt_size_of_any (Bool.and_eq_true_iff.1 ht).2)
  | case2 i hi t _ _ hlt ih => exact ih (b.skipGroup_le_size i)
  | case3 => exact h
  | case4 => exact h

/-- The place after the bracket groups, round or square, from `i` on. -/
def skipGroups (b : Brackets) (i : Nat) : Nat :=
  if h : i < b.size then
    let t := b.tokens[i]
    if t.isPunct "(" || t.isPunct "[" then
      have := lt_skipGroup h
      skipGroups b (b.skipGroup i)
    else i
  else i
termination_by b.size - i

theorem le_skipGroups (b : Brackets) (i : Nat) : i ≤ b.skipGroups i := by
  fun_induction skipGroups b i with
  | case1 i h t _ hlt ih => omega
  | case2 => omega
  | case3 => omega

theorem skipGroups_le_size {b : Brackets} {i : Nat} (h : i ≤ b.size) :
    b.skipGroups i ≤ b.size := by
  fun_induction skipGroups b i with
  | case1 i hi t _ hlt ih => exact ih (b.skipGroup_le_size i)
  | case2 => exact h
  | case3 => exact h

/-- The end of the type in a creation expression, inside `depth` angle brackets: its place, and
whether arguments or a dimension follow there.  Angle brackets count however they are joined, except
three in a row; outside them only names and dots belong to the type. -/
def typeEnd (b : Brackets) (depth : Int) (i : Nat) : Nat × Bool :=
  if h : i < b.size then
    let t := b.tokens[i]
    if t.isOp "<" then typeEnd b (depth + 1) (i + 1)
    else if t.isOp ">" then typeEnd b (depth - 1) (i + 1)
    else if t.isOp ">>" then typeEnd b (depth - 2) (i + 1)
    else if depth ≤ 0 && (t.isPunct "(" || t.isPunct "[") then (i, true)
    else if depth ≤ 0 && !(t.isIdent || t.isPunct ".") then (i, false)
    else typeEnd b depth (i + 1)
  else (i, true)
termination_by b.size - i

theorem le_typeEnd (b : Brackets) (depth : Int) (i : Nat) : i ≤ (b.typeEnd depth i).1 := by
  fun_induction typeEnd b depth i with
  | case1 depth i h t _ ih => omega
  | case2 depth i h t _ _ ih => omega
  | case3 depth i h t _ _ _ ih => omega
  | case4 => exact Nat.le_refl _
  | case5 => exact Nat.le_refl _
  | case6 depth i h t _ _ _ _ _ ih => omega
  | case7 => exact Nat.le_refl _

theorem typeEnd_le_size {b : Brackets} {depth : Int} {i : Nat} (h : i ≤ b.size) :
    (b.typeEnd depth i).1 ≤ b.size := by
  fun_induction typeEnd b depth i with
  | case1 depth i hi t _ ih => exact ih hi
  | case2 depth i hi t _ _ ih => exact ih hi
  | case3 depth i hi t _ _ _ ih => exact ih hi
  | case4 => exact h
  | case5 => exact h
  | case6 depth i hi t _ _ _ _ _ ih => exact ih hi
  | case7 => exact h

/-- The place after a creation expression whose `new` stands at `i`: a type, then arguments or
dimensions, a class body or initial values, and what follows an operand.  A type that is followed by
none of these ends the expression. -/
def skipNew (b : Brackets) (i : Nat) : Nat :=
  match b.typeEnd 0 (i + 1) with
  | (j, false) => j
  | (j, true) =>
    let j := b.skipGroups j
    b.skipPostfix (if b.isPunct j "\x7b" then b.skipGroup j else j)

theorem lt_skipNew (b : Brackets) (i : Nat) : i < b.skipNew i := by
  have h₁ := b.le_typeEnd 0 (i + 1)
  unfold skipNew
  split
  · next j hj => rw [hj] at h₁; simp only at h₁; omega
  · next j hj =>
    rw [hj] at h₁
    simp only at h₁
    have h₂ := b.le_skipGroups j
    simp only
    split
    · next hb =>
      have h₃ := lt_skipGroup (lt_size_of_any hb)
      have h₄ := b.le_skipPostfix (b.skipGroup (b.skipGroups j))
      omega
    · have h₄ := b.le_skipPostfix (b.skipGroups j)
      omega

theorem skipNew_le_size {b : Brackets} {i : Nat} (h : i < b.size) : b.skipNew i ≤ b.size := by
  have ht : (b.typeEnd 0 (i + 1)).1 ≤ b.size := typeEnd_le_size h
  unfold skipNew
  split
  · next j hj => rwa [hj] at ht
  · next j hj =>
    rw [hj] at ht
    apply skipPostfix_le_size
    split
    · exact b.skipGroup_le_size _
    · exact skipGroups_le_size ht

/-- The place of the first of the stops, or of an unmatched closing bracket, from `i` on; bracket
groups are passed over. -/
def skipToStop (b : Brackets) (stops : List String) (i : Nat) : Nat :=
  if h : i < b.size then
    let t := b.tokens[i]
    if t.kind == .punctuation && stops.contains t.text then i
    else if t.opens?.isSome then
      have := lt_skipGroup h
      skipToStop b stops (b.skipGroup i)
    else if t.closes?.isSome then i
    else skipToStop b stops (i + 1)
  else i
termination_by b.size - i

theorem le_skipToStop (b : Brackets) (stops : List String) (i : Nat) :
    i ≤ b.skipToStop stops i := by
  fun_induction skipToStop b stops i with
  | case1 => omega
  | case2 i h t _ _ hlt ih => omega
  | case3 => omega
  | case4 i h t _ _ _ ih => omega
  | case5 => omega

theorem skipToStop_le_size {b : Brackets} {stops : List String} {i : Nat} (h : i ≤ b.size) :
    b.skipToStop stops i ≤ b.size := by
  fun_induction skipToStop b stops i with
  | case1 => exact h
  | case2 i hi t _ _ hlt ih => exact ih (b.skipGroup_le_size i)
  | case3 => exact h
  | case4 i hi t _ _ _ ih => exact ih hi
  | case5 => exact h

end EmbeddedSql.Brackets
