/-
# Code with something put into it

Tokens are put in at one place (`Brackets.Inserted`).  What is asked about the code before them looks back and what is
asked about the code behind them looks ahead, so both have the answers that they had:

| | |
| :-- | :-- |
| behind the insertion | groups and stretches of code go as far as before, that many places further on |
| up to the insertion | groups that end before it, and whether a statement can begin, are the same |

A group that is open where the tokens are put in may end elsewhere, or nowhere.
-/
import EmbeddedSql.Proofs.Scope.Beginning

namespace EmbeddedSql

namespace Bracket

/-- How far a group goes is decided by the tokens up to its end. -/
theorem distance?_take {own : Bracket} {inner : List Bracket} {tokens : List Token} {n m : Nat}
    (h : own.distance? inner tokens = some n) (hm : n < m) : own.distance? inner (tokens.take m) = some n := by
  induction tokens generalizing inner n m with
  | nil => cases h
  | cons t rest ih =>
      obtain ⟨m, rfl⟩ := Nat.exists_eq_add_one.2 (Nat.zero_lt_of_lt hm)
      rw [distance?] at h
      rw [List.take_succ_cons, distance?]
      cases ho : t.opens? with
      | some b =>
          rw [ho] at h
          obtain ⟨k, hk, rfl⟩ := Option.map_eq_some_iff.1 h
          exact congrArg (Option.map (· + 1)) (ih hk (Nat.lt_of_succ_lt_succ hm))
      | none =>
          cases hc : t.closes? with
          | none =>
              rw [ho, hc] at h
              obtain ⟨k, hk, rfl⟩ := Option.map_eq_some_iff.1 h
              exact congrArg (Option.map (· + 1)) (ih hk (Nat.lt_of_succ_lt_succ hm))
          | some b =>
              rw [ho, hc] at h
              dsimp only at h ⊢
              split at h
              · obtain ⟨k, hk, rfl⟩ := Option.map_eq_some_iff.1 h
                exact congrArg (Option.map (· + 1)) (ih hk (Nat.lt_of_succ_lt_succ hm))
              · exact h

end Bracket

namespace Brackets

/-- A group that ends before a place ends there in any code that is the same up to this place. -/
theorem closer?_of_same {b b' : Brackets} {i j k : Nat} (hsame : ∀ n < i, b'.token? n = b.token? n) (hj : j < i)
    (h : b.closer? k = some j) : b'.closer? k = some j := by
  have hk := lt_of_closer? h
  rw [closer?_eq] at h ⊢
  rw [hsame k (by omega)]
  cases ho : (b.token? k).bind Token.opens? with
  | none =>
      rw [ho] at h
      cases h
  | some own =>
      rw [ho, Option.bind_some] at h
      obtain ⟨n, hn, rfl⟩ := Option.map_eq_some_iff.1 h
      have htake : (b'.tokens.toList.drop (k + 1)).take (n + 1) = (b.tokens.toList.drop (k + 1)).take (n + 1) := by
        refine List.ext_getElem? fun m => ?_
        rw [List.getElem?_take, List.getElem?_take]
        split
        · rw [List.getElem?_drop, List.getElem?_drop, Array.getElem?_toList, Array.getElem?_toList]
          exact hsame (k + 1 + m) (by omega)
        · rfl
      have hd := Bracket.distance?_take hn n.lt_succ_self
      rw [← htake] at hd
      have hfull := Bracket.distance?_append hd ((b'.tokens.toList.drop (k + 1)).drop (n + 1))
      rw [List.take_append_drop] at hfull
      rw [Option.bind_some, hfull]
      rfl

/-- In the second code, `d` tokens have been put in at place `i`. -/
structure Inserted (b b' : Brackets) (i d : Nat) : Prop where
  lt_size : i < b.size
  size : b'.size = b.size + d
  before {k : Nat} : k < i → b'.token? k = b.token? k
  behind {k : Nat} : i ≤ k → b'.token? (k + d) = b.token? k

namespace Inserted

variable {b b' : Brackets} {i d k : Nat} (h : Inserted b b' i d)
include h

/-! ## Places behind the insertion -/

theorem getElem (hk : i ≤ k) (hlt : k < b.size) (hlt' : k + d < b'.size) : b'.tokens[k + d] = b.tokens[k] := by
  have ht := h.behind hk
  rw [token?, token?, Array.getElem?_eq_getElem hlt', Array.getElem?_eq_getElem hlt] at ht
  exact Option.some.inj ht

theorem lt_size_iff : k + d < b'.size ↔ k < b.size := by
  rw [h.size]
  omega

theorem drop (hk : i ≤ k) : b'.tokens.toList.drop (k + d) = b.tokens.toList.drop k := by
  refine List.ext_getElem? fun m => ?_
  have ht := h.behind (k := k + m) (by omega)
  rw [List.getElem?_drop, List.getElem?_drop, Array.getElem?_toList, Array.getElem?_toList,
    show k + d + m = k + m + d by omega]
  exact ht

theorem isPunct (hk : i ≤ k) (text : String) : b'.isPunct (k + d) text = b.isPunct k text := by
  rw [Brackets.isPunct, Brackets.isPunct, h.behind hk]

theorem isOp (hk : i ≤ k) (text : String) : b'.isOp (k + d) text = b.isOp k text := by
  rw [Brackets.isOp, Brackets.isOp, h.behind hk]

theorem isIdent (hk : i ≤ k) : b'.isIdent (k + d) = b.isIdent k := by
  rw [Brackets.isIdent, Brackets.isIdent, h.behind hk]

theorem isWord (hk : i ≤ k) (text : String) : b'.isWord (k + d) text = b.isWord k text := by
  rw [Brackets.isWord, Brackets.isWord, h.behind hk]

theorem afterDot (hk : i < k) : b'.afterDot (k + d) = b.afterDot k := by
  have hplace : k + d - 1 = k - 1 + d := by omega
  rw [Brackets.afterDot, Brackets.afterDot, tokenBefore?, tokenBefore?, if_pos (by omega), if_pos (by omega), hplace]
  exact congrArg (Option.any _) (h.behind (k := k - 1) (by omega))

theorem endsDeclarator (hk : i ≤ k) : b'.endsDeclarator (k + d) = b.endsDeclarator k := by
  simp only [Brackets.endsDeclarator, h.isOp hk, h.isPunct hk]

theorem slice {start stop : Nat} (hstart : i ≤ start) : b'.slice (start + d) (stop + d) = b.slice start stop := by
  rw [Brackets.slice, Brackets.slice, Array.toList_extract, Array.toList_extract, List.extract_eq_take_drop,
    List.extract_eq_take_drop, h.drop hstart, Nat.add_sub_add_right]

theorem sourceText {start stop : Nat} (hstart : i ≤ start) :
    b'.sourceText (start + d) (stop + d) = b.sourceText start stop := by
  rw [Brackets.sourceText, Brackets.sourceText, h.slice hstart]

theorem isCast {start stop : Nat} (hstart : i ≤ start) (hstop : i ≤ stop) :
    b'.isCast (start + d) (stop + d) = b.isCast start stop := by
  rw [Brackets.isCast, Brackets.isCast, show stop + d + 1 = stop + 1 + d by omega, h.behind (by omega),
    show start + d + 1 = start + 1 + d by omega, h.slice (by omega)]

theorem isToString {stop : Nat} (hk : i ≤ k) : b'.isToString (k + d) (stop + d) = b.isToString k stop := by
  have hplace : (stop + d == k + d + 4) = (stop == k + 4) := by
    rw [Bool.eq_iff_iff, beq_iff_eq, beq_iff_eq]
    omega
  rw [Brackets.isToString, Brackets.isToString, hplace, h.isPunct hk, show k + d + 1 = k + 1 + d by omega,
    show k + d + 2 = k + 2 + d by omega, show k + d + 3 = k + 3 + d by omega, h.isWord (by omega),
    h.isPunct (by omega), h.isPunct (by omega)]

/-! ## Stretches of code behind the insertion -/

theorem closer? (hk : i ≤ k) : b'.closer? (k + d) = (b.closer? k).map (· + d) := by
  rw [closer?_eq, closer?_eq, h.behind hk, show k + d + 1 = k + 1 + d by omega, h.drop (by omega)]
  cases (b.token? k).bind Token.opens? with
  | none => rfl
  | some own =>
      rw [Option.bind_some, Option.bind_some, Option.map_map]
      refine congrArg (Option.map · _) (funext fun n => ?_)
      show k + d + n + 1 = k + n + 1 + d
      omega

theorem skipGroup (hk : i ≤ k) : b'.skipGroup (k + d) = b.skipGroup k + d := by
  rw [Brackets.skipGroup, Brackets.skipGroup, h.closer? hk]
  cases b.closer? k with
  | none => exact h.size
  | some j => exact Nat.add_right_comm j d 1

theorem skipPostfix {k : Nat} (hk : i ≤ k) : b'.skipPostfix (k + d) = b.skipPostfix k + d := by
  rw [Brackets.skipPostfix, Brackets.skipPostfix.eq_def b]
  by_cases hlt : k < b.size
  · have hlt' := h.lt_size_iff.2 hlt
    have hg := lt_skipGroup hlt
    have hmember : b'.isIdent (k + d + 1) = b.isIdent (k + 1) := by
      rw [show k + d + 1 = k + 1 + d by omega, h.isIdent (by omega)]
    rw [dif_pos hlt, dif_pos hlt']
    simp only [h.getElem hk hlt hlt', hmember, h.skipGroup hk]
    rw [show k + d + 2 = k + 2 + d by omega, skipPostfix (k := k + 2) (by omega),
      skipPostfix (k := b.skipGroup k) (by omega)]
    split
    · rfl
    · split <;> rfl
  · rw [dif_neg hlt, dif_neg (mt h.lt_size_iff.1 hlt)]
termination_by b.size - k

theorem skipGroups {k : Nat} (hk : i ≤ k) : b'.skipGroups (k + d) = b.skipGroups k + d := by
  rw [Brackets.skipGroups, Brackets.skipGroups.eq_def b]
  by_cases hlt : k < b.size
  · have hlt' := h.lt_size_iff.2 hlt
    have hg := lt_skipGroup hlt
    rw [dif_pos hlt, dif_pos hlt']
    simp only [h.getElem hk hlt hlt', h.skipGroup hk]
    rw [skipGroups (k := b.skipGroup k) (by omega)]
    split <;> rfl
  · rw [dif_neg hlt, dif_neg (mt h.lt_size_iff.1 hlt)]
termination_by b.size - k

theorem typeEnd {k : Nat} (depth : Int) (hk : i ≤ k) :
    b'.typeEnd depth (k + d) = ((b.typeEnd depth k).1 + d, (b.typeEnd depth k).2) := by
  rw [Brackets.typeEnd, Brackets.typeEnd.eq_def b]
  by_cases hlt : k < b.size
  · have hlt' := h.lt_size_iff.2 hlt
    have ih (depth : Int) := typeEnd (k := k + 1) depth (by omega)
    rw [dif_pos hlt, dif_pos hlt']
    simp only [h.getElem hk hlt hlt', show k + d + 1 = k + 1 + d by omega, ih]
    repeat' split
    all_goals rfl
  · rw [dif_neg hlt, dif_neg (mt h.lt_size_iff.1 hlt)]
termination_by b.size - k

theorem skipNew (hk : i ≤ k) : b'.skipNew (k + d) = b.skipNew k + d := by
  have htype := h.typeEnd 0 (k := k + 1) (by omega)
  have hle := b.le_typeEnd 0 (k + 1)
  rw [Brackets.skipNew, Brackets.skipNew, show k + d + 1 = k + 1 + d by omega, htype]
  generalize b.typeEnd 0 (k + 1) = r at hle
  obtain ⟨j, follows⟩ := r
  have hj : i ≤ j := by
    dsimp only at hle
    omega
  cases follows with
  | false => rfl
  | true =>
      have hgroups := b.le_skipGroups j
      dsimp only
      rw [h.skipGroups hj, h.isPunct (by omega)]
      split
      · next hbody =>
          have hlt := lt_skipGroup (lt_size_of_any hbody)
          rw [h.skipGroup (by omega), h.skipPostfix (by omega)]
      · rw [h.skipPostfix (by omega)]

theorem skipToStop {k : Nat} (stops : List String) (hk : i ≤ k) :
    b'.skipToStop stops (k + d) = b.skipToStop stops k + d := by
  rw [Brackets.skipToStop, Brackets.skipToStop.eq_def b]
  by_cases hlt : k < b.size
  · have hlt' := h.lt_size_iff.2 hlt
    have hg := lt_skipGroup hlt
    rw [dif_pos hlt, dif_pos hlt']
    simp only [h.getElem hk hlt hlt', h.skipGroup hk]
    rw [show k + d + 1 = k + 1 + d by omega, skipToStop (k := k + 1) stops (by omega),
      skipToStop (k := b.skipGroup k) stops (by omega)]
    split
    · rfl
    · split
      · rfl
      · split <;> rfl
  · rw [dif_neg hlt, dif_neg (mt h.lt_size_iff.1 hlt)]
termination_by b.size - k

/-! ## Looking back from the insertion -/

theorem tokenBefore? {n : Nat} (hk : k ≤ i) (hn : 0 < n) : b'.tokenBefore? k n = b.tokenBefore? k n := by
  unfold Brackets.tokenBefore?
  split
  · exact h.before (by omega)
  · rfl

theorem opener? (hk : k < i) : b'.opener? k = b.opener? k := by
  refine lastBelow_congr fun j _ => ?_
  rw [Bool.eq_iff_iff, beq_iff_eq, beq_iff_eq]
  exact ⟨closer?_of_same (fun n hn => (h.before hn).symm) hk, closer?_of_same (fun n hn => h.before hn) hk⟩

theorem dottedStart {n : Nat} (hn : n ≤ i) : b'.dottedStart n = b.dottedStart n := by
  rw [Brackets.dottedStart, Brackets.dottedStart.eq_def b, h.tokenBefore? hn Nat.two_pos,
    h.tokenBefore? hn (Nat.succ_pos 2)]
  split
  · rw [dottedStart (n := n - 2) (by omega)]
  · rfl
termination_by n

theorem beforeArguments {n : Nat} (hn : n ≤ i) : b'.beforeArguments n = b.beforeArguments n := by
  unfold Brackets.beforeArguments
  rw [h.tokenBefore? hn Nat.one_pos]
  cases n with
  | zero => rfl
  | succ n => rw [h.opener? (k := n + 1 - 1) (by omega)]

theorem annotationStart {n : Nat} (hn : n ≤ i) : b'.annotationStart n = b.annotationStart n := by
  have hb := b.beforeArguments_le n
  rw [Brackets.annotationStart, Brackets.annotationStart.eq_def b]
  simp only [h.beforeArguments hn, h.tokenBefore? (Nat.le_trans hb hn) Nat.one_pos,
    h.dottedStart (Nat.le_trans hb hn)]
  split
  · next hname =>
      have hd := b.dottedStart_lt hname.2
      rw [h.tokenBefore? (by omega) Nat.one_pos,
        annotationStart (n := b.dottedStart (b.beforeArguments n) - 1) (by omega)]
  · rfl
termination_by n

theorem atBoundary (hk : k ≤ i) : b'.atBoundary k = b.atBoundary k := by
  rw [Brackets.atBoundary, Brackets.atBoundary, h.tokenBefore? hk Nat.one_pos]

theorem atDeclarationBoundary (hk : k ≤ i) : b'.atDeclarationBoundary k = b.atDeclarationBoundary k := by
  have hle : b.annotationStart k ≤ i := Nat.le_trans (b.annotationStart_le k) hk
  unfold Brackets.atDeclarationBoundary
  dsimp only
  rw [h.annotationStart hk, h.atBoundary hle, h.tokenBefore? hle Nat.one_pos]

end Inserted

/-- Tokens put in between others. -/
theorem inserted_ofTokens (before more : List Token) {rest : List Token} (hrest : rest ≠ []) :
    Inserted (ofTokens (before ++ rest)) (ofTokens (before ++ (more ++ rest))) before.length more.length where
  lt_size := by
    have hpos := List.length_pos_iff.2 hrest
    show before.length < (before ++ rest).toArray.size
    rw [List.size_toArray, List.length_append]
    omega
  size := by
    simp only [Brackets.size, ofTokens, List.size_toArray, List.length_append]
    omega
  before hk := by
    simp only [token?, ofTokens, List.getElem?_toArray, List.getElem?_append_left hk]
  behind {k} hk := by
    simp only [token?, ofTokens, List.getElem?_toArray]
    rw [← List.append_assoc, List.getElem?_append_right (by simp; omega), List.getElem?_append_right hk]
    congr 1
    rw [List.length_append]
    omega

end Brackets

end EmbeddedSql
