/-
# Code with more behind it

Nothing that is asked about a place of complete code is answered by what stands behind the code.
Questions that look ahead do so token by token, and only behind a token that is not the closing
semicolon; a search for the end of a stretch ends before the semicolon or at it; all other questions
look back.  So the answers are the same for the code and for the code with more behind it.
-/
import EmbeddedSql.Flow.Loose
import EmbeddedSql.Proofs.Scope.Complete

namespace EmbeddedSql

/-- What stands behind a test counts only if the test succeeds. -/
theorem and_eq_and {p q q' : Bool} (h : p = true → q' = q) : (p && q') = (p && q) := by
  cases p with
  | false => rfl
  | true => exact congrArg (true && ·) (h rfl)

theorem Bracket.distance?_append {own : Bracket} {inner : List Bracket} {tokens : List Token}
    {n : Nat} (h : own.distance? inner tokens = some n) (more : List Token) :
    own.distance? inner (tokens ++ more) = some n := by
  induction tokens generalizing inner n with
  | nil => cases h
  | cons t rest ih =>
      rw [distance?] at h
      rw [List.cons_append, distance?]
      cases ho : t.opens? with
      | some b =>
          rw [ho] at h
          obtain ⟨m, hm, rfl⟩ := Option.map_eq_some_iff.1 h
          exact congrArg (Option.map (· + 1)) (ih hm)
      | none =>
          cases hc : t.closes? with
          | none =>
              rw [ho, hc] at h
              obtain ⟨m, hm, rfl⟩ := Option.map_eq_some_iff.1 h
              exact congrArg (Option.map (· + 1)) (ih hm)
          | some b =>
              rw [ho, hc] at h
              dsimp only at h ⊢
              split at h
              · obtain ⟨m, hm, rfl⟩ := Option.map_eq_some_iff.1 h
                exact congrArg (Option.map (· + 1)) (ih hm)
              · exact h

namespace Brackets

/-- Only the numbers below the bound are looked at. -/
theorem lastBelow_congr {p q : Nat → Bool} {n : Nat} (h : ∀ i < n, p i = q i) :
    lastBelow p n = lastBelow q n := by
  induction n with
  | zero => rfl
  | succ n ih =>
      rw [lastBelow, lastBelow, h n n.lt_succ_self, ih fun i hi => h i (Nat.lt_succ_of_lt hi)]

theorem annotationStart_le (b : Brackets) (n : Nat) : b.annotationStart n ≤ n := by
  fun_induction annotationStart b n with
  | case1 n nameEnd hname start _ ih =>
      have hb := b.beforeArguments_le n
      have hd := b.dottedStart_lt hname.2
      omega
  | case2 => exact Nat.le_refl _
  | case3 => exact Nat.le_refl _

/-- The first code is complete, and the second one begins with it. -/
structure Begins (b b' : Brackets) : Prop extends Complete b where
  tokens : b.tokens.toList <+: b'.tokens.toList

namespace Begins

variable {b b' : Brackets} (h : Begins b b') {i j : Nat}
include h

/-! ## Places -/

theorem size_le : b.size ≤ b'.size := by
  have := h.tokens.length_le
  simpa using this

theorem token? (hi : i < b.size) : b'.token? i = b.token? i := by
  have ht := List.prefix_iff_getElem?.1 h.tokens i (by simpa using hi)
  rw [Brackets.token?, Brackets.token?, ← Array.getElem?_toList, ht, Array.getElem?_eq_getElem hi,
    Array.getElem_toList]

theorem getElem (hi : i < b.size) (hi' : i < b'.size) : b'.tokens[i] = b.tokens[i] := by
  have ht := h.token? hi
  rw [Brackets.token?, Brackets.token?, Array.getElem?_eq_getElem hi',
    Array.getElem?_eq_getElem hi] at ht
  exact Option.some.inj ht

theorem tokenBefore? {n : Nat} (hi : i ≤ b.size) (hn : 0 < n) :
    b'.tokenBefore? i n = b.tokenBefore? i n := by
  unfold Brackets.tokenBefore?
  split
  · exact h.token? (by omega)
  · rfl

theorem isPunct (hi : i < b.size) (text : String) : b'.isPunct i text = b.isPunct i text := by
  rw [Brackets.isPunct, Brackets.isPunct, h.token? hi]

theorem isOp (hi : i < b.size) (text : String) : b'.isOp i text = b.isOp i text := by
  rw [Brackets.isOp, Brackets.isOp, h.token? hi]

theorem isIdent (hi : i < b.size) : b'.isIdent i = b.isIdent i := by
  rw [Brackets.isIdent, Brackets.isIdent, h.token? hi]

theorem isWord (hi : i < b.size) (text : String) : b'.isWord i text = b.isWord i text := by
  rw [Brackets.isWord, Brackets.isWord, h.token? hi]

theorem isWordIn (hi : i < b.size) (words : List String) :
    b'.isWordIn i words = b.isWordIn i words := by
  rw [Brackets.isWordIn, Brackets.isWordIn, h.token? hi]

theorem afterDot (hi : i ≤ b.size) : b'.afterDot i = b.afterDot i := by
  rw [Brackets.afterDot, Brackets.afterDot, h.tokenBefore? hi Nat.one_pos]

theorem slice {start stop : Nat} (hstop : stop ≤ b.size) : b'.slice start stop = b.slice start stop := by
  obtain ⟨more, hmore⟩ := h.tokens
  simp only [Brackets.slice, Array.toList_extract, List.take_drop]
  rw [← hmore]
  by_cases hle : start ≤ stop
  · rw [Nat.add_sub_cancel' hle, List.take_append_of_le_length (by simpa using hstop)]
  · rw [Nat.sub_eq_zero_of_le (by omega)]
    simp

/-! ## Groups -/

theorem drop (hi : i ≤ b.size) :
    ∃ more, b'.tokens.toList.drop i = b.tokens.toList.drop i ++ more := by
  obtain ⟨more, hmore⟩ := h.tokens
  rw [← hmore]
  exact ⟨more, List.drop_append_of_le_length (by simpa using hi)⟩

theorem closer? (hi : i < b.size) : b'.closer? i = b.closer? i := by
  have ht : b.token? i = some b.tokens[i] := Array.getElem?_eq_getElem hi
  cases ho : b.tokens[i].opens? with
  | none =>
      rw [closer?_eq, closer?_eq, h.token? hi, ht, Option.bind_some, ho]
      rfl
  | some own =>
      obtain ⟨j, hj⟩ := exists_closer? h.balanced ht ho
      obtain ⟨more, hmore⟩ := h.drop (i := i + 1) hi
      rw [closer?_eq, ht, Option.bind_some, ho, Option.bind_some] at hj
      obtain ⟨n, hn, -⟩ := Option.map_eq_some_iff.1 hj
      rw [closer?_eq, closer?_eq, h.token? hi, ht, Option.bind_some, ho, Option.bind_some,
        Option.bind_some, hmore, hn, Bracket.distance?_append hn]

theorem opener? (hj : j < b.size) : b'.opener? j = b.opener? j := by
  refine lastBelow_congr fun i hi => ?_
  rw [h.closer? (Nat.lt_trans hi hj)]

theorem skipGroup {t : Token} (ht : b.token? i = some t) (ho : t.opens?.isSome = true) :
    b'.skipGroup i = b.skipGroup i := by
  obtain ⟨j, hj⟩ := h.exists_closer ht ho
  obtain ⟨hi, -⟩ := Array.getElem?_eq_some_iff.1 ht
  rw [Brackets.skipGroup, Brackets.skipGroup, h.closer? hi, hj]

/-! ## Stretches of code -/

theorem skipPostfix {i : Nat} (hi : i < b.size) : b'.skipPostfix i = b.skipPostfix i := by
  have hi' : i < b'.size := Nat.lt_of_lt_of_le hi h.size_le
  have ht : b.token? i = some b.tokens[i] := Array.getElem?_eq_getElem hi
  have hmember : ((b.tokens[i].isPunct "." || b.tokens[i].isOp "::") && b'.isIdent (i + 1))
      = ((b.tokens[i].isPunct "." || b.tokens[i].isOp "::") && b.isIdent (i + 1)) := by
    refine and_eq_and fun hm => h.isIdent (h.succ_lt ht ?_)
    rcases Bool.or_eq_true_iff.1 hm with hp | hp
    · exact Token.isPunct_of_ne hp (by decide)
    · simp only [Token.isOp, Bool.and_eq_true, beq_iff_eq] at hp
      exact Token.isPunct_of_kind (by simp [hp.1]) ";"
  rw [Brackets.skipPostfix, Brackets.skipPostfix.eq_def b, dif_pos hi, dif_pos hi']
  simp only [h.getElem hi hi', hmember]
  split
  · next hm =>
      exact skipPostfix (h.succ_lt_of_isIdent (Bool.and_eq_true_iff.1 hm).2)
  · split
    · next hopening =>
        have ho := Token.isSome_opens?_of_or hopening
        have hg := lt_skipGroup hi
        rw [h.skipGroup ht ho]
        exact skipPostfix (h.skipGroup_lt ht ho)
    · rfl
termination_by b.size - i

theorem skipGroups {i : Nat} (hi : i < b.size) : b'.skipGroups i = b.skipGroups i := by
  have hi' : i < b'.size := Nat.lt_of_lt_of_le hi h.size_le
  have ht : b.token? i = some b.tokens[i] := Array.getElem?_eq_getElem hi
  rw [Brackets.skipGroups, Brackets.skipGroups.eq_def b, dif_pos hi, dif_pos hi']
  simp only [h.getElem hi hi']
  split
  · next hopening =>
      have ho := Token.isSome_opens?_of_or hopening
      have hg := lt_skipGroup hi
      rw [h.skipGroup ht ho]
      exact skipGroups (h.skipGroup_lt ht ho)
  · rfl
termination_by b.size - i

theorem typeEnd {n : Nat} (hn : nameLength? (b.tokens.toList.drop (i + 1)) = some n) :
    b'.typeEnd 0 (i + 1) = (i + 1 + n, true) := by
  refine typeEnd_eq hn fun k u hu => ?_
  rw [List.getElem?_drop, Array.getElem?_toList] at hu
  obtain ⟨hk, -⟩ := Array.getElem?_eq_some_iff.1 hu
  rw [h.token? hk, Brackets.token?, hu]

theorem skipNew (hnew : b.isWord i "new" = true) : b'.skipNew i = b.skipNew i := by
  obtain ⟨n, hn, hlt⟩ := h.exists_typeEnd hnew
  have hg : b.skipGroups (i + 1 + n) < b.size := h.skipGroups_lt hlt
  rw [Brackets.skipNew, Brackets.skipNew, typeEnd_of_creation hn, h.typeEnd hn]
  dsimp only
  rw [h.skipGroups hlt, h.isPunct hg]
  split
  · next hbody =>
      obtain ⟨t, ht, hp⟩ := (Option.any_eq_true _ _).1 hbody
      have ho := Token.isSome_opens? hp (by simp)
      rw [h.skipGroup ht ho]
      exact h.skipPostfix (h.skipGroup_lt ht ho)
  · exact h.skipPostfix hg

theorem skipToStop {stops : List String} (hstops : stops.contains ";" = true) {i : Nat}
    (hi : i < b.size) : b'.skipToStop stops i = b.skipToStop stops i := by
  have hi' : i < b'.size := Nat.lt_of_lt_of_le hi h.size_le
  have ht : b.token? i = some b.tokens[i] := Array.getElem?_eq_getElem hi
  rw [Brackets.skipToStop, Brackets.skipToStop.eq_def b, dif_pos hi, dif_pos hi']
  simp only [h.getElem hi hi']
  split
  · rfl
  · next hstop =>
      split
      · next ho =>
          have hg := lt_skipGroup hi
          rw [h.skipGroup ht ho]
          exact skipToStop hstops (h.skipGroup_lt ht ho)
      · split
        · rfl
        · exact skipToStop hstops (h.succ_lt ht (isPunct_of_not_stop hstops hstop))
termination_by b.size - i

/-! ## Calls -/

theorem receiverPath {n : Nat} (path : List String) (hn : n ≤ b.size) :
    b'.receiverPath n path = b.receiverPath n path := by
  rw [Brackets.receiverPath, Brackets.receiverPath.eq_def b]
  split
  · next hle =>
      rw [h.isPunct (by omega), h.token? (by omega), h.opener? (by omega)]
      cases b.token? (n - 2) with
      | none => rfl
      | some link =>
          dsimp only
          rw [receiverPath (link.text :: path) (by omega)]
          cases b.opener? (n - 2) with
          | none => rfl
          | some o =>
              have ho := o.isLt
              dsimp only
              rw [h.tokenBefore? (by omega) Nat.one_pos]
              cases b.tokenBefore? o 1 with
              | none => rfl
              | some callee =>
                  dsimp only
                  rw [receiverPath ((callee.text ++ "()") :: path) (by omega)]
  · rfl
termination_by n

theorem callAt (hi : i ≤ b.size) : b'.callAt i = b.callAt i := by
  unfold Brackets.callAt
  rw [h.tokenBefore? hi Nat.one_pos, h.tokenBefore? hi Nat.two_pos,
    h.receiverPath [] (Nat.le_trans (Nat.sub_le i 1) hi)]

theorem frameAt (classifier : Classifier) (hi : b.isPunct i "(" = true) :
    b'.frameAt classifier i = b.frameAt classifier i := by
  obtain ⟨j, hj⟩ := exists_closer?_of_paren h.balanced hi
  have hlt := lt_size_of_any hi
  unfold Brackets.frameAt
  rw [h.callAt (Nat.le_of_lt hlt), h.closer? hlt, hj]
  rfl

/-- The frames around the tokens of the code are those around them in the longer one. -/
theorem framesFrom (classifier : Classifier) (around : List Frame) (tokens more : List Token)
    (ht : tokens = b.tokens.toList.drop i) :
    b.framesFrom classifier i around tokens <+:
      b'.framesFrom classifier i around (tokens ++ more) := by
  induction tokens generalizing i around with
  | nil => exact List.nil_prefix
  | cons t rest ih =>
      have hi : b.token? i = some t := by
        have := congrArg (·[0]?) ht
        simpa [Brackets.token?] using this.symm
      have hrest : rest = b.tokens.toList.drop (i + 1) := by
        rw [← List.drop_drop, ← ht]
        rfl
      rw [List.cons_append, Brackets.framesFrom, Brackets.framesFrom]
      refine List.cons_prefix_cons.2 ⟨rfl, ?_⟩
      have hnext : (if t.isPunct "(" then b'.frameAt classifier i :: around
            else if t.isPunct ")" then around.tail else around)
          = if t.isPunct "(" then b.frameAt classifier i :: around
            else if t.isPunct ")" then around.tail else around := by
        split
        · next hp => rw [h.frameAt classifier (by rw [Brackets.isPunct, hi, Option.any_some, hp])]
        · rfl
      rw [hnext]
      exact ih _ hrest

/-! ## Statement boundaries -/

theorem dottedStart {n : Nat} (hn : n ≤ b.size) : b'.dottedStart n = b.dottedStart n := by
  rw [Brackets.dottedStart, Brackets.dottedStart.eq_def b, h.tokenBefore? hn Nat.two_pos,
    h.tokenBefore? hn (Nat.succ_pos 2)]
  split
  · rw [dottedStart (n := n - 2) (by omega)]
  · rfl
termination_by n

theorem beforeArguments {n : Nat} (hn : n ≤ b.size) :
    b'.beforeArguments n = b.beforeArguments n := by
  have hpos := h.size_pos
  unfold Brackets.beforeArguments
  rw [h.tokenBefore? hn Nat.one_pos, h.opener? (by omega)]

theorem annotationStart {n : Nat} (hn : n ≤ b.size) :
    b'.annotationStart n = b.annotationStart n := by
  have hb := b.beforeArguments_le n
  rw [Brackets.annotationStart, Brackets.annotationStart.eq_def b]
  simp only [h.beforeArguments hn, h.tokenBefore? (Nat.le_trans hb hn) Nat.one_pos,
    h.dottedStart (Nat.le_trans hb hn)]
  split
  · next hname =>
      have hd := b.dottedStart_lt hname.2
      rw [h.tokenBefore? (by omega) Nat.one_pos,
        annotationStart (n := b.dottedStart (b.beforeArguments n) - 1) (by omega)]
  · rfl
termination_by n

theorem atBoundary (hi : i ≤ b.size) : b'.atBoundary i = b.atBoundary i := by
  rw [Brackets.atBoundary, Brackets.atBoundary, h.tokenBefore? hi Nat.one_pos]

theorem atDeclarationBoundary (hi : i ≤ b.size) :
    b'.atDeclarationBoundary i = b.atDeclarationBoundary i := by
  have hle : b.annotationStart i ≤ b.size := Nat.le_trans (b.annotationStart_le i) hi
  unfold Brackets.atDeclarationBoundary
  dsimp only
  rw [h.annotationStart hi, h.atBoundary hle, h.tokenBefore? hle Nat.one_pos]

theorem endsDeclarator (hi : i < b.size) : b'.endsDeclarator i = b.endsDeclarator i := by
  simp only [Brackets.endsDeclarator, h.isOp hi, h.isPunct hi]

/-! ## Expressions -/

theorem isCast {close : Nat} (hclose : close + 1 < b.size) :
    b'.isCast i close = b.isCast i close := by
  unfold Brackets.isCast
  rw [h.token? hclose, h.slice (by omega)]

theorem isToString (hi : i < b.size) (stop : Nat) : b'.isToString i stop = b.isToString i stop := by
  unfold Brackets.isToString
  simp only [Bool.and_assoc, h.isPunct hi]
  refine and_eq_and fun _ => and_eq_and fun hdot => ?_
  have h₁ : i + 1 < b.size := h.succ_lt_of_isPunct hdot (by decide)
  rw [h.isWord h₁]
  refine and_eq_and fun hword => ?_
  have h₂ : i + 2 < b.size := h.succ_lt_of_word hword
  rw [h.isPunct h₂]
  refine and_eq_and fun hopening => ?_
  exact h.isPunct (h.succ_lt_of_isPunct hopening (by decide)) ")"

theorem sourceText {start stop : Nat} (hstop : stop ≤ b.size) :
    b'.sourceText start stop = b.sourceText start stop := by
  rw [Brackets.sourceText, Brackets.sourceText, h.slice hstop]

theorem pullIn (lower start : Nat) (hstart : start < b.size) :
    b'.pullIn lower start = b.pullIn lower start := by
  rw [Brackets.pullIn, Brackets.pullIn.eq_def b, h.isOp (by omega), h.isIdent (by omega),
    h.isWordIn (by omega), h.afterDot (by omega)]
  split
  · rw [pullIn lower (start - 2) (by omega)]
  · rfl
termination_by start

end Begins

end Brackets

end EmbeddedSql
