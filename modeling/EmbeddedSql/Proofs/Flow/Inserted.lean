/-
# A declaration with something put before it

A declaration is followed from the place of its type on.  Where it stands makes no difference to its names: if tokens
are put in before it, it binds and declares the same, that many places further on (`FlowContext.Inserted.declarators`).
Two things may differ and are left out of the comparison (`FlowState.Like`): what has been reported, which depends on the
calls around the declaration, and which literals have been read, which are places.

So the two cannot be expected to fail alike either, and only results are compared (`BothGive`).
-/
import EmbeddedSql.Proofs.Flow.Written.Untouched
import EmbeddedSql.Proofs.Scope.Inserted

namespace EmbeddedSql

/-- If both computations have results, these are related. -/
def BothGive {ε α β : Type} (R : α → β → Prop) (o : Except ε α) (o' : Except ε β) : Prop :=
  ∀ a a', o = .ok a → o' = .ok a' → R a a'

namespace BothGive

variable {ε α α' β β' : Type} {R : α → α' → Prop} {Q : β → β' → Prop} {o : Except ε α} {o' : Except ε α'}

theorem result {a : α} {a' : α'} (h : R a a') : BothGive R (.ok a : Except ε α) (.ok a') := by
  rintro _ _ ⟨⟩ ⟨⟩
  exact h

theorem bind {f : α → Except ε β} {f' : α' → Except ε β'} (h : BothGive R o o')
    (hf : ∀ a a', R a a' → BothGive Q (f a) (f' a')) : BothGive Q (o >>= f) (o' >>= f') := by
  intro b b' hb hb'
  obtain ⟨a, ha, hb⟩ := ok_of_bind_eq_ok hb
  obtain ⟨a', ha', hb'⟩ := ok_of_bind_eq_ok hb'
  exact hf a a' (h a a' ha ha') b b' hb hb'

theorem map {f : α → β} {f' : α' → β'} (h : BothGive R o o') (hf : ∀ a a', R a a' → Q (f a) (f' a')) :
    BothGive Q (o.map f) (o'.map f') := by
  intro b b' hb hb'
  obtain ⟨a, ha, rfl⟩ := ok_of_map_eq_ok hb
  obtain ⟨a', ha', rfl⟩ := ok_of_map_eq_ok hb'
  exact hf a a' (h a a' ha ha')

/-- What is known of the first result. -/
theorem and_left {P : α → Prop} (h : BothGive R o o') (hP : ∀ a, o = .ok a → P a) :
    BothGive (fun a a' => R a a' ∧ P a) o o' :=
  fun a a' ha ha' => ⟨h a a' ha ha', hP a ha⟩

theorem of_endAlike (h : EndAlike R o o') : BothGive R o o' := by
  rintro a a' rfl rfl
  cases h with
  | ok hr => exact hr

end BothGive

/-! ## States -/

namespace Arena

theorem unmarked_put (arena : Arena) (v : Variable) : (arena.put v).unmarked = arena.unmarked.put v.unmarked := by
  induction arena with
  | nil => rfl
  | cons w rest ih =>
      show _ = put (w.unmarked :: unmarked rest) v.unmarked
      have hname : (w.unmarked.name == v.unmarked.name) = (w.name == v.name) := rfl
      rw [put, put, hname]
      split
      · rfl
      · exact congrArg (w.unmarked :: ·) ih

theorem unmarked_erase (arena : Arena) (name : String) :
    (arena.erase name).unmarked = arena.unmarked.erase name := by
  rw [unmarked, unmarked, erase, erase, List.filter_map]
  rfl

theorem like_of_unmarked {arena arena' : Arena} (h : arena'.unmarked = arena.unmarked) : arena.Like arena' := by
  have hget (arena : Arena) (name : String) : (arena.get? name).map Variable.unmarked = arena.unmarked.get? name := by
    rw [unmarked, get?, get?, List.find?_map]
    rfl
  intro name
  rw [LikeAt, hget, hget, h]

end Arena

/-- The variables and the declared names are the same, up to marks. -/
structure FlowState.Like (s s' : FlowState) : Prop where
  arena : s'.arena.unmarked = s.arena.unmarked
  declared : s'.declared = s.declared

namespace FlowState.Like

variable {s s' : FlowState} (h : s.Like s')
include h

theorem value? (name : String) : s'.arena.value? name = s.arena.value? name :=
  (Arena.like_of_unmarked h.arena name).value?_eq

theorem commit (e e' : Expression) : (s.commit e).Like (s'.commit e') := ⟨h.arena, h.declared⟩

theorem bind {v v' : Variable} (hv : v'.unmarked = v.unmarked) : (s.bind v).Like (s'.bind v') where
  arena := by
    show (s'.arena.put v').unmarked = (s.arena.put v).unmarked
    rw [Arena.unmarked_put, Arena.unmarked_put, h.arena, hv]
  declared := h.declared

theorem modify (name : String) {change change' : Variable → Variable}
    (hchange : ∀ v v', v'.unmarked = v.unmarked → (change' v').unmarked = (change v).unmarked) :
    (s.modify name change).Like (s'.modify name change') := by
  have hlike := Arena.like_of_unmarked h.arena name
  unfold Arena.LikeAt at hlike
  unfold FlowState.modify
  cases hv : s.arena.get? name with
  | none =>
      rw [hv, Option.map_none, Option.map_eq_none_iff] at hlike
      rw [hlike]
      exact h
  | some v =>
      rw [hv, Option.map_some, Option.map_eq_some_iff] at hlike
      obtain ⟨v', hv', hsame⟩ := hlike
      rw [hv']
      exact h.bind (hchange v v' hsame)

theorem declareKind (name : String) (kind : VariableKind) : (s.declareKind name kind).Like (s'.declareKind name kind) where
  arena := h.arena
  declared := by rw [FlowState.declareKind, FlowState.declareKind, h.declared]

end FlowState.Like

theorem Variable.extend_unmarked {v v' : Variable} (h : v'.unmarked = v.unmarked) (fragments : List Fragment)
    (line : Nat) : (v'.extend fragments line).unmarked = (v.extend fragments line).unmarked := by
  show v'.unmarked.extend fragments line = v.unmarked.extend fragments line
  rw [h]

/-! ## Expressions -/

/-- The second expression has the same fragments and ends `d` places further on. -/
structure Expression.Moved (d : Nat) (e e' : Expression) : Prop where
  fragments : e'.fragments = e.fragments
  stop : e'.stop = e.stop + d

/-- The same of operands. -/
abbrev Operand.Moved {k k' : Nat} (d : Nat) (o : Operand k) (o' : Operand k') : Prop :=
  o.toExpression.Moved d o'.toExpression

namespace Brackets.Inserted

variable {b b' : Brackets} {i d k : Nat} (h : Inserted b b' i d) {arena arena' : Arena}
include h

theorem unknown {start stop stop' : Nat} (line : Nat) (hstart : i ≤ start) (hstop : stop' = stop + d)
    (hlt : start < stop) (hlt' : start + d < stop') :
    (b.unknown line stop hlt).Moved d (b'.unknown line stop' hlt') := by
  subst hstop
  exact ⟨congrArg (fun source => [Fragment.unknown source line]) (h.sourceText hstart), rfl⟩

theorem reference (harena : ∀ name, arena'.value? name = arena.value? name) (hk : i < k) (t : Token) :
    (b.reference arena k t).Moved d (b'.reference arena' (k + d) t) := by
  have hplace : k + d + 1 = k + 1 + d := by omega
  have hpost : b'.skipPostfix (k + d + 1) = b.skipPostfix (k + 1) + d := by rw [hplace, h.skipPostfix (by omega)]
  have hlt : k < b.skipPostfix (k + 1) := b.le_skipPostfix (k + 1)
  have hlt' : k + d < b'.skipPostfix (k + d + 1) := b'.le_skipPostfix (k + d + 1)
  have hunknown := (h.unknown t.startLine (Nat.le_of_lt hk) hpost hlt hlt').fragments
  have hbare : (b'.skipPostfix (k + d + 1) == k + d + 1 || b'.isToString (k + d + 1) (b'.skipPostfix (k + d + 1))) =
      (b.skipPostfix (k + 1) == k + 1 || b.isToString (k + 1) (b.skipPostfix (k + 1))) := by
    rw [hpost, hplace, h.isToString (by omega)]
    refine congrArg (· || _) ?_
    rw [Bool.eq_iff_iff, beq_iff_eq, beq_iff_eq, Nat.add_right_cancel_iff]
  refine ⟨?_, (reference_stop ..).trans (hpost.trans (congrArg (· + d) (reference_stop ..).symm))⟩
  show (b'.reference arena' (k + d) t).fragments = (b.reference arena k t).fragments
  unfold Brackets.reference
  dsimp only
  rw [h.afterDot hk, hbare]
  cases b.afterDot k with
  | true => exact hunknown
  | false =>
      have hvalue := harena t.text
      rw [Arena.value?, Arena.value?] at hvalue
      simp only [Bool.false_eq_true, if_false]
      cases hv : arena.get? t.text with
      | none =>
          rw [hv, Option.map_none, Option.map_eq_none_iff] at hvalue
          rw [hvalue]
          exact hunknown
      | some v =>
          rw [hv, Option.map_some, Option.map_eq_some_iff] at hvalue
          obtain ⟨v', hv', hfragments⟩ := hvalue
          rw [hv']
          dsimp only
          split
          · exact hfragments
          · exact hunknown

mutual
/-- An expression has the same fragments, and it goes as far. -/
theorem expression (harena : ∀ name, arena'.value? name = arena.value? name) {k : Nat} (hk : i < k) :
    EndAlike (Expression.Moved d) (b.expression arena k) (b'.expression arena' (k + d)) := by
  rw [Brackets.expression, Brackets.expression]
  refine (operand harena hk).bind fun o o' ho => ?_
  cases ho with
  | none => exact .ok ⟨rfl, rfl⟩
  | @some first first' hfirst =>
      have hstop : first'.stop = first.stop + d := hfirst.stop
      have hlt := first.start_lt_stop
      have hplus : b'.isOp first'.stop "+" = b.isOp first.stop "+" := by
        rw [hstop, h.isOp (by omega)]
      dsimp only
      by_cases hp : b.isOp first.stop "+" = true
      · have hlt' : first.stop < b.size := lt_size_of_any hp
        rw [dif_pos hp, dif_pos (hplus.trans hp), hstop, show first.stop + d + 1 = first.stop + 1 + d by omega]
        refine (expression harena (k := first.stop + 1) (by omega)).bind fun rest rest' hrest => ?_
        exact .ok ⟨congrArg₂ _ hfirst.fragments hrest.fragments, hrest.stop⟩
      · rw [dif_neg hp, dif_neg (hplus ▸ hp)]
        exact .ok hfirst
termination_by (b.size - k, 2)

theorem operand (harena : ∀ name, arena'.value? name = arena.value? name) {k : Nat} (hk : i < k) :
    EndAlike (Option.Rel (Operand.Moved d)) (b.operand arena k) (b'.operand arena' (k + d)) := by
  rw [Brackets.operand, Brackets.operand]
  by_cases hlt : k < b.size
  · have hlt' := h.lt_size_iff.2 hlt
    have hplace : k + d + 1 = k + 1 + d := by omega
    rw [dif_pos hlt, dif_pos hlt']
    simp only [h.getElem (Nat.le_of_lt hk) hlt hlt']
    cases hkind : b.tokens[k].kind with
    | stringLiteral =>
        refine .rfl_map fun v => .some ⟨rfl, ?_⟩
        show b'.skipPostfix (k + d + 1) = b.skipPostfix (k + 1) + d
        rw [hplace, h.skipPostfix (by omega)]
    | other =>
        dsimp only
        split
        · exact .rfl_map fun v => .some ⟨rfl, hplace⟩
        · split
          · exact .ok (.some ⟨rfl, hplace⟩)
          · exact .ok .none
    | punctuation =>
        dsimp only
        split
        · exact (group harena hk hlt hlt').map fun _ _ hg => .some hg
        · exact .ok .none
    | identifier =>
        dsimp only
        split
        · exact .ok .none
        · split
          · exact .ok (.some (h.unknown _ (Nat.le_of_lt hk) (h.skipNew (Nat.le_of_lt hk)) _ _))
          · exact .ok (.some (h.reference harena hk _))
    | _ => exact .ok .none
  · rw [dif_neg hlt, dif_neg (mt h.lt_size_iff.1 hlt)]
    exact .ok .none
termination_by (b.size - k, 1)

theorem group (harena : ∀ name, arena'.value? name = arena.value? name) {k : Nat} (hk : i < k) (hlt : k < b.size)
    (hlt' : k + d < b'.size) :
    EndAlike (Operand.Moved d) (b.group arena k hlt) (b'.group arena' (k + d) hlt') := by
  cases hc : b.closer? k with
  | none =>
      have hclose : b'.closer? (k + d) = none := by rw [h.closer? (Nat.le_of_lt hk), hc, Option.map_none]
      rw [group_of_unclosed arena hlt hc, group_of_unclosed arena' hlt' hclose]
      simp only [h.getElem (Nat.le_of_lt hk) hlt hlt']
      exact .ok (h.unknown _ (Nat.le_of_lt hk) h.size _ _)
  | some close =>
      have hclose : b'.closer? (k + d) = some (close + d) := by
        rw [h.closer? (Nat.le_of_lt hk), hc, Option.map_some]
      have hgt : k < close := lt_of_closer? hc
      have hplace : close + d + 1 = close + 1 + d := by omega
      have hpost : b'.skipPostfix (close + d + 1) = b.skipPostfix (close + 1) + d := by
        rw [hplace, h.skipPostfix (by omega)]
      have hs : k < b.skipPostfix (close + 1) := Nat.lt_of_lt_of_le (by omega) (b.le_skipPostfix (close + 1))
      rw [group_of_closed arena hlt hc hgt hs,
        group_of_closed arena' hlt' hclose (by omega) (by rw [hpost]; omega)]
      have hcast : EndAlike (Option.Rel (Operand.Moved d))
          (if b.isCast k close then b.operand arena (close + 1) else .ok none)
          (if b'.isCast (k + d) (close + d) then b'.operand arena' (close + d + 1) else .ok none) := by
        rw [h.isCast (by omega) (by omega), hplace]
        split
        · exact operand harena (k := close + 1) (by omega)
        · exact .ok .none
      refine hcast.bind fun o o' ho => ?_
      cases ho with
      | some ho => exact .ok ⟨ho.fragments, ho.stop⟩
      | none =>
          rw [show k + d + 1 = k + 1 + d by omega]
          refine (expression harena (k := k + 1) (by omega)).bind fun e e' he => ?_
          have hfills : (e'.stop = close + d ∧ e'.fragments ≠ []) ↔ (e.stop = close ∧ e.fragments ≠ []) := by
            rw [he.stop, he.fragments, Nat.add_right_cancel_iff]
          by_cases hf : e.stop = close ∧ e.fragments ≠ []
          · rw [if_pos hf, if_pos (hfills.2 hf)]
            exact .ok ⟨he.fragments, hpost⟩
          · rw [if_neg hf, if_neg (mt hfills.1 hf)]
            simp only [h.getElem (Nat.le_of_lt hk) hlt hlt']
            exact .ok (h.unknown _ (Nat.le_of_lt hk) hpost _ _)
termination_by (b.size - k, 0)
end

end Brackets.Inserted

namespace FlowContext

/-! ## Reading loosely -/

theorem scanFrom_like {cx : FlowContext} {s s' : FlowState} {lower i stop : Nat}
    (h : cx.scanFrom s lower i stop = .ok s') : s.Like s' := by
  rw [scanFrom] at h
  split at h
  · next hlt =>
      obtain ⟨r, hr, h⟩ := ok_of_bind_eq_ok h
      have huntouched := (cx.looseToken_untouched s (by omega)).of_ok hr
      have hrest := scanFrom_like h
      exact ⟨hrest.arena.trans huntouched.arena, hrest.declared.trans huntouched.declared⟩
  · cases h
    exact ⟨rfl, rfl⟩
termination_by min stop cx.scope.size - i

/-- In the second scope, `d` tokens have been put in at place `i`. -/
structure Inserted (cx cx' : FlowContext) (i d : Nat) : Prop where
  code : cx.scope.toBrackets.Inserted cx'.scope.toBrackets i d
  rules : cx'.rules = cx.rules

/-- The same variables, and a place `d` further on. -/
structure MovedOn (d : Nat) (r r' : FlowState × Nat) : Prop where
  like : r.1.Like r'.1
  place : r'.2 = r.2 + d

namespace Inserted

variable {cx cx' : FlowContext} {i d k : Nat} (h : cx.Inserted cx' i d) {s s' : FlowState} (hs : s.Like s')

include hs in
theorem scanLoose {start stop start' stop' : Nat} :
    BothGive FlowState.Like (cx.scanLoose s start stop) (cx'.scanLoose s' start' stop') := by
  intro r r' hr hr'
  have hlike := scanFrom_like hr
  have hlike' := scanFrom_like hr'
  exact ⟨hlike'.arena.trans (hs.arena.trans hlike.arena.symm),
    hlike'.declared.trans (hs.declared.trans hlike.declared.symm)⟩

/-! ## Looking at tokens -/

include h

theorem fetch (hk : i ≤ k) : BothGive Eq (cx.fetch k) (cx'.fetch (k + d)) := by
  rw [FlowContext.fetch, FlowContext.fetch, h.code.behind hk]
  cases cx.scope.token? k with
  | none => exact nofun
  | some t => exact .result rfl

theorem fetch_of_eq {k' : Nat} (hk : i ≤ k) (hk' : k' = k + d) : BothGive Eq (cx.fetch k) (cx'.fetch k') :=
  hk' ▸ h.fetch hk

theorem lastLine {start stop : Nat} (hstart : i ≤ start) :
    BothGive Eq (cx.lastLine start stop) (cx'.lastLine (start + d) (stop + d)) := by
  have hsize := h.code.size
  have hlt := h.code.lt_size
  refine (h.fetch_of_eq ?_ ?_).map fun t t' ht => congrArg Token.endLine ht
  · split <;> omega
  · split <;> split <;> omega

/-! ## Variables -/

omit h
include hs

theorem discard (name : String) :
    BothGive FlowState.Like (cx.discard s name) (cx'.discard s' name) := by
  have herased {cx : FlowContext} {s r : FlowState} (hr : cx.discard s name = .ok r) :
      r.arena = s.arena.erase name ∧ r.declared = s.declared.filter (·.1 != name) := by
    unfold FlowContext.discard at hr
    dsimp only at hr
    split at hr
    · obtain ⟨found, -, rfl⟩ := ok_of_map_eq_ok hr
      exact ⟨rfl, rfl⟩
    · cases hr
      exact ⟨rfl, rfl⟩
  intro r r' hr hr'
  obtain ⟨harena, hdeclared⟩ := herased hr
  obtain ⟨harena', hdeclared'⟩ := herased hr'
  constructor
  · rw [harena, harena', Arena.unmarked_erase, Arena.unmarked_erase, hs.arena]
  · rw [hdeclared, hdeclared', hs.declared]

theorem declare (name : String) (kind : VariableKind) :
    BothGive FlowState.Like (cx.declare s name kind) (cx'.declare s' name kind) :=
  (discard hs name).map fun _ _ hr => hr.declareKind name kind

theorem rebind (v : Variable) : BothGive FlowState.Like (cx.rebind s v) (cx'.rebind s' v) :=
  (discard hs v.name).map fun _ _ hr => (hr.bind rfl).declareKind v.name v.kind

theorem reset (name : String) (line : Nat) :
    BothGive FlowState.Like (cx.reset s name line) (cx'.reset s' name line) := by
  have hclose {cx : FlowContext} {s r : FlowState} {v w : Variable} (hr : (cx.close s v).map (·.bind w) = .ok r) :
      r.arena = s.arena.put w ∧ r.declared = s.declared := by
    obtain ⟨closed, hclosed, rfl⟩ := ok_of_map_eq_ok hr
    obtain ⟨found, -, rfl⟩ := ok_of_map_eq_ok hclosed
    exact ⟨rfl, rfl⟩
  have hlike := Arena.like_of_unmarked hs.arena name
  rw [Arena.LikeAt] at hlike
  unfold FlowContext.reset
  cases hv : s.arena.get? name with
  | none =>
      rw [hv, Option.map_none, Option.map_eq_none_iff] at hlike
      rw [hlike]
      exact .result hs
  | some v =>
      rw [hv, Option.map_some, Option.map_eq_some_iff] at hlike
      obtain ⟨v', hv', -⟩ := hlike
      rw [hv']
      intro r r' hr hr'
      obtain ⟨harena, hdeclared⟩ := hclose hr
      obtain ⟨harena', hdeclared'⟩ := hclose hr'
      constructor
      · rw [harena, harena', Arena.unmarked_put, Arena.unmarked_put, hs.arena]
      · rw [hdeclared, hdeclared', hs.declared]

/-! ## Chains of calls -/

include h

theorem expression (hk : i < k) :
    BothGive (Expression.Moved d) (cx.expression s.arena k) (cx'.expression s'.arena (k + d)) := by
  have hboth : BothGive (Expression.Moved d) (cx.scope.expression s.arena k) (cx'.scope.expression s'.arena (k + d)) :=
    .of_endAlike (h.code.expression hs.value? hk)
  exact fun e e' he he' => hboth e e' (expression_of_ok he) (expression_of_ok he')

theorem append (name : String) {opening closing : Nat} (hopening : i ≤ opening) (hlt : opening < closing) :
    BothGive FlowState.Like (cx.append s name opening closing) (cx'.append s' name (opening + d) (closing + d)) := by
  have hplace : opening + d + 1 = opening + 1 + d := by omega
  unfold FlowContext.append
  by_cases hempty : closing = opening + 1
  · rw [if_pos hempty, if_pos (by omega)]
    exact .result hs
  · rw [if_neg hempty, if_neg (by omega), hplace]
    refine (h.expression hs (k := opening + 1) (by omega)).bind fun e e' he => ?_
    refine (h.fetch_of_eq (k := closing - 1) (by omega) (by omega)).bind fun last last' hlast => ?_
    subst hlast
    have hstop : e'.stop = closing + d ↔ e.stop = closing := by rw [he.stop, Nat.add_right_cancel_iff]
    dsimp only
    by_cases hfills : e.stop = closing
    · rw [if_pos hfills, if_pos (hstop.2 hfills), he.fragments]
      have hgrown := (hs.commit e e').modify name fun v v' hv =>
        Variable.extend_unmarked hv e.fragments last.endLine
      exact (BothGive.result hgrown).bind fun _ _ hr => scanLoose hr
    · rw [if_neg hfills, if_neg (mt hstop.1 hfills), h.code.sourceText (by omega)]
      refine (h.fetch (k := opening + 1) (by omega)).bind fun first first' hfirst => ?_
      subst hfirst
      have hgrown := hs.modify name fun v v' hv => Variable.extend_unmarked hv
        [.unknown (cx.scope.sourceText (opening + 1) closing) first.startLine] last.endLine
      exact (BothGive.result hgrown).bind fun _ _ hr => scanLoose hr

theorem applyCall (name : String) {opening closing : Nat} (hk : i ≤ k) (hopening : i ≤ opening)
    (hlt : opening < closing) :
    BothGive FlowState.Like (cx.applyCall s name k opening closing)
      (cx'.applyCall s' name (k + d) (opening + d) (closing + d)) := by
  unfold FlowContext.applyCall
  refine (h.fetch hk).bind fun method method' hmethod => ?_
  subst hmethod
  rw [show opening + d + 1 = opening + 1 + d by omega, h.code.sourceText (by omega)]
  split
  · exact h.append hs name hopening hlt
  · split
    · exact reset hs name _
    · split
      · exact .result hs
      · exact scanLoose hs

theorem endChain (stops : List String) (hk : i ≤ k) :
    BothGive (MovedOn d) (cx.endChain s stops k) (cx'.endChain s' stops (k + d)) :=
  (scanLoose hs).map fun _ _ hr => ⟨hr, h.code.skipToStop stops hk⟩

omit hs in
theorem applyChain {s s' : FlowState} (hs : s.Like s') (name : String) (stops : List String) {k : Nat} (hk : i ≤ k) :
    BothGive (MovedOn d) (cx.applyChain s name stops k) (cx'.applyChain s' name stops (k + d)) := by
  have hplace : k + d + 1 = k + 1 + d := by omega
  have hplace' : k + d + 2 = k + 2 + d := by omega
  rw [FlowContext.applyChain, FlowContext.applyChain]
  by_cases hdot : cx.scope.isPunct k "." = true
  · have hlt := Brackets.lt_size_of_any hdot
    have hcall : (cx'.scope.isIdent (k + d + 1) && cx'.scope.isPunct (k + d + 2) "(") =
        (cx.scope.isIdent (k + 1) && cx.scope.isPunct (k + 2) "(") := by
      rw [hplace, hplace', h.code.isIdent (by omega), h.code.isPunct (by omega)]
    have hclose := h.code.closer? (k := k + 2) (by omega)
    rw [← hplace'] at hclose
    rw [dif_pos hdot, dif_pos ((h.code.isPunct hk ".").trans hdot), hcall]
    split
    · split
      · next hc =>
          rw [hc] at hclose
          split
          · exact .result ⟨hs, h.code.size⟩
          · next hc' =>
              rw [hclose] at hc'
              cases hc'
      · next closing hc =>
          have hgt := Brackets.lt_of_closer? hc
          rw [hc, Option.map_some] at hclose
          split
          · next hc' =>
              rw [hclose] at hc'
              cases hc'
          · next closing' hc' =>
              obtain rfl : closing + d = closing' := Option.some.inj (hclose.symm.trans hc')
              have happlied := h.applyCall hs name (k := k + 1) (by omega) (show i ≤ k + 2 by omega) hgt
              rw [← hplace, ← hplace'] at happlied
              refine happlied.bind fun r r' hr => ?_
              rw [show closing + d + 1 = closing + 1 + d by omega]
              exact applyChain hr name stops (k := closing + 1) (by omega)
    · exact h.endChain hs stops hk
  · rw [dif_neg hdot, dif_neg (h.code.isPunct hk "." ▸ hdot)]
    exact h.endChain hs stops hk
termination_by cx.scope.size - k

/-! ## Bindings -/

/-- The same first fragments of a builder. -/
theorem initialFragments {opening closing : Nat} (hopening : i ≤ opening) :
    BothGive (fun r r' => r.1.Like r'.1 ∧ r'.2 = r.2) (cx.initialFragments s opening closing)
      (cx'.initialFragments s' (opening + d) (closing + d)) := by
  unfold FlowContext.initialFragments
  rw [show opening + d + 1 = opening + 1 + d by omega, h.code.slice (by omega), h.code.sourceText (by omega)]
  split
  · exact .result ⟨hs, rfl⟩
  · split
    · exact .result ⟨hs, rfl⟩
    · refine (h.expression hs (k := opening + 1) (by omega)).bind fun e e' he => ?_
      have hstop : e'.stop = closing + d ↔ e.stop = closing := by rw [he.stop, Nat.add_right_cancel_iff]
      by_cases hfills : e.stop = closing
      · rw [if_pos hfills, if_pos (hstop.2 hfills)]
        exact .result ⟨hs.commit e e', he.fragments⟩
      · rw [if_neg hfills, if_neg (mt hstop.1 hfills)]
        exact .result ⟨hs, rfl⟩

theorem bindBuilder (name : String) (line : Nat) (hk : i ≤ k) :
    BothGive (MovedOn d) (cx.bindBuilder s name line k) (cx'.bindBuilder s' name line (k + d)) := by
  have hsize := h.code.size
  have hlt := h.code.lt_size
  have hclose := h.code.closer? (k := k + 2) (by omega)
  have hclosing : (cx'.scope.closer? (k + d + 2)).getD (cx'.scope.size - 1) =
      (cx.scope.closer? (k + 2)).getD (cx.scope.size - 1) + d := by
    rw [show k + d + 2 = k + 2 + d by omega, hclose]
    cases cx.scope.closer? (k + 2) with
    | none =>
        show cx'.scope.size - 1 = cx.scope.size - 1 + d
        omega
    | some closing => rfl
  have hle : i ≤ (cx.scope.closer? (k + 2)).getD (cx.scope.size - 1) := by
    cases hc : cx.scope.closer? (k + 2) with
    | none =>
        show i ≤ cx.scope.size - 1
        omega
    | some closing =>
        have hgt := Brackets.lt_of_closer? hc
        show i ≤ closing
        omega
  unfold FlowContext.bindBuilder
  dsimp only
  rw [hclosing]
  clear hclosing
  generalize (cx.scope.closer? (k + 2)).getD (cx.scope.size - 1) = closing at hle
  rw [show k + d + 2 = k + 2 + d by omega]
  refine (h.initialFragments hs (by omega)).bind ?_
  rintro ⟨r, fragments⟩ ⟨r', fragments'⟩ ⟨hr, rfl⟩
  refine (h.fetch_of_eq (k := min closing (cx.scope.size - 1)) (by omega) (by omega)).bind fun last last' hlast => ?_
  subst hlast
  refine (rebind hr _).bind fun u u' hu => (scanLoose hu).bind fun w w' hw => ?_
  rw [show closing + d + 1 = closing + 1 + d by omega]
  exact h.applyChain hw name _ (by omega)

/-- A plain variable is bound anew. -/
theorem bindPlain {binding : Binding} (hbinding : binding.reassign = false) (hk : i < k) :
    BothGive (MovedOn d) (cx.bindPlain s binding k) (cx'.bindPlain s' binding (k + d)) := by
  have hle (e : Expression) (he : cx.expression s.arena k = .ok e) : k ≤ e.stop := by
    have he := expression_of_ok he
    obtain ⟨e', he', halike⟩ := (cx.scope.expression_alike s.arena s.arena k).exists_ok he
    rw [he] at he'
    cases he'
    exact halike.start_le_stop
  unfold FlowContext.bindPlain
  simp only [hbinding, Bool.false_and]
  refine ((h.expression hs hk).and_left hle).bind fun e e' ⟨he, hstop⟩ => ?_
  rw [he.stop, he.fragments, h.code.skipToStop _ (by omega)]
  refine (h.lastLine (Nat.le_of_lt hk)).bind fun last last' hlast => ?_
  subst hlast
  refine (rebind (hs.commit e e') _).bind fun r r' hr => ?_
  exact (scanLoose hr).map fun _ _ hu => ⟨hu, rfl⟩

omit hs in
theorem constructsBuilder (binding : Binding) (hk : i ≤ k) :
    cx'.constructsBuilder binding (k + d) = cx.constructsBuilder binding k := by
  rw [FlowContext.constructsBuilder, FlowContext.constructsBuilder, h.code.isWord hk, h.rules,
    show k + d + 2 = k + 2 + d by omega, show k + d + 1 = k + 1 + d by omega, h.code.isPunct (by omega),
    h.code.behind (by omega)]

omit hs in
theorem losesTarget {binding : Binding} (hbinding : binding.reassign = false) (hk : i ≤ k) :
    cx'.losesTarget s' binding (k + d) = cx.losesTarget s binding k := by
  rw [FlowContext.losesTarget, FlowContext.losesTarget, h.code.isWord hk, hbinding, Bool.false_and, Bool.false_and]

theorem bindValue {binding : Binding} (hbinding : binding.reassign = false) (hk : i < k) :
    BothGive (MovedOn d) (cx.bindValue s binding k) (cx'.bindValue s' binding (k + d)) := by
  unfold FlowContext.bindValue
  rw [h.constructsBuilder binding (Nat.le_of_lt hk), h.losesTarget (s := s) hbinding (Nat.le_of_lt hk),
    h.code.skipToStop _ (Nat.le_of_lt hk)]
  split
  · exact h.bindBuilder hs _ _ (Nat.le_of_lt hk)
  · split
    · refine (discard hs _).bind fun r r' hr => ?_
      exact (scanLoose hr).map fun _ _ hu => ⟨hu, rfl⟩
    · exact h.bindPlain hs hbinding hk

/-! ## Declarations -/

theorem declarator (typeName : String) (line : Nat) (hk : i ≤ k) :
    BothGive (MovedOn d) (cx.declarator s typeName line k) (cx'.declarator s' typeName line (k + d)) := by
  have hplace : k + d + 1 = k + 1 + d := by omega
  unfold FlowContext.declarator FlowContext.kindOfType
  refine (h.fetch hk).bind fun name name' hname => ?_
  subst hname
  rw [hplace, h.code.isOp (by omega), h.rules]
  split
  · rw [show k + d + 2 = k + 2 + d by omega]
    exact h.bindValue hs rfl (by omega)
  · split
    · exact (declare hs _ _).map fun _ _ hr => ⟨hr, rfl⟩
    · exact .result ⟨hs, rfl⟩

omit hs in
theorem afterStatement {stop : Nat} (hstop : i ≤ stop) :
    cx'.afterStatement (stop + d) = cx.afterStatement stop + d := by
  rw [FlowContext.afterStatement, FlowContext.afterStatement, h.code.isPunct hstop]
  split <;> omega

omit hs in
/-- The names of a declaration. -/
theorem declarators {s s' : FlowState} (hs : s.Like s') (typeName : String) (line : Nat) {k : Nat} (hk : i ≤ k)
    (hlt : k < cx.scope.size) :
    BothGive (MovedOn d) (cx.declarators s typeName line k) (cx'.declarators s' typeName line (k + d)) := by
  rw [FlowContext.declarators, FlowContext.declarators]
  refine ((h.declarator hs typeName line hk).and_left fun r hr => (declarator_sound hlt).of_ok hr).bind ?_
  rintro ⟨t, stop⟩ ⟨t', stop'⟩ ⟨⟨ht, hplace⟩, hreach, -⟩
  obtain rfl : stop' = stop + d := hplace
  have hreach : k + 1 ≤ stop := hreach
  have hcomma := h.code.isPunct (k := stop) (by omega) ","
  dsimp only
  by_cases hc : cx.scope.isPunct stop "," = true
  · have hplace : stop + d + 1 = stop + 1 + d := by omega
    have hplace' : stop + d + 2 = stop + 2 + d := by omega
    have hstop := Brackets.lt_size_of_any hc
    rw [dif_pos ⟨hc, by omega⟩, dif_pos ⟨hcomma.trans hc, by omega⟩, hplace, hplace', h.code.isIdent (by omega),
      h.code.endsDeclarator (by omega)]
    split
    · next hident =>
        split
        · exact declarators ht typeName line (k := stop + 1) (by omega) (Brackets.lt_size_of_any hident)
        · exact .result ⟨ht, rfl⟩
    · exact .result ⟨ht, rfl⟩
  · rw [dif_neg fun hcond => hc hcond.1, dif_neg fun hcond => hc (hcomma.symm.trans hcond.1)]
    exact .result ⟨ht, h.afterStatement (by omega)⟩
termination_by cx.scope.size - k

end Inserted

end FlowContext

end EmbeddedSql
