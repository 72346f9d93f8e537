/-
# A scope with more behind it

The variables of complete code are followed, and those of the same code with more tokens behind it.  Each
step that begins in the code does the same in both, and it ends in the code or right behind it.  So the
longer run goes through the states of the shorter one, at the same places, until it stands right behind
the code (`Begins.comes_iff`), and only then it goes on with what is there.

Where a handler goes on at the place that another one gives it, the place has to lie in the code.  So the
two are compared by `SameEnd`, which keeps beside the common result what is known of it.
-/
import EmbeddedSql.Token.Lexer
import EmbeddedSql.Proofs.Flow.Accumulations
import EmbeddedSql.Proofs.Flow.Agreement
import EmbeddedSql.Proofs.Flow.Failure
import EmbeddedSql.Proofs.Scope.Beginning
import EmbeddedSql.Proofs.Scope.Frames

namespace EmbeddedSql

/-- Two computations that end in the same way, with a result that has a property or a failure. -/
abbrev SameEnd {ε α : Type} (P : α → Prop) (o o' : Except ε α) : Prop :=
  EndAlike (fun a a' => a' = a ∧ P a) o o'

namespace SameEnd

variable {ε α β : Type} {P : α → Prop} {Q : β → Prop} {o o' : Except ε α}

theorem result {a : α} (h : P a) : SameEnd P (.ok a : Except ε α) (.ok a) := .ok ⟨rfl, h⟩

theorem of_eq (h : o' = o) : SameEnd (fun _ => True) o o' := by
  subst h
  cases o' with
  | error e => exact .error e
  | ok a => exact result trivial

theorem eq (h : SameEnd P o o') : o' = o := by
  cases h with
  | error e => rfl
  | ok hr => rw [hr.1]

theorem bind {f f' : α → Except ε β} (h : SameEnd P o o')
    (hf : ∀ a, P a → SameEnd Q (f a) (f' a)) : SameEnd Q (o >>= f) (o' >>= f') := by
  refine EndAlike.bind h ?_
  rintro a _ ⟨rfl, ha⟩
  exact hf _ ha

theorem map {f f' : α → β} (h : SameEnd P o o') (hf : ∀ a, P a → f' a = f a ∧ Q (f a)) :
    SameEnd Q (o.map f) (o'.map f') := by
  refine EndAlike.map h ?_
  rintro a _ ⟨rfl, ha⟩
  exact hf _ ha

/-- What comes after is the same as far as it matters. -/
theorem bind_eq {f f' : α → Except ε β} (h : SameEnd P o o') (hf : ∀ a, P a → f' a = f a) :
    (o' >>= f') = (o >>= f) :=
  (h.bind (Q := fun _ => True) fun a ha => of_eq (hf a ha)).eq

end SameEnd

theorem Operand.ext {i : Nat} {o o' : Operand i} (hfragments : o'.fragments = o.fragments)
    (hliterals : o'.literals = o.literals) (hstop : o'.stop = o.stop) : o' = o := by
  cases o
  cases o'
  cases hfragments
  cases hliterals
  cases hstop
  rfl

namespace Brackets.Begins

variable {b b' : Brackets} (h : Begins b b')
include h

/-! ## Expressions -/

theorem unknown {start stop stop' : Nat} (line : Nat) (hlt : start < stop) (hlt' : start < stop')
    (hsame : stop' = stop) (hstop : stop < b.size) :
    b'.unknown line stop' hlt' = b.unknown line stop hlt := by
  subst hsame
  rw [Brackets.unknown, Brackets.unknown, h.sourceText (Nat.le_of_lt hstop)]

theorem reference (arena : Arena) {i : Nat} {t : Token} (hi : i + 1 < b.size) :
    b'.reference arena i t = b.reference arena i t := by
  have hpost := h.skipPostfix hi
  have hstop := h.skipPostfix_lt hi
  unfold Brackets.reference
  simp only [hpost, h.afterDot (Nat.le_of_lt (Nat.lt_of_succ_lt hi)), h.isToString hi]
  split
  · split
    · rfl
    · exact h.unknown _ _ _ rfl hstop
  · exact h.unknown _ _ _ rfl hstop

mutual
theorem expression (arena : Arena) {i : Nat} (hi : i < b.size) :
    SameEnd (fun e => e.stop < b.size) (b.expression arena i) (b'.expression arena i) := by
  rw [Brackets.expression, Brackets.expression]
  refine (operand arena hi).bind fun o ho => ?_
  cases o with
  | none => exact .result hi
  | some first =>
      have hstop : first.stop < b.size := ho first rfl
      have hfirst := first.start_lt_stop
      dsimp only
      rw [h.isOp hstop]
      by_cases hplus : b.isOp first.stop "+" = true
      · rw [dif_pos hplus, dif_pos hplus]
        refine (expression arena (h.succ_lt_of_isOp hplus)).bind fun rest hrest => ?_
        exact .result hrest
      · rw [dif_neg hplus, dif_neg hplus]
        exact .result hstop
termination_by (b.size - i, 2)

theorem operand (arena : Arena) {i : Nat} (hi : i < b.size) :
    SameEnd (fun o => ∀ first, o = some first → first.stop < b.size) (b.operand arena i)
      (b'.operand arena i) := by
  have hi' : i < b'.size := Nat.lt_of_lt_of_le hi h.size_le
  have ht : b.token? i = some b.tokens[i] := Array.getElem?_eq_getElem hi
  have hnone : SameEnd (fun o => ∀ first, o = some first → first.stop < b.size)
      (.ok none : Except FlowError (Option (Operand i))) (.ok none) := .result nofun
  have hsome {o o' : Operand i} (hsame : o' = o) (ho : o.stop < b.size) :
      SameEnd (fun o => ∀ first, o = some first → first.stop < b.size)
        (.ok (some o) : Except FlowError (Option (Operand i))) (.ok (some o')) := by
    subst hsame
    refine .result ?_
    rintro first ⟨⟩
    exact ho
  rw [Brackets.operand, Brackets.operand, dif_pos hi, dif_pos hi']
  simp only [h.getElem hi hi']
  cases hk : b.tokens[i].kind with
  | stringLiteral =>
      have hnext := h.succ_lt ht (Token.isPunct_of_kind (by simp [hk]) ";")
      refine SameEnd.map (.of_eq rfl) fun v _ => ⟨?_, ?_⟩
      · exact congrArg some (Operand.ext rfl rfl (h.skipPostfix hnext))
      · rintro first ⟨⟩
        exact h.skipPostfix_lt hnext
  | other =>
      have hnext := h.succ_lt ht (Token.isPunct_of_kind (by simp [hk]) ";")
      dsimp only
      split
      · refine SameEnd.map (.of_eq rfl) fun v _ => ⟨rfl, ?_⟩
        rintro first ⟨⟩
        exact hnext
      · split
        · exact hsome rfl hnext
        · exact hnone
  | punctuation =>
      dsimp only
      split
      · next htext =>
          have hp : b.isPunct i "(" = true := by
            rw [Brackets.isPunct, ht, Option.any_some, Token.isPunct, hk, htext]
            rfl
          refine (group arena hi hi' hp).map fun g hg => ⟨rfl, ?_⟩
          rintro first ⟨⟩
          exact hg
      · exact hnone
  | identifier =>
      have hnext := h.succ_lt ht (Token.isPunct_of_kind (by simp [hk]) ";")
      dsimp only
      split
      · exact hnone
      · split
        · next hnew =>
            have hword : b.isWord i "new" = true := by
              rw [Brackets.isWord, ht, Option.any_some, Token.isIdent, hk, hnew]
              rfl
            have hstop := h.skipNew_lt hword
            exact hsome (h.unknown _ _ _ (h.skipNew hword) hstop) hstop
        · refine hsome (h.reference arena hnext) ?_
          rw [reference_stop]
          exact h.skipPostfix_lt hnext
  | _ => exact hnone
termination_by (b.size - i, 1)

theorem group (arena : Arena) {i : Nat} (hi : i < b.size) (hi' : i < b'.size)
    (hp : b.isPunct i "(" = true) :
    SameEnd (fun g => g.stop < b.size) (b.group arena i hi) (b'.group arena i hi') := by
  obtain ⟨close, hc⟩ := exists_closer?_of_paren h.balanced hp
  have hlt : i < close := lt_of_closer? hc
  have hclose : close + 1 < b.size := h.succ_closer_lt hc
  have hpost := h.skipPostfix hclose
  have hs : i < b.skipPostfix (close + 1) :=
    Nat.lt_of_lt_of_le (by omega) (b.le_skipPostfix (close + 1))
  have hstop : b.skipPostfix (close + 1) < b.size := h.skipPostfix_lt hclose
  rw [group_of_closed arena hi hc hlt hs,
    group_of_closed arena hi' ((h.closer? hi).trans hc) hlt (hpost.symm ▸ hs)]
  have hcast : SameEnd (fun o => ∀ cast, o = some cast → cast.stop < b.size)
      (if b.isCast i close then b.operand arena (close + 1) else .ok none)
      (if b'.isCast i close then b'.operand arena (close + 1) else .ok none) := by
    rw [h.isCast hclose]
    split
    · exact operand arena hclose
    · exact .result nofun
  refine hcast.bind fun o ho => ?_
  cases o with
  | some cast => exact .result (ho cast rfl)
  | none =>
      refine (expression arena (by omega)).bind fun e _ => ?_
      simp only [hpost, h.getElem hi hi', h.unknown _ hs hs rfl hstop]
      split <;> exact .ok ⟨rfl, hstop⟩
termination_by (b.size - i, 0)
end

end Brackets.Begins

namespace FlowContext

/-- The first scope is one of complete code, and the second one begins with it. -/
structure Begins (cx cx' : FlowContext) : Prop where
  code : cx.scope.toBrackets.Begins cx'.scope.toBrackets
  frames : ∀ i < cx.scope.size, cx'.scope.framesAt i = cx.scope.framesAt i
  rules : cx'.rules = cx.rules
  placeholder : cx'.placeholder = cx.placeholder
  room : cx.room = none
  room' : cx'.room = none

/-- A place to go on at in the code. -/
abbrev StopsInside (cx : FlowContext) (r : FlowState × Nat) : Prop := r.2 < cx.scope.size

/-- A step goes on in the scope or right behind it. -/
theorem next_le {cx : FlowContext} {s s' : FlowState} {i next : Nat} (hi : i < cx.scope.size)
    (hstep : cx.step s i = .ok (s', next)) : max next (i + 1) ≤ cx.scope.size :=
  Nat.max_le.2 ⟨((step_sound hi).of_ok hstep).2, hi⟩

theorem isIdent_of_token? {b : Brackets} {i : Nat} {t : Token} (ht : b.token? i = some t)
    (hident : t.isIdent = true) : b.isIdent i = true := by
  rw [Brackets.isIdent, ht, Option.any_some, hident]

namespace Begins

variable {cx cx' : FlowContext} (h : cx.Begins cx') {s : FlowState} {i : Nat}
include h

/-! ## Looking at tokens -/

theorem fetch (hi : i < cx.scope.size) : cx'.fetch i = cx.fetch i := by
  rw [FlowContext.fetch, FlowContext.fetch, h.code.token? hi]

theorem lastLine {start stop : Nat} (hstart : start < cx.scope.size)
    (hstop : stop ≤ cx.scope.size) : cx'.lastLine start stop = cx.lastLine start stop := by
  have hsize := h.code.size_le
  have hplace : (if start < stop then stop - 1 else min start (cx'.scope.size - 1))
      = if start < stop then stop - 1 else min start (cx.scope.size - 1) := by
    split
    · rfl
    · rw [Nat.min_eq_left (by omega), Nat.min_eq_left (by omega)]
  rw [FlowContext.lastLine, FlowContext.lastLine, hplace, h.fetch (by split <;> omega)]

theorem expression (arena : Arena) (hi : i < cx.scope.size) :
    SameEnd (fun e => e.stop < cx.scope.size) (cx.expression arena i) (cx'.expression arena i) := by
  rw [expression_of_unlimited h.room, expression_of_unlimited h.room']
  exact h.code.expression arena hi

theorem callClassAt (hi : i < cx.scope.size) : cx'.scope.callClassAt i = cx.scope.callClassAt i := by
  rw [Scope.callClassAt, Scope.callClassAt, h.frames i hi]

theorem underSink (hi : i < cx.scope.size) : cx'.scope.underSink i = cx.scope.underSink i := by
  rw [Scope.underSink, Scope.underSink, h.callClassAt hi]

/-! ## Reporting

What is reported depends on the rules and the placeholder alone. -/

theorem render (fragments : List Fragment) : cx'.render fragments = cx.render fragments := by
  rw [FlowContext.render, FlowContext.render, h.placeholder]

theorem reportOf (v : Variable) : cx'.reportOf v = cx.reportOf v := by
  rw [FlowContext.reportOf, FlowContext.reportOf, h.rules, h.render]

theorem report (s : FlowState) (v : Variable) : cx'.report s v = cx.report s v := by
  rw [FlowContext.report, FlowContext.report, h.reportOf]

theorem reportNamed (s : FlowState) (name : String) :
    cx'.reportNamed s name = cx.reportNamed s name := by
  unfold FlowContext.reportNamed
  simp only [h.report]

theorem close (s : FlowState) (v : Variable) : cx'.close s v = cx.close s v := by
  rw [FlowContext.close, FlowContext.close, h.reportOf]

theorem discard (s : FlowState) (name : String) : cx'.discard s name = cx.discard s name := by
  unfold FlowContext.discard
  simp only [h.close]

theorem reset (s : FlowState) (name : String) (line : Nat) :
    cx'.reset s name line = cx.reset s name line := by
  unfold FlowContext.reset
  simp only [h.close]

theorem declare (s : FlowState) (name : String) (kind : VariableKind) :
    cx'.declare s name kind = cx.declare s name kind := by
  rw [FlowContext.declare, FlowContext.declare, h.discard]

theorem rebind (s : FlowState) (v : Variable) : cx'.rebind s v = cx.rebind s v := by
  rw [FlowContext.rebind, FlowContext.rebind, h.discard]

/-! ## Loose tokens -/

theorem looseCandidates {start stop : Nat} (fragments : List Fragment)
    (hstart : start < cx.scope.size) (hi : i < cx.scope.size) (hstop : stop ≤ cx.scope.size) :
    cx'.looseCandidates start i stop fragments = cx.looseCandidates start i stop fragments := by
  unfold FlowContext.looseCandidates FlowContext.looseOrigin
  rw [h.rules, h.render, h.fetch hstart, h.lastLine hstart hstop, h.frames i hi]

theorem looseExpression (s : FlowState) (lower : Nat) (hi : i < cx.scope.size) :
    cx'.looseExpression s lower i = cx.looseExpression s lower i := by
  have hstart := pullIn_le cx.scope.toBrackets lower i
  unfold FlowContext.looseExpression
  rw [h.code.pullIn lower i hi, h.callClassAt hi]
  refine (h.expression s.arena (by omega)).bind_eq fun e he => ?_
  dsimp only
  rw [h.looseCandidates e.fragments (by omega) hi (by omega)]

theorem looseToken (s : FlowState) (lower : Nat) (hi : i < cx.scope.size) :
    cx'.looseToken s lower i = cx.looseToken s lower i := by
  unfold FlowContext.looseToken
  rw [h.code.token? hi, h.code.afterDot (Nat.le_of_lt hi), h.underSink hi]
  simp only [h.looseExpression s lower hi, h.reportNamed]

theorem scanFrom (s : FlowState) (lower i : Nat) {stop : Nat} (hstop : stop ≤ cx.scope.size) :
    cx'.scanFrom s lower i stop = cx.scanFrom s lower i stop := by
  have hsize := h.code.size_le
  rw [FlowContext.scanFrom, FlowContext.scanFrom.eq_def cx,
    Nat.min_eq_left (Nat.le_trans hstop hsize), Nat.min_eq_left hstop]
  split
  · next hi =>
      rw [h.looseToken s lower (Nat.lt_of_lt_of_le hi hstop)]
      refine congrArg (cx.looseToken s lower i >>= ·) (funext fun r => ?_)
      exact scanFrom r.1 lower (max r.2 (i + 1)) hstop
  · rfl
termination_by stop - i

theorem scanLoose (s : FlowState) (start : Nat) {stop : Nat} (hstop : stop ≤ cx.scope.size) :
    cx'.scanLoose s start stop = cx.scanLoose s start stop :=
  h.scanFrom s start start hstop

/-! ## Chains of calls -/

theorem append (s : FlowState) (name : String) {opening closing : Nat} (hlt : opening < closing)
    (hclosing : closing < cx.scope.size) :
    cx'.append s name opening closing = cx.append s name opening closing := by
  unfold FlowContext.append
  split
  · rfl
  · refine (h.expression s.arena (by omega)).bind_eq fun e _ => ?_
    rw [h.fetch (by omega), h.fetch (by omega), h.code.sourceText (Nat.le_of_lt hclosing)]
    simp only [h.scanLoose _ _ (Nat.le_of_lt hclosing)]

theorem applyCall (s : FlowState) (name : String) {opening closing : Nat}
    (hi : i < cx.scope.size) (hlt : opening < closing) (hclosing : closing < cx.scope.size) :
    cx'.applyCall s name i opening closing = cx.applyCall s name i opening closing := by
  unfold FlowContext.applyCall
  rw [h.fetch hi, h.append s name hlt hclosing, h.code.sourceText (Nat.le_of_lt hclosing),
    h.scanLoose s _ (Nat.le_of_lt hclosing)]
  simp only [h.reset]

theorem endChain (s : FlowState) {stops : List String} (hstops : stops.contains ";" = true)
    (hi : i < cx.scope.size) :
    SameEnd cx.StopsInside (cx.endChain s stops i) (cx'.endChain s stops i) := by
  have hstop := h.code.skipToStop_lt hstops hi
  unfold FlowContext.endChain
  rw [h.code.skipToStop hstops hi]
  exact SameEnd.map (.of_eq (h.scanLoose s i (Nat.le_of_lt hstop))) fun _ _ => ⟨rfl, hstop⟩

theorem applyChain (s : FlowState) (name : String) {stops : List String}
    (hstops : stops.contains ";" = true) {i : Nat} (hi : i < cx.scope.size) :
    SameEnd cx.StopsInside (cx.applyChain s name stops i) (cx'.applyChain s name stops i) := by
  rw [FlowContext.applyChain, FlowContext.applyChain]
  by_cases hdot : cx.scope.isPunct i "." = true
  · rw [dif_pos hdot, dif_pos ((h.code.isPunct hi ".").trans hdot)]
    have h₁ : i + 1 < cx.scope.size := h.code.succ_lt_of_isPunct hdot (by decide)
    have hcall : (cx'.scope.isIdent (i + 1) && cx'.scope.isPunct (i + 2) "(")
        = (cx.scope.isIdent (i + 1) && cx.scope.isPunct (i + 2) "(") := by
      rw [h.code.isIdent h₁]
      exact and_eq_and fun hname => h.code.isPunct (h.code.succ_lt_of_isIdent hname) "("
    rw [hcall]
    split
    · next hc =>
        rw [Bool.and_eq_true] at hc
        obtain ⟨closing, hclosing⟩ := Brackets.exists_closer?_of_paren h.code.balanced hc.2
        have hlt : i + 2 < closing := Brackets.lt_of_closer? hclosing
        have hnext : closing + 1 < cx.scope.size := h.code.succ_closer_lt hclosing
        have hclosing' : cx'.scope.closer? (i + 2) = some closing :=
          (h.code.closer? (h.code.succ_lt_of_isIdent hc.1)).trans hclosing
        split
        · next hn => rw [hclosing] at hn; cases hn
        · next c hn =>
            obtain rfl : closing = c := Option.some.inj (hclosing.symm.trans hn)
            split
            · next hn' => rw [hclosing'] at hn'; cases hn'
            · next c' hn' =>
                obtain rfl : closing = c' := Option.some.inj (hclosing'.symm.trans hn')
                refine SameEnd.bind (.of_eq (h.applyCall s name h₁ hlt (by omega))) fun u _ => ?_
                exact applyChain u name hstops hnext
    · exact h.endChain s hstops hi
  · rw [dif_neg hdot, dif_neg (h.code.isPunct hi "." ▸ hdot)]
    exact h.endChain s hstops hi
termination_by cx.scope.size - i

/-! ## Bindings -/

theorem initialFragments (s : FlowState) {opening closing : Nat} (hlt : opening < closing)
    (hclosing : closing < cx.scope.size) :
    cx'.initialFragments s opening closing = cx.initialFragments s opening closing := by
  unfold FlowContext.initialFragments
  rw [h.code.slice (Nat.le_of_lt hclosing), h.code.sourceText (Nat.le_of_lt hclosing)]
  split
  · rfl
  · split
    · rfl
    · exact (h.expression s.arena (by omega)).bind_eq fun e _ => rfl

theorem bindBuilder (s : FlowState) (name : String) (line : Nat)
    (hi : cx.scope.isPunct (i + 2) "(" = true) :
    SameEnd cx.StopsInside (cx.bindBuilder s name line i) (cx'.bindBuilder s name line i) := by
  obtain ⟨closing, hc⟩ := Brackets.exists_closer?_of_paren h.code.balanced hi
  have hopening := Brackets.lt_size_of_any hi
  have hlt := Brackets.lt_of_closer? hc
  have hclosing := h.code.succ_closer_lt hc
  have hsize := h.code.size_le
  unfold FlowContext.bindBuilder
  dsimp only
  rw [h.code.closer? hopening, hc]
  dsimp only [Option.getD_some]
  rw [Nat.min_eq_left (by omega), Nat.min_eq_left (by omega),
    h.initialFragments s hlt (by omega), h.fetch (by omega)]
  refine SameEnd.bind (.of_eq rfl) fun started _ => ?_
  refine SameEnd.bind (.of_eq rfl) fun last _ => ?_
  refine SameEnd.bind (.of_eq (h.rebind started.1 _)) fun v _ => ?_
  refine SameEnd.bind (.of_eq (h.scanLoose v _ (by omega))) fun w _ => ?_
  exact h.applyChain w name (by decide) hclosing

theorem bindPlain (s : FlowState) (binding : Binding) {rhs : Nat} (hrhs : rhs < cx.scope.size) :
    SameEnd cx.StopsInside (cx.bindPlain s binding rhs) (cx'.bindPlain s binding rhs) := by
  have hcontinues : (cx'.scope.isWord rhs binding.name && cx'.scope.isOp (rhs + 1) "+")
      = (cx.scope.isWord rhs binding.name && cx.scope.isOp (rhs + 1) "+") := by
    rw [h.code.isWord hrhs]
    exact and_eq_and fun hword => h.code.isOp (h.code.succ_lt_of_word hword) "+"
  unfold FlowContext.bindPlain
  refine (h.expression s.arena hrhs).bind fun e he => ?_
  have hstops : [";", ","].contains ";" = true := by decide
  have hstop := h.code.skipToStop_lt hstops he
  have hle := Nat.le_of_lt hstop
  simp only [Bool.and_assoc, hcontinues, h.code.skipToStop hstops he,
    h.lastLine hrhs hle]
  refine SameEnd.bind (.of_eq rfl) fun last _ => ?_
  split
  · exact SameEnd.map (.of_eq (h.scanLoose _ rhs hle)) fun _ _ => ⟨rfl, hstop⟩
  · refine SameEnd.bind (.of_eq (h.rebind _ _)) fun u _ => ?_
    exact SameEnd.map (.of_eq (h.scanLoose u rhs hle)) fun _ _ => ⟨rfl, hstop⟩

theorem constructsBuilder (binding : Binding) {rhs : Nat} (hrhs : rhs < cx.scope.size) :
    cx'.constructsBuilder binding rhs = cx.constructsBuilder binding rhs := by
  unfold FlowContext.constructsBuilder
  rw [h.rules, h.code.isWord hrhs]
  refine congrArg (· && _) ?_
  rw [Bool.and_assoc, Bool.and_assoc]
  refine and_eq_and fun hnew => ?_
  -- the type decides first, since the parenthesis stands behind it
  rw [h.code.token? (h.code.succ_lt_of_word hnew), Bool.and_comm,
    Bool.and_comm (cx.scope.isPunct (rhs + 2) "(")]
  exact and_eq_and fun htype => h.code.isPunct (h.code.succ_lt_of_word htype) "("

theorem losesTarget (s : FlowState) (binding : Binding) {rhs : Nat} (hrhs : rhs < cx.scope.size) :
    cx'.losesTarget s binding rhs = cx.losesTarget s binding rhs := by
  rw [FlowContext.losesTarget, FlowContext.losesTarget, h.code.isWord hrhs]

theorem bindValue (s : FlowState) (binding : Binding) {rhs : Nat} (hrhs : rhs < cx.scope.size) :
    SameEnd cx.StopsInside (cx.bindValue s binding rhs) (cx'.bindValue s binding rhs) := by
  have hstops : [";", ","].contains ";" = true := by decide
  have hstop := h.code.skipToStop_lt hstops hrhs
  unfold FlowContext.bindValue
  rw [h.constructsBuilder binding hrhs, h.losesTarget s binding hrhs,
    h.code.skipToStop hstops hrhs]
  split
  · next hc =>
      simp only [FlowContext.constructsBuilder, Bool.and_eq_true] at hc
      exact h.bindBuilder s binding.name binding.line hc.1.1.2
  · split
    · refine SameEnd.bind (.of_eq (h.discard s _)) fun u _ => ?_
      exact SameEnd.map (.of_eq (h.scanLoose u rhs (Nat.le_of_lt hstop))) fun _ _ => ⟨rfl, hstop⟩
    · exact h.bindPlain s binding hrhs

/-! ## Statements -/

theorem afterStatement {stop : Nat} (hstop : stop < cx.scope.size) :
    cx'.afterStatement stop = cx.afterStatement stop := by
  rw [FlowContext.afterStatement, FlowContext.afterStatement, h.code.isPunct hstop]

theorem declarator (s : FlowState) (typeName : String) (line : Nat) {k : Nat}
    (hk : k + 1 < cx.scope.size) :
    SameEnd cx.StopsInside (cx.declarator s typeName line k)
      (cx'.declarator s typeName line k) := by
  unfold FlowContext.declarator FlowContext.kindOfType
  rw [h.fetch (Nat.lt_of_succ_lt hk), h.code.isOp hk, h.rules]
  refine SameEnd.bind (.of_eq rfl) fun name _ => ?_
  split
  · next hop => exact h.bindValue s _ (h.code.succ_lt_of_isOp hop)
  · split
    · exact SameEnd.map (.of_eq (h.declare s _ _)) fun _ _ => ⟨rfl, hk⟩
    · exact .ok ⟨rfl, hk⟩

theorem declarators (s : FlowState) (typeName : String) (line : Nat) {k : Nat}
    (hk : cx.scope.isIdent k = true) :
    cx'.declarators s typeName line k = cx.declarators s typeName line k := by
  rw [FlowContext.declarators, FlowContext.declarators.eq_def cx]
  refine (h.declarator s typeName line (h.code.succ_lt_of_isIdent hk)).bind_eq ?_
  rintro ⟨t, stop⟩ hstop
  dsimp only
  rw [h.code.isPunct hstop, h.afterStatement hstop]
  split
  · next hc =>
      have h₁ : stop + 1 < cx.scope.size := h.code.succ_lt_of_isPunct hc.1 (by decide)
      rw [h.code.isIdent h₁]
      split
      · next hident =>
          rw [h.code.endsDeclarator (h.code.succ_lt_of_isIdent hident)]
          split
          · exact declarators t typeName line hident
          · rfl
      · rfl
  · rfl
termination_by cx.scope.size - k

theorem declaration? (s : FlowState) (hi : i < cx.scope.size) :
    cx'.declaration? s i = cx.declaration? s i := by
  unfold FlowContext.declaration?
  rw [h.code.token? hi, h.rules, h.code.atDeclarationBoundary (Nat.le_of_lt hi)]
  split
  · rfl
  · next t ht =>
      have hname : (t.isIdent && (t.text == "var" || cx.rules.isPlainType t.text
              || cx.rules.isBuilderType t.text) && cx'.scope.isIdent (i + 1)
            && cx'.scope.endsDeclarator (i + 2))
          = (t.isIdent && (t.text == "var" || cx.rules.isPlainType t.text
              || cx.rules.isBuilderType t.text) && cx.scope.isIdent (i + 1)
            && cx.scope.endsDeclarator (i + 2)) := by
        simp only [Bool.and_assoc]
        refine and_eq_and fun htype => and_eq_and fun _ => ?_
        rw [h.code.isIdent (h.code.succ_lt_of_isIdent (isIdent_of_token? ht htype))]
        exact and_eq_and fun hident => h.code.endsDeclarator (h.code.succ_lt_of_isIdent hident)
      dsimp only
      rw [hname]
      split
      · next hd =>
          simp only [Bool.and_eq_true] at hd
          rw [h.declarators s t.text t.startLine hd.1.1.2]
      · rfl

theorem compoundAssignment (s : FlowState) (name : String) {rhs : Nat}
    (hrhs : rhs < cx.scope.size) :
    cx'.compoundAssignment s name rhs = cx.compoundAssignment s name rhs := by
  unfold FlowContext.compoundAssignment
  refine (h.expression s.arena hrhs).bind_eq fun e he => ?_
  have hstops : [";"].contains ";" = true := by decide
  have hstop := h.code.skipToStop_lt hstops he
  simp only [h.code.skipToStop hstops he, h.afterStatement hstop,
    h.lastLine hrhs (Nat.le_of_lt hstop), h.scanLoose _ _ (Nat.le_of_lt hstop)]

theorem assignment? (s : FlowState) (hi : i < cx.scope.size) :
    cx'.assignment? s i = cx.assignment? s i := by
  unfold FlowContext.assignment? FlowContext.assignmentTo
  rw [h.code.token? hi, h.code.atBoundary (Nat.le_of_lt hi), h.rules]
  split
  · rfl
  · next t ht =>
      split
      · rfl
      · next kind _ =>
          dsimp only
          split
          · rfl
          · next hstart =>
              have hident : t.isIdent = true := by
                simp only [Bool.or_eq_true, Bool.not_eq_true', not_or, Bool.not_eq_false] at hstart
                exact hstart.1
              have h₁ := h.code.succ_lt_of_isIdent (isIdent_of_token? ht hident)
              rw [h.code.isOp h₁, h.code.isOp h₁]
              split
              · next hop =>
                  have hrhs := h.code.succ_lt_of_isOp hop
                  refine ((h.bindValue s _ hrhs).map (Q := fun _ => True) ?_).eq
                  rintro ⟨u, stop⟩ hstop
                  rw [h.afterStatement hstop]
                  exact ⟨rfl, trivial⟩
              · split
                · next hop =>
                    rw [h.compoundAssignment s t.text (h.code.succ_lt_of_isOp hop)]
                · rfl

theorem builderStatement? (s : FlowState) (hi : i < cx.scope.size) :
    cx'.builderStatement? s i = cx.builderStatement? s i := by
  unfold FlowContext.builderStatement?
  rw [h.code.token? hi, h.code.afterDot (Nat.le_of_lt hi), h.underSink hi]
  split
  · rfl
  · next t ht =>
      have hcall : (t.isIdent && !cx.scope.afterDot i && (s.arena.get? t.text).any (·.kind == .builder)
            && cx'.scope.isPunct (i + 1) "." && cx'.scope.isWordIn (i + 2) ["append", "setLength"]
            && cx'.scope.isPunct (i + 3) "(")
          = (t.isIdent && !cx.scope.afterDot i && (s.arena.get? t.text).any (·.kind == .builder)
            && cx.scope.isPunct (i + 1) "." && cx.scope.isWordIn (i + 2) ["append", "setLength"]
            && cx.scope.isPunct (i + 3) "(") := by
        simp only [Bool.and_assoc]
        refine and_eq_and fun hident => and_eq_and fun _ => and_eq_and fun _ => ?_
        rw [h.code.isPunct (h.code.succ_lt_of_isIdent (isIdent_of_token? ht hident))]
        refine and_eq_and fun hdot => ?_
        rw [h.code.isWordIn (h.code.succ_lt_of_isPunct hdot (by decide))]
        exact and_eq_and fun hword => h.code.isPunct (h.code.succ_lt_of_word hword) "("
      dsimp only
      rw [hcall]
      split
      · next hc =>
          simp only [Bool.and_eq_true] at hc
          have h₁ := Brackets.lt_size_of_any hc.1.1.2
          have hstops : [";"].contains ";" = true := by decide
          refine (h.applyChain s t.text hstops h₁).bind_eq ?_
          rintro ⟨u, stop⟩ hstop
          dsimp only
          rw [h.reportNamed, h.afterStatement hstop]
      · rfl

/-! ## Runs -/

theorem step (s : FlowState) (hi : i < cx.scope.size) : cx'.step s i = cx.step s i := by
  unfold FlowContext.step
  rw [h.declaration? s hi, h.assignment? s hi, h.builderStatement? s hi, h.looseToken s 0 hi]

/-- The longer run comes to the same places in the same states, up to the end of the code. -/
theorem comes_iff (hi : i ≤ cx.scope.size) : cx'.Comes s i ↔ cx.Comes s i := by
  constructor
  · intro hc
    induction hc with
    | start => exact .start
    | @step s s' i next _ _ hstep ih =>
        have hlt : i < cx.scope.size := by omega
        rw [h.step s hlt] at hstep
        exact .step (ih (Nat.le_of_lt hlt)) hlt hstep
  · intro hc
    clear hi
    induction hc with
    | start => exact .start
    | @step s s' i next _ hlt hstep ih =>
        rw [← h.step s hlt] at hstep
        exact .step ih (Nat.lt_of_lt_of_le hlt h.code.size_le) hstep

/-- The longer run is the shorter one and what comes behind the code. -/
theorem steps_eq (s : FlowState) {i : Nat} (hi : i ≤ cx.scope.size) :
    cx'.steps s i = cx.steps s i >>= fun last => cx'.steps last cx.scope.size := by
  rcases Nat.eq_or_lt_of_le hi with rfl | hlt
  · rw [FlowContext.steps.eq_def cx, dif_neg (Nat.lt_irrefl _)]
    rfl
  · rw [FlowContext.steps, FlowContext.steps.eq_def cx, dif_pos hlt,
      dif_pos (Nat.lt_of_lt_of_le hlt h.code.size_le), h.step s hlt]
    cases hstep : cx.step s i with
    | error e => rfl
    | ok r => exact steps_eq r.1 (next_le hlt hstep)
termination_by cx.scope.size - i

end Begins

/-- A run that has a result comes to the end of the scope. -/
theorem comes_size {cx : FlowContext} {s last : FlowState} {i : Nat} (hc : cx.Comes s i)
    (hi : i ≤ cx.scope.size) (h : cx.steps s i = .ok last) : cx.Comes last cx.scope.size := by
  rcases Nat.eq_or_lt_of_le hi with rfl | hlt
  · rw [steps, dif_neg (Nat.lt_irrefl _)] at h
    cases h
    exact hc
  · rw [steps, dif_pos hlt] at h
    obtain ⟨⟨t, next⟩, hstep, hrest⟩ := ok_of_bind_eq_ok h
    exact comes_size (hc.step hlt hstep) (next_le hlt hstep) hrest
termination_by cx.scope.size - i

/-- There is one such state. -/
theorem comes_size_iff {cx : FlowContext} {s last : FlowState} (h : cx.steps .start 0 = .ok last) :
    cx.Comes s cx.scope.size ↔ s = last := by
  constructor
  · intro hc
    rw [hc.steps_eq, steps, dif_neg (Nat.lt_irrefl _)] at h
    exact Except.ok.inj h
  · rintro rfl
    exact comes_size .start (Nat.zero_le _) h

end FlowContext

/-! ## Code and what stands behind it -/

variable (rules : RuleSet) (classifier : Classifier) (placeholder : Template) {tokens : List Token}

theorem Brackets.complete_ofTokens (hbalanced : Balanced tokens)
    (hclosing : tokens.getLast?.any (·.isPunct ";") = true)
    (hnew : plainCreations tokens = true) : (Brackets.ofTokens tokens).Complete where
  balanced := hbalanced
  closing := by
    rw [List.getLast?_eq_getElem?] at hclosing
    rw [Brackets.isPunct, Brackets.token?, Brackets.size, Brackets.ofTokens]
    simpa using hclosing
  creations := hnew

theorem FlowContext.begins_ofTokens (hcomplete : (Brackets.ofTokens tokens).Complete)
    (more : List Token) :
    (ofTokens rules classifier placeholder tokens).Begins
      (ofTokens rules classifier placeholder (tokens ++ more)) := by
  have hcode : (Brackets.ofTokens tokens).Begins (Brackets.ofTokens (tokens ++ more)) :=
    ⟨hcomplete, List.prefix_append tokens more⟩
  refine ⟨hcode, fun i hi => ?_, rfl, rfl, rfl, rfl⟩
  have hframes := hcode.framesFrom (i := 0) classifier [] tokens more rfl
  have hlt : i < ((Brackets.ofTokens tokens).framesFrom classifier 0 [] tokens).length := by
    rw [Brackets.length_framesFrom]
    simpa [Scope.ofTokens, Brackets.size, Brackets.ofTokens, ofTokens] using hi
  have hat := List.prefix_iff_getElem?.1 hframes i hlt
  unfold Scope.framesAt
  refine congrArg (Option.getD · []) ?_
  simpa [ofTokens, Scope.ofTokens] using hat.trans (List.getElem?_eq_getElem hlt).symm

/-- A run over complete code with more behind it goes through the states of a run over the code alone until
it comes to what stands behind.  It comes there in the state that the code leaves, whatever follows, unless
something in the code stops it, and then that stops it whatever follows. -/
theorem FlowContext.comes_ofTokens_append (hbalanced : Balanced tokens)
    (hclosing : tokens.getLast?.any (·.isPunct ";") = true)
    (hnew : plainCreations tokens = true) :
    let alone := ofTokens rules classifier placeholder tokens
    let followedBy := fun more => ofTokens rules classifier placeholder (tokens ++ more)
    (∀ more s i, i ≤ tokens.length → ((followedBy more).Comes s i ↔ alone.Comes s i)) ∧
      Ends (fun e => alone.Cause e ∧ ∀ more, (followedBy more).run = .error e)
        (fun last => ∀ more s, (followedBy more).Comes s tokens.length ↔ s = last)
        (alone.steps .start 0) := by
  intro alone followedBy
  have hcomplete := Brackets.complete_ofTokens hbalanced hclosing hnew
  have hbegins (more : List Token) : alone.Begins (followedBy more) :=
    begins_ofTokens rules classifier placeholder hcomplete more
  have hsize : alone.scope.size = tokens.length := List.size_toArray
  refine ⟨fun more s i hi => (hbegins more).comes_iff (hsize ▸ hi), ?_⟩
  have hsound := alone.steps_sound .start 0
  cases hsteps : alone.steps .start 0 with
  | ok last =>
      intro more s
      rw [← hsize, (hbegins more).comes_iff (Nat.le_refl _), comes_size_iff hsteps]
  | error e =>
      refine ⟨hsound.of_error hsteps, fun more => ?_⟩
      rw [run, (hbegins more).steps_eq .start (Nat.zero_le _), hsteps]
      rfl

/-- A builder that is constructed and appended to in one declaration. -/
def chainedBuilder : List Token :=
  significant ((tokenize
    "StringBuilder q = new StringBuilder(\"SELECT a\").append(\" FROM t\");").toOption.getD [])

/-- Whatever stands behind the declaration, a run comes there with what the chain has made of the builder,
and in no other state. -/
theorem FlowContext.comes_ofTokens_append_chainedBuilder :
    ∃ last, (last.arena.get? "q").map (·.fragments) =
        some [.literal (Text.ofString "SELECT a") 1, .literal (Text.ofString " FROM t") 1] ∧
      ∀ more s, (ofTokens .standard RuleSet.standard.classifier standardPlaceholder
        (chainedBuilder ++ more)).Comes s 14 ↔ s = last := by
  let alone := ofTokens .standard RuleSet.standard.classifier standardPlaceholder chainedBuilder
  have hlength : chainedBuilder.length = 14 := by decide +kernel
  have hfragments : ((alone.steps .start 0).toOption.map fun last =>
      (last.arena.get? "q").map (·.fragments)) =
        some (some [.literal (Text.ofString "SELECT a") 1, .literal (Text.ofString " FROM t") 1]) := by
    decide +kernel
  obtain ⟨last, hlast, hq⟩ := Option.map_eq_some_iff.1 hfragments
  have hbalanced : Balanced chainedBuilder := by decide +kernel
  have hclosing : chainedBuilder.getLast?.any (·.isPunct ";") = true := by decide +kernel
  have hnew : plainCreations chainedBuilder = true := by decide +kernel
  obtain ⟨-, hends⟩ := comes_ofTokens_append .standard RuleSet.standard.classifier standardPlaceholder
    hbalanced hclosing hnew
  have hall := hends.of_ok (toOption_eq_some.1 hlast)
  rw [hlength] at hall
  exact ⟨last, hq, hall⟩

end EmbeddedSql
