/-
# What can stop the analysis of a scope

Following a scope reads tokens by their places, takes the values of literals, and shows unknown
values by a template.  Each of these can fail on its own, but only two of the failures come out: a
literal of the scope that denotes nothing, and a template that cannot be filled.  Where the room for nested
calls is limited, there is a third: an expression of the scope that comes too deep.  Places never
fail.  Every handler looks at a token only after it has seen that the token is there, and every
stretch of code that is skipped ends at the end of the scope or before it.

The statement is carried through the handlers by `Ends`: a computation that gives a result gives one
with a property, and one that fails does so for a cause.  The property is what the next step needs,
which is mostly that a place lies further on and still within the scope (`Reaches`).
-/
import EmbeddedSql.Flow.Run
import EmbeddedSql.Proofs.Flow.CallDepth

namespace EmbeddedSql

/-- A result has the property `P`, and a failure has the cause `C`. -/
def Ends {α : Type} (C : FlowError → Prop) (P : α → Prop) : Except FlowError α → Prop
  | .ok a => P a
  | .error e => C e

namespace Ends

variable {α β : Type} {C : FlowError → Prop} {P : α → Prop} {Q : β → Prop}

theorem of_error {o : Except FlowError α} {e : FlowError} (h : Ends C P o)
    (ho : o = .error e) : C e := by
  rw [ho] at h
  exact h

theorem of_ok {o : Except FlowError α} {a : α} (h : Ends C P o) (ho : o = .ok a) : P a := by
  rw [ho] at h
  exact h

theorem mono {D : FlowError → Prop} {o : Except FlowError α} (h : Ends C P o)
    (hC : ∀ e, C e → D e) : Ends D P o := by
  cases o with
  | error e => exact hC e h
  | ok a => exact h

theorem imp {Q : α → Prop} {o : Except FlowError α} (h : Ends C P o) (hP : ∀ a, P a → Q a) :
    Ends C Q o := by
  cases o with
  | error e => exact h
  | ok a => exact hP a h

theorem bind {o : Except FlowError α} {f : α → Except FlowError β} (h : Ends C P o)
    (hf : ∀ a, P a → Ends C Q (f a)) : Ends C Q (o >>= f) := by
  cases o with
  | error e => exact h
  | ok a => exact hf a h

theorem map {o : Except FlowError α} {f : α → β} (h : Ends C P o) (hf : ∀ a, P a → Q (f a)) :
    Ends C Q (o.map f) := by
  cases o with
  | error e => exact h
  | ok a => exact hf a h

end Ends

namespace Brackets

/-- A literal of the code that denotes nothing. -/
inductive Faulty (b : Brackets) : FlowError → Prop
  | intro {t : Token} {e : LiteralError} : t ∈ b.tokens → t.isString || t.isCharLiteral →
      Literal.value t.text = .error e → Faulty b (.literal ⟨t.text, e⟩)

/-! ## Expressions

What can fail is the value of a literal, and where an expression ends is a place of the code, not before
the one where it begins. -/

theorem value_ends {b : Brackets} {i : Nat} (h : i < b.size)
    (hl : b.tokens[i].isString || b.tokens[i].isCharLiteral) :
    Ends b.Faulty (fun _ => True) b.tokens[i].value := by
  unfold Token.value
  split
  · trivial
  · next e he => exact .intro (Array.getElem_mem h) hl he

theorem reference_stop_le {b : Brackets} {arena : Arena} {i : Nat} {t : Token} (h : i < b.size) :
    (b.reference arena i t).stop ≤ b.size := by
  have hs : b.skipPostfix (i + 1) ≤ b.size := skipPostfix_le_size h
  unfold reference
  simp only
  split
  · split <;> exact hs
  · exact hs

mutual
theorem expression_ends (b : Brackets) (arena : Arena) (i : Nat) (h : i ≤ b.size) :
    Ends b.Faulty (fun e => i ≤ e.stop ∧ e.stop ≤ b.size) (b.expression arena i) := by
  rw [expression]
  refine (operand_ends b arena i).bind fun o ho => ?_
  cases o with
  | none => exact ⟨Nat.le_refl i, h⟩
  | some first =>
      have hs : first.stop ≤ b.size := ho first rfl
      have hfirst := first.start_lt_stop
      dsimp only
      split
      · next hplus =>
          have hlt : first.stop < b.size := lt_size_of_any hplus
          refine (expression_ends b arena (first.stop + 1) hlt).bind fun rest hr => ?_
          exact ⟨Nat.le_trans (by omega) hr.1, hr.2⟩
      · exact ⟨Nat.le_of_lt hfirst, hs⟩
termination_by (b.size - i, 2)

theorem operand_ends (b : Brackets) (arena : Arena) (i : Nat) :
    Ends b.Faulty (fun o => ∀ first, o = some first → first.stop ≤ b.size)
      (b.operand arena i) := by
  rw [operand]
  split
  · next h =>
      dsimp only
      split
      · next hk =>
          refine (value_ends h (by simp [Token.isString, hk])).map ?_
          rintro v - first ⟨⟩
          exact skipPostfix_le_size h
      · next hk =>
          split
          · next hc =>
              refine (value_ends h (by simp [hc])).map ?_
              rintro v - first ⟨⟩
              exact h
          · split
            · rintro first ⟨⟩
              exact h
            · rintro first ⟨⟩
      · split
        · refine (group_ends b arena i h).map ?_
          rintro g hg first ⟨⟩
          exact hg
        · rintro first ⟨⟩
      · split
        · rintro first ⟨⟩
        · split
          · rintro first ⟨⟩
            exact skipNew_le_size h
          · rintro first ⟨⟩
            exact reference_stop_le h
      · rintro first ⟨⟩
  · rintro first ⟨⟩
termination_by (b.size - i, 1)

theorem group_ends (b : Brackets) (arena : Arena) (i : Nat) (h : i < b.size) :
    Ends b.Faulty (fun g => g.stop ≤ b.size) (b.group arena i h) := by
  rw [group]
  split
  · exact Nat.le_refl _
  · next close hc =>
      have hi : i < close := lt_of_closer? hc
      have hs : close < b.size := closer?_lt_size hc
      have hcast : Ends b.Faulty (fun o => ∀ cast, o = some cast → cast.stop ≤ b.size)
          (if b.isCast i close then b.operand arena (close + 1) else .ok none) := by
        split
        · exact operand_ends b arena (close + 1)
        · rintro cast ⟨⟩
      refine hcast.bind fun o ho => ?_
      cases o with
      | some cast => exact ho cast rfl
      | none =>
          refine (expression_ends b arena (i + 1) (by omega)).bind fun inner _ => ?_
          have hp := skipPostfix_le_size (b := b) hs
          dsimp only
          split <;> exact hp
termination_by (b.size - i, 0)
end

end Brackets

namespace FlowContext

/-- A source text that the template cannot show. -/
inductive Unshown (cx : FlowContext) : FlowError → Prop
  | intro {source : String} {e : TemplateError} :
      Placeholder.render cx.placeholder source = .error e → Unshown cx (.template e)

/-- An expression of the scope for which there is too little room. -/
inductive Crowded (cx : FlowContext) : FlowError → Prop
  | intro {room i : Nat} {arena : Arena} : cx.room = some room → i ≤ cx.scope.size →
      cx.scope.expressionWithin arena room i = .error .tooDeep → Crowded cx .tooDeep

/-- The causes of a failure: a literal of the scope that denotes nothing, a source text that the template
cannot show, and an expression that comes too deep. -/
inductive Cause (cx : FlowContext) : FlowError → Prop
  | literal {e : FlowError} : cx.scope.Faulty e → Cause cx e
  | template {e : FlowError} : cx.Unshown e → Cause cx e
  | room {e : FlowError} : cx.Crowded e → Cause cx e

/-- A computation that fails only for a cause. -/
abbrev Sound {α : Type} (cx : FlowContext) (o : Except FlowError α) : Prop :=
  Ends cx.Cause (fun _ => True) o

/-- A computation that fails only where the template does. -/
abbrev Shows {α : Type} (cx : FlowContext) (o : Except FlowError α) : Prop :=
  Ends cx.Unshown (fun _ => True) o

theorem Shows.sound {α : Type} {cx : FlowContext} {o : Except FlowError α} (h : cx.Shows o) :
    cx.Sound o := by
  cases o with
  | error e => exact .template h
  | ok a => trivial

variable {cx : FlowContext} {C : FlowError → Prop}

/-! ## Looking at tokens -/

theorem fetch_ends {i : Nat} (h : i < cx.scope.size) :
    Ends C (fun t => cx.scope.token? i = some t) (cx.fetch i) := by
  have ht : cx.scope.token? i = some cx.scope.tokens[i] := Array.getElem?_eq_getElem h
  unfold fetch
  split
  · next t hi => exact hi
  · next hi => rw [ht] at hi; cases hi

theorem lastLine_ends {start stop : Nat} (h : 0 < cx.scope.size)
    (hstop : stop ≤ cx.scope.size) : Ends C (fun _ => True) (cx.lastLine start stop) := by
  unfold lastLine
  refine (fetch_ends ?_).map fun _ _ => trivial
  split <;> omega

/-- The place to go on at is `i` or a later one, and at most the end of the scope. -/
def Reaches (cx : FlowContext) (i : Nat) (r : FlowState × Nat) : Prop := i ≤ r.2 ∧ r.2 ≤ cx.scope.size

theorem Reaches.mono {i j : Nat} {r : FlowState × Nat} (h : cx.Reaches j r) (hij : i ≤ j) :
    cx.Reaches i r :=
  ⟨Nat.le_trans hij h.1, h.2⟩

theorem le_afterStatement (cx : FlowContext) (stop : Nat) : stop ≤ cx.afterStatement stop := by
  unfold afterStatement
  split
  · exact Nat.le_succ stop
  · exact Nat.le_refl stop

theorem reaches_afterStatement {i stop : Nat} {s s' : FlowState} (h : cx.Reaches i (s, stop)) :
    cx.Reaches i (s', cx.afterStatement stop) := by
  unfold Reaches afterStatement at *
  split
  · next hend => exact ⟨Nat.le_succ_of_le h.1, Brackets.lt_size_of_any hend⟩
  · exact h

/-- What holds of an expression that is read without a limit holds of one that is read with room for so many
calls, unless it comes too deep. -/
theorem expression_of_scope {P : Expression → Prop} {arena : Arena} {i : Nat} (h : i ≤ cx.scope.size)
    (hread : Ends cx.scope.Faulty P (cx.scope.expression arena i)) : Ends cx.Cause P (cx.expression arena i) := by
  have hread : Ends cx.Cause P (cx.scope.expression arena i) := hread.mono fun _ => .literal
  unfold expression
  split
  · exact hread
  · next room hroom =>
      rcases (Brackets.limits_within cx.scope.toBrackets arena room).1 i with hdeep | hsame
      · rw [hdeep]
        exact .room (.intro hroom h hdeep)
      · rw [hsame]
        exact hread

theorem expression_ends {arena : Arena} {i : Nat} (h : i ≤ cx.scope.size) :
    Ends cx.Cause (fun e => i ≤ e.stop ∧ e.stop ≤ cx.scope.size) (cx.expression arena i) :=
  expression_of_scope h (cx.scope.toBrackets.expression_ends arena i h)

/-! ## Reporting -/

theorem renderAll_cause {template : Template} {fragments : List Fragment} {e : TemplateError}
    (h : Fragment.renderAll template fragments = .error e) :
    ∃ source, Placeholder.render template source = .error e := by
  induction fragments with
  | nil => cases h
  | cons f fs ih =>
      unfold Fragment.renderAll at h
      split at h
      · next e' he =>
          cases h
          cases f with
          | literal => cases he
          | unknown source line => exact ⟨source, he⟩
      · split at h
        · next e' he =>
            cases h
            exact ih he
        · cases h

theorem render_shows (cx : FlowContext) (fragments : List Fragment) :
    cx.Shows (cx.render fragments) := by
  unfold render
  split
  · trivial
  · next e he =>
      obtain ⟨source, hs⟩ := renderAll_cause he
      exact .intro hs

theorem reportOf_shows (cx : FlowContext) (v : Variable) : cx.Shows (cx.reportOf v) := by
  unfold reportOf
  split
  · split
    · next e he => exact (cx.render_shows _).of_error he
    · trivial
  · trivial

theorem report_shows (cx : FlowContext) (s : FlowState) (v : Variable) :
    cx.Shows (cx.report s v) := by
  exact (cx.reportOf_shows v).map fun _ _ => trivial

theorem reportNamed_shows (cx : FlowContext) (s : FlowState) (name : String) :
    cx.Shows (cx.reportNamed s name) := by
  unfold reportNamed
  split
  · exact cx.report_shows s _
  · trivial

theorem close_shows (cx : FlowContext) (s : FlowState) (v : Variable) :
    cx.Shows (cx.close s v) := by
  unfold close
  refine Ends.map (P := fun _ => True) ?_ fun _ _ => trivial
  split
  · exact cx.reportOf_shows v
  · trivial

theorem discard_shows (cx : FlowContext) (s : FlowState) (name : String) :
    cx.Shows (cx.discard s name) := by
  unfold discard
  simp only
  split
  · exact cx.close_shows _ _
  · trivial

theorem reset_shows (cx : FlowContext) (s : FlowState) (name : String) (line : Nat) :
    cx.Shows (cx.reset s name line) := by
  unfold reset
  split
  · trivial
  · exact (cx.close_shows s _).map fun _ _ => trivial

theorem declare_shows (cx : FlowContext) (s : FlowState) (name : String) (kind : VariableKind) :
    cx.Shows (cx.declare s name kind) :=
  (cx.discard_shows s name).map fun _ _ => trivial

theorem rebind_shows (cx : FlowContext) (s : FlowState) (v : Variable) :
    cx.Shows (cx.rebind s v) :=
  (cx.discard_shows s v.name).map fun _ _ => trivial

theorem flush_shows (cx : FlowContext) (s : FlowState) (vs : List Variable) :
    cx.Shows (cx.flush s vs) := by
  induction vs generalizing s with
  | nil => trivial
  | cons v rest ih =>
      unfold flush
      split
      · exact (cx.report_shows s v).bind fun s _ => ih s
      · exact ih s

/-! ## Loose tokens -/

theorem pullIn_le (b : Brackets) (lower start : Nat) : b.pullIn lower start ≤ start := by
  fun_induction Brackets.pullIn b lower start with
  | case1 start h _ ih => omega
  | case2 => exact Nat.le_refl _
  | case3 => exact Nat.le_refl _

theorem looseCandidates_shows {start i stop : Nat} {fragments : List Fragment}
    (hs : start < cx.scope.size) (hstop : stop ≤ cx.scope.size) :
    cx.Shows (cx.looseCandidates start i stop fragments) := by
  unfold looseCandidates
  split
  · refine (cx.render_shows fragments).bind fun text _ => ?_
    refine (fetch_ends hs).bind fun first _ => ?_
    exact (lastLine_ends (by omega) hstop).bind fun last _ => trivial
  · trivial

theorem looseExpression_sound {s : FlowState} {lower i : Nat} (h : i < cx.scope.size) :
    Ends cx.Cause (cx.Reaches (i + 1)) (cx.looseExpression s lower i) := by
  have hp := pullIn_le cx.scope.toBrackets lower i
  unfold looseExpression
  refine (expression_ends (by omega)).bind fun e he => ?_
  have hstop : cx.Reaches (i + 1) (s, max e.stop (i + 1)) :=
    ⟨Nat.le_max_right _ _, Nat.max_le.2 ⟨he.2, h⟩⟩
  split
  · exact hstop
  · exact (looseCandidates_shows (by omega) hstop.2).sound.bind fun _ _ => hstop

theorem looseToken_sound {s : FlowState} {lower i : Nat} (h : i < cx.scope.size) :
    Ends cx.Cause (cx.Reaches (i + 1)) (cx.looseToken s lower i) := by
  have hnext : ∀ s : FlowState, cx.Reaches (i + 1) (s, i + 1) := fun _ => ⟨Nat.le_refl _, h⟩
  unfold looseToken
  split
  · next hi => simp [Brackets.token?, Array.getElem?_eq_getElem h] at hi
  · split
    · exact looseExpression_sound h
    · split
      · exact (cx.reportNamed_shows s _).sound.map fun s _ => hnext s
      · exact hnext s

theorem scanFrom_sound (cx : FlowContext) (s : FlowState) (lower i stop : Nat) :
    cx.Sound (cx.scanFrom s lower i stop) := by
  rw [scanFrom]
  split
  · next h =>
      refine (looseToken_sound (by omega)).bind fun (s, next) _ => ?_
      exact scanFrom_sound cx s lower (max next (i + 1)) stop
  · trivial
termination_by min stop cx.scope.size - i

theorem scanLoose_sound (cx : FlowContext) (s : FlowState) (start stop : Nat) :
    cx.Sound (cx.scanLoose s start stop) :=
  cx.scanFrom_sound s start start stop

/-! ## Chains of calls -/

theorem append_sound {s : FlowState} {name : String} {opening closing : Nat}
    (ho : opening < closing) (hc : closing < cx.scope.size) :
    cx.Sound (cx.append s name opening closing) := by
  unfold append
  split
  · trivial
  · refine (expression_ends (by omega)).bind fun e _ => ?_
    refine (fetch_ends (by omega)).bind fun last _ => ?_
    dsimp only
    split
    · exact cx.scanLoose_sound _ _ _
    · exact (fetch_ends (by omega)).bind fun first _ => cx.scanLoose_sound _ _ _

theorem applyCall_sound {s : FlowState} {name : String} {i opening closing : Nat}
    (hi : i < cx.scope.size) (ho : opening < closing) (hc : closing < cx.scope.size) :
    cx.Sound (cx.applyCall s name i opening closing) := by
  unfold applyCall
  refine (fetch_ends hi).bind fun method _ => ?_
  split
  · exact append_sound ho hc
  · split
    · exact (cx.reset_shows s name _).sound
    · split
      · trivial
      · exact cx.scanLoose_sound s _ _

theorem reaches_skipToStop (s : FlowState) {stops : List String} {i : Nat} (h : i ≤ cx.scope.size) :
    cx.Reaches i (s, cx.scope.skipToStop stops i) :=
  ⟨cx.scope.le_skipToStop stops i, Brackets.skipToStop_le_size h⟩

theorem endChain_sound {s : FlowState} {stops : List String} {i : Nat} (h : i ≤ cx.scope.size) :
    Ends cx.Cause (cx.Reaches i) (cx.endChain s stops i) :=
  (cx.scanLoose_sound s i _).map fun s _ => reaches_skipToStop s h

theorem applyChain_sound {s : FlowState} {name : String} {stops : List String} {i : Nat}
    (h : i ≤ cx.scope.size) : Ends cx.Cause (cx.Reaches i) (cx.applyChain s name stops i) := by
  rw [applyChain]
  split
  · next hdot =>
      have hi : i < cx.scope.size := Brackets.lt_size_of_any hdot
      split
      · split
        · exact ⟨h, Nat.le_refl _⟩
        · next closing hc =>
            have hlt : i + 2 < closing := Brackets.lt_of_closer? hc
            have hs : closing < cx.scope.size := Brackets.closer?_lt_size hc
            refine (applyCall_sound (by omega) (by omega) hs).bind fun s _ => ?_
            have hnext : closing + 1 ≤ cx.scope.size := hs
            exact (applyChain_sound hnext).imp fun r hr => hr.mono (by omega)
      · exact endChain_sound h
  · exact endChain_sound h
termination_by cx.scope.size - i

/-! ## Bindings -/

theorem initialFragments_sound {s : FlowState} {opening closing : Nat}
    (h : opening < cx.scope.size) : cx.Sound (cx.initialFragments s opening closing) := by
  unfold initialFragments
  split
  · trivial
  · split
    · trivial
    · refine (expression_ends h).bind fun e _ => ?_
      split <;> trivial

theorem bindBuilder_sound {s : FlowState} {name : String} {line i : Nat}
    (h : i + 2 < cx.scope.size) :
    Ends cx.Cause (cx.Reaches i) (cx.bindBuilder s name line i) := by
  have hclosing : i < (cx.scope.closer? (i + 2)).getD (cx.scope.size - 1) + 1 ∧
      (cx.scope.closer? (i + 2)).getD (cx.scope.size - 1) + 1 ≤ cx.scope.size := by
    cases hc : cx.scope.closer? (i + 2) with
    | none =>
        rw [Option.getD_none]
        omega
    | some closing =>
        have hlt := Brackets.lt_of_closer? hc
        have hs : closing < cx.scope.size := Brackets.closer?_lt_size hc
        rw [Option.getD_some]
        omega
  unfold bindBuilder
  refine (initialFragments_sound h).bind fun (s, fragments) _ => ?_
  refine (fetch_ends (by omega)).bind fun last _ => ?_
  refine (cx.rebind_shows s _).sound.bind fun s _ => ?_
  refine (cx.scanLoose_sound s _ _).bind fun s _ => ?_
  exact (applyChain_sound hclosing.2).imp fun r hr => hr.mono (Nat.le_of_lt hclosing.1)

theorem bindPlain_sound {s : FlowState} {binding : Binding} {rhs : Nat}
    (h : 0 < cx.scope.size) (hr : rhs ≤ cx.scope.size) :
    Ends cx.Cause (cx.Reaches rhs) (cx.bindPlain s binding rhs) := by
  unfold bindPlain
  refine (expression_ends hr).bind fun e he => ?_
  have hstop : ∀ s, cx.Reaches rhs (s, cx.scope.skipToStop [";", ","] e.stop) := fun s =>
    (reaches_skipToStop s he.2).mono he.1
  refine (lastLine_ends h (hstop s).2).bind fun last _ => ?_
  dsimp only
  split
  · exact (cx.scanLoose_sound _ _ _).map fun s _ => hstop s
  · exact (cx.rebind_shows _ _).sound.bind fun s _ =>
      (cx.scanLoose_sound s _ _).map fun s _ => hstop s

theorem bindValue_sound {s : FlowState} {binding : Binding} {rhs : Nat}
    (h : 0 < cx.scope.size) (hr : rhs ≤ cx.scope.size) :
    Ends cx.Cause (cx.Reaches rhs) (cx.bindValue s binding rhs) := by
  unfold bindValue
  split
  · next hb =>
      simp only [constructsBuilder, Bool.and_eq_true] at hb
      exact bindBuilder_sound (Brackets.lt_size_of_any hb.1.1.2)
  · split
    · refine (cx.discard_shows s _).sound.bind fun s _ => ?_
      exact (cx.scanLoose_sound s _ _).map fun s _ => reaches_skipToStop s hr
    · exact bindPlain_sound h hr

/-! ## Statements -/

theorem declarator_sound {s : FlowState} {typeName : String} {line k : Nat}
    (h : k < cx.scope.size) :
    Ends cx.Cause (cx.Reaches (k + 1)) (cx.declarator s typeName line k) := by
  have hnext : ∀ s : FlowState, cx.Reaches (k + 1) (s, k + 1) := fun _ => ⟨Nat.le_refl _, h⟩
  unfold declarator
  refine (fetch_ends h).bind fun name _ => ?_
  split
  · next ho =>
      have hk := Brackets.lt_size_of_any ho
      exact (bindValue_sound (by omega) hk).imp fun r hr => hr.mono (Nat.le_succ _)
  · split
    · exact (cx.declare_shows s _ _).sound.map fun s _ => hnext s
    · exact hnext s

theorem declarators_sound {s : FlowState} {typeName : String} {line k : Nat}
    (h : k < cx.scope.size) :
    Ends cx.Cause (cx.Reaches (k + 1)) (cx.declarators s typeName line k) := by
  rw [declarators]
  refine (declarator_sound h).bind fun (s, stop) hr => ?_
  dsimp only
  split
  · next hc =>
      have hlt : stop < cx.scope.size := Brackets.lt_size_of_any hc.1
      split
      · next hi =>
          split
          · exact (declarators_sound (Brackets.lt_size_of_any hi)).imp fun r hr => hr.mono (by omega)
          · exact ⟨Nat.le_succ_of_le hr.1, hlt⟩
      · exact hr
  · exact reaches_afterStatement hr
termination_by cx.scope.size - k

/-- A handler that finds its statement at place `i` goes on from there. -/
abbrev Finds (cx : FlowContext) (i : Nat) (o : Except FlowError (Option (FlowState × Nat))) : Prop :=
  Ends cx.Cause (fun found => ∀ r ∈ found, cx.Reaches i r) o

theorem Finds.none (cx : FlowContext) (i : Nat) : cx.Finds i (.ok none) := fun _ h => nomatch h

theorem Finds.of_map {i : Nat} {o : Except FlowError (FlowState × Nat)}
    (h : Ends cx.Cause (cx.Reaches i) o) : cx.Finds i (o.map some) := by
  refine h.map fun r hr r' hr' => ?_
  cases hr'
  exact hr

theorem declaration?_sound (cx : FlowContext) (s : FlowState) (i : Nat) :
    cx.Finds i (cx.declaration? s i) := by
  unfold declaration?
  split
  · exact .none cx i
  · simp only
    split
    · next hd =>
        simp only [Bool.and_eq_true] at hd
        refine .of_map ((declarators_sound ?_).imp fun r hr => hr.mono (by omega))
        exact Brackets.lt_size_of_any hd.1.1.2
    · exact .none cx i

theorem compoundAssignment_sound {s : FlowState} {name : String} {rhs : Nat}
    (h : 0 < cx.scope.size) (hr : rhs ≤ cx.scope.size) :
    Ends cx.Cause (cx.Reaches rhs) (cx.compoundAssignment s name rhs) := by
  unfold compoundAssignment
  refine (expression_ends hr).bind fun e he => ?_
  have hstop : cx.Reaches rhs (s, cx.scope.skipToStop [";"] e.stop) :=
    (reaches_skipToStop s he.2).mono he.1
  dsimp only
  split
  · exact (lastLine_ends h hstop.2).bind fun _ _ =>
      (cx.scanLoose_sound _ _ _).map fun _ _ => reaches_afterStatement hstop
  · exact (cx.scanLoose_sound _ _ _).map fun _ _ => reaches_afterStatement hstop

theorem assignment?_sound (cx : FlowContext) (s : FlowState) (i : Nat) :
    cx.Finds i (cx.assignment? s i) := by
  unfold assignment?
  split
  · exact .none cx i
  · split
    · exact .none cx i
    · split
      · exact .none cx i
      · split
        · next ho =>
            have hi := Brackets.lt_size_of_any ho
            refine (bindValue_sound (by omega) hi).map fun r hr r' hr' => ?_
            cases hr'
            exact (reaches_afterStatement hr).mono (by omega)
        · split
          · next ho =>
              have hi := Brackets.lt_size_of_any ho
              exact .of_map ((compoundAssignment_sound (by omega) hi).imp fun r hr => hr.mono (by omega))
          · exact .none cx i

theorem builderStatement?_sound (cx : FlowContext) (s : FlowState) (i : Nat) :
    cx.Finds i (cx.builderStatement? s i) := by
  unfold builderStatement?
  split
  · exact .none cx i
  · simp only
    split
    · next hb =>
        simp only [Bool.and_eq_true] at hb
        have hdot : i + 1 < cx.scope.size := Brackets.lt_size_of_any hb.1.1.2
        refine (applyChain_sound (Nat.le_of_lt hdot)).bind fun (s, stop) hr => ?_
        have hstop : ∀ s', cx.Reaches i (s', cx.afterStatement stop) := fun s' =>
          (reaches_afterStatement hr).mono (Nat.le_succ i)
        have hfound : ∀ s', ∀ r ∈ some (s', cx.afterStatement stop), cx.Reaches i r := by
          rintro s' r ⟨⟩
          exact hstop s'
        dsimp only
        split
        · exact (cx.reportNamed_shows s _).sound.bind fun s' _ => hfound s'
        · exact hfound s
    · exact .none cx i

/-! ## Runs -/

/-- A step goes forward. -/
theorem step_sound {s : FlowState} {i : Nat} (h : i < cx.scope.size) :
    Ends cx.Cause (cx.Reaches (i + 1)) (cx.step s i) := by
  have hnext : ∀ {s : FlowState} {next : Nat}, cx.Reaches i (s, next) →
      cx.Reaches (i + 1) (s, max next (i + 1)) :=
    fun hr => ⟨Nat.le_max_right _ _, Nat.max_le.2 ⟨hr.2, h⟩⟩
  unfold step
  refine (cx.declaration?_sound s i).bind fun found hfound => ?_
  split
  · exact hnext (hfound _ rfl)
  · refine (cx.assignment?_sound s i).bind fun found hfound => ?_
    split
    · exact hnext (hfound _ rfl)
    · refine (cx.builderStatement?_sound s i).bind fun found hfound => ?_
      split
      · exact hnext (hfound _ rfl)
      · exact looseToken_sound h

theorem steps_sound (cx : FlowContext) (s : FlowState) (i : Nat) : cx.Sound (cx.steps s i) := by
  rw [steps]
  split
  · next h => exact (step_sound h).bind fun (s, next) _ => steps_sound cx s (max next (i + 1))
  · trivial
termination_by cx.scope.size - i

/-- A run fails only for a cause. -/
theorem run_sound (cx : FlowContext) : cx.Sound cx.run :=
  (cx.steps_sound _ _).bind fun s _ => (cx.flush_shows s s.arena).sound

end FlowContext

end EmbeddedSql
