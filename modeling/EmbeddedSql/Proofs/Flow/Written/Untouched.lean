/-
# Steps that leave the variables alone

At most places no statement stands, and the token there is read loosely.  That may find candidates and report a
variable, but no variable is bound, grows or ends, and no name is declared (`Untouched`).  Which places
these are can mostly be seen from one or two tokens:

| no statement begins at a place | |
| :-- | :-- |
| that holds no word | `calm_of_not_word` |
| before a token that is neither a word nor an assignment sign | `calm_before` |
| before a word, unless a declaration can begin there and what follows ends a declarator | `calm_of_words` |

The one statement that can stand anywhere is a chain of calls on a builder, so calm places are those at which
nothing else begins.  From calm places the steps up to the end of a stretch leave everything as it is
(`stepsUpTo_untouched`).
-/
import EmbeddedSql.Proofs.Flow.Failure
import EmbeddedSql.Proofs.Flow.Keeping
import EmbeddedSql.Proofs.Flow.StraightLine.Places

namespace EmbeddedSql

/-! ## Variables up to marks -/

namespace Arena

/-- The variables in their order, up to marks. -/
def unmarked (arena : Arena) : Arena := arena.map Variable.unmarked

theorem unmarked_put_markReported {arena : Arena} {v : Variable} (hv : arena.get? v.name = some v) :
    (arena.put v.markReported).unmarked = arena.unmarked := by
  induction arena with
  | nil => cases hv
  | cons w rest ih =>
      rw [get?_cons] at hv
      by_cases hname : w.name = v.name
      · rw [if_pos hname] at hv
        obtain rfl := Option.some.inj hv
        have hsame : (w.name == w.markReported.name) = true := beq_self_eq_true _
        rw [put, if_pos hsame]
        rfl
      · rw [if_neg hname] at hv
        rw [put, if_neg (by simpa [Variable.markReported] using hname)]
        exact congrArg (w.unmarked :: ·) (ih hv)

theorem kind?_of_unmarked {arena arena' : Arena} (h : arena'.unmarked = arena.unmarked) (name : String) :
    (arena'.get? name).map (·.kind) = (arena.get? name).map (·.kind) := by
  have hget (arena : Arena) :
      (arena.get? name).map (·.kind) = (arena.unmarked.get? name).map (·.kind) := by
    rw [unmarked, get?, get?, List.find?_map, Option.map_map]
    rfl
  rw [hget, hget arena, h]

end Arena

/-- The variables and the declared names are the same, up to marks, and the variables with their marks unless
something has been reported under an executing call. -/
structure FlowState.Untouched (sinks : Prop) (s s' : FlowState) : Prop where
  arena : s'.arena.unmarked = s.arena.unmarked
  declared : s'.declared = s.declared
  marks : ¬ sinks → s'.arena = s.arena

namespace FlowState.Untouched

variable {sinks sinks' : Prop} {s s' s'' : FlowState}

theorem rfl : Untouched sinks s s := ⟨Eq.refl _, Eq.refl _, fun _ => Eq.refl _⟩

theorem trans (h : Untouched sinks s s') (h' : Untouched sinks s' s'') : Untouched sinks s s'' where
  arena := h'.arena.trans h.arena
  declared := h'.declared.trans h.declared
  marks hno := (h'.marks hno).trans (h.marks hno)

theorem mono (h : Untouched sinks s s') (himp : sinks → sinks') : Untouched sinks' s s' :=
  ⟨h.arena, h.declared, fun hno => h.marks fun hsinks => hno (himp hsinks)⟩

end FlowState.Untouched

namespace FlowContext

variable {cx : FlowContext} {i : Nat}

/-! ## Reading a token loosely -/

theorem looseToken_untouched (cx : FlowContext) (s : FlowState) {lower : Nat} (hi : i < cx.scope.size) :
    Ends cx.Cause (fun r => s.Untouched (cx.scope.underSink i = true) r.1)
      (cx.looseToken s lower i) := by
  have hsound : cx.Sound (cx.looseToken s lower i) := (looseToken_sound hi).imp fun _ _ => trivial
  cases hread : cx.looseToken s lower i with
  | error err => exact hsound.of_error hread
  | ok r =>
      rw [looseToken] at hread
      split at hread
      · cases hread
      · next t _ =>
          split at hread
          · rw [looseExpression] at hread
            obtain ⟨e, -, hread⟩ := ok_of_bind_eq_ok hread
            dsimp only at hread
            split at hread
            · cases hread
              exact ⟨rfl, rfl, fun _ => rfl⟩
            · obtain ⟨found, -, hread⟩ := ok_of_bind_eq_ok hread
              cases hread
              exact ⟨rfl, rfl, fun _ => rfl⟩
          · split at hread
            · next hsink =>
                have hsink : cx.scope.underSink i = true := (Bool.and_eq_true_iff.1 hsink).2
                obtain ⟨s', hs', rfl⟩ := ok_of_map_eq_ok hread
                rw [reportNamed] at hs'
                split at hs'
                · next v hv =>
                    obtain ⟨found, -, rfl⟩ := ok_of_map_eq_ok hs'
                    have hname := Arena.name_of_get? hv
                    exact ⟨Arena.unmarked_put_markReported (hname ▸ hv), rfl, fun hno => absurd hsink hno⟩
                · cases hs'
                  exact .rfl
            · cases hread
              exact .rfl

/-! ## Places without statements -/

/-- No chain of calls on a tracked builder begins at place `i`. -/
def NoChain (cx : FlowContext) (s : FlowState) (i : Nat) : Prop :=
  ∀ name, cx.ChainsAt name i → (s.arena.get? name).map (·.kind) ≠ some .builder

/-- A step from place `i` leaves everything as it is, unless it is taken by a chain of calls on a builder. -/
def Calm (cx : FlowContext) (i : Nat) : Prop :=
  ∀ s : FlowState, cx.NoChain s i →
    Ends cx.Cause (fun r => s.Untouched (cx.scope.underSink i = true) r.1) (cx.step s i)

theorem builderStatement?_of_noChain {s : FlowState} (h : cx.NoChain s i) :
    cx.builderStatement? s i = .ok none := by
  rw [builderStatement?]
  split
  · rfl
  · next t ht =>
      dsimp only
      refine if_neg fun happlies => ?_
      simp only [Bool.and_eq_true, Bool.not_eq_true'] at happlies
      obtain ⟨⟨⟨⟨⟨hident, hdot⟩, htracked⟩, hpunct⟩, hword⟩, hopen⟩ := happlies
      refine h t.text ⟨?_, hdot, hpunct, hword, hopen⟩ ?_
      · rw [Brackets.isWord, ht, Option.any_some, hident, beq_self_eq_true]
        rfl
      · obtain ⟨v, hv, hkind⟩ := (Option.any_eq_true _ _).1 htracked
        rw [hv, Option.map_some, beq_iff_eq.1 hkind]

/-- It is calm where no declaration and no assignment is found. -/
theorem calm_of_none (hi : i < cx.scope.size) (hd : ∀ s, cx.declaration? s i = .ok none)
    (ha : ∀ s, cx.assignment? s i = .ok none) : cx.Calm i := by
  intro s hchain
  rw [step, hd, ha, builderStatement?_of_noChain hchain]
  exact cx.looseToken_untouched s hi

theorem declaration?_of_not (s : FlowState)
    (h : ¬ (cx.scope.isIdent i = true ∧ cx.scope.isIdent (i + 1) = true ∧
      cx.scope.endsDeclarator (i + 2) = true ∧ cx.scope.atDeclarationBoundary i = true)) :
    cx.declaration? s i = .ok none := by
  rw [declaration?]
  split
  · rfl
  · next t ht =>
      dsimp only
      refine if_neg fun happlies => h ?_
      simp only [Bool.and_eq_true] at happlies
      obtain ⟨⟨⟨⟨hident, -⟩, hname⟩, hends⟩, hboundary⟩ := happlies
      refine ⟨?_, hname, hends, hboundary⟩
      rwa [Brackets.isIdent, ht, Option.any_some]

theorem assignment?_of_not (s : FlowState)
    (h : ¬ (cx.scope.isIdent i = true ∧
      (cx.scope.isOp (i + 1) "=" = true ∨ cx.scope.isOp (i + 1) "+=" = true) ∧
      cx.scope.atBoundary i = true)) :
    cx.assignment? s i = .ok none := by
  rw [assignment?]
  split
  · rfl
  · next t ht =>
      split
      · rfl
      · split
        · rfl
        · next hstands =>
            simp only [Bool.or_eq_true, Bool.not_eq_true', not_or, Bool.not_eq_false] at hstands
            have hident : cx.scope.isIdent i = true := by
              rw [Brackets.isIdent, ht, Option.any_some]
              exact hstands.1
            split
            · next hassign => exact absurd ⟨hident, .inl hassign, hstands.2⟩ h
            · split
              · next hadd => exact absurd ⟨hident, .inr hadd, hstands.2⟩ h
              · rfl

end FlowContext

namespace Written

open StraightLine

variable {cx : FlowContext} {i : Nat} {l l' : Lexeme}

theorem calm_of_not_word (h : At cx.scope.toBrackets i l) (hl : l.1 ≠ .identifier) : cx.Calm i := by
  have hident : ¬ cx.scope.isIdent i = true := by
    rw [h.isIdent, beq_iff_eq]
    exact hl
  exact FlowContext.calm_of_none h.lt_size
    (fun s => FlowContext.declaration?_of_not s fun hnot => hident hnot.1)
    fun s => FlowContext.assignment?_of_not s fun hnot => hident hnot.1

/-- An assignment sign. -/
def assigns (l : Lexeme) : Prop := l = op "=" ∨ l = op "+="

instance : DecidablePred assigns := fun _ => inferInstanceAs (Decidable (_ ∨ _))

theorem isOp_of_assigns (h : At cx.scope.toBrackets i l) :
    (cx.scope.isOp i "=" = true ∨ cx.scope.isOp i "+=" = true) ↔ assigns l := by
  rw [h.isOp, h.isOp, decide_eq_true_iff, decide_eq_true_iff]
  rfl

theorem calm_of_next (hi : i < cx.scope.size) (h : At cx.scope.toBrackets (i + 1) l)
    (hl : l.1 ≠ .identifier) (hassign : assigns l → cx.scope.atBoundary i = false) : cx.Calm i := by
  have hident : ¬ cx.scope.isIdent (i + 1) = true := by
    rw [h.isIdent, beq_iff_eq]
    exact hl
  refine FlowContext.calm_of_none hi
    (fun s => FlowContext.declaration?_of_not s fun hnot => hident hnot.2.1)
    fun s => FlowContext.assignment?_of_not s fun ⟨_, hop, hboundary⟩ => ?_
  rw [hassign ((isOp_of_assigns h).1 hop)] at hboundary
  cases hboundary

theorem calm_before (hi : i < cx.scope.size) (h : At cx.scope.toBrackets (i + 1) l)
    (hl : l.1 ≠ .identifier ∧ ¬ assigns l) : cx.Calm i :=
  calm_of_next hi h hl.1 fun hassign => absurd hassign hl.2

/-- What ends a declarator. -/
def declaratorEnds : List Lexeme := [op "=", punct ";", punct ","]

theorem endsDeclarator_iff (h : At cx.scope.toBrackets i l) :
    cx.scope.endsDeclarator i = true ↔ l ∈ declaratorEnds := by
  rw [Brackets.endsDeclarator, h.isOp, h.isPunct, h.isPunct]
  simp [declaratorEnds, or_assoc]

/-- No assignment begins before a word. -/
theorem assignment?_before_word {s : FlowState} {x : String}
    (h : At cx.scope.toBrackets (i + 1) (word x)) : cx.assignment? s i = .ok none := by
  refine FlowContext.assignment?_of_not s fun ⟨_, hop, _⟩ => ?_
  have hword : assigns (word x) := (isOp_of_assigns h).1 hop
  rcases hword with hop | hop <;> cases (Prod.mk.inj hop).1

theorem calm_of_words {x : String} (hi : i < cx.scope.size)
    (h : At cx.scope.toBrackets (i + 1) (word x)) (h' : At cx.scope.toBrackets (i + 2) l)
    (hno : l ∈ declaratorEnds → cx.scope.atDeclarationBoundary i = false) : cx.Calm i := by
  refine FlowContext.calm_of_none hi
    (fun s => FlowContext.declaration?_of_not s fun ⟨_, _, hends, hboundary⟩ => ?_)
    fun _ => assignment?_before_word h
  rw [hno ((endsDeclarator_iff h').1 hends)] at hboundary
  cases hboundary

end Written

/-! ## The steps of a stretch -/

/-- All places from `i` up to `stop` have the property. -/
def Throughout (P : Nat → Prop) (i stop : Nat) : Prop := ∀ j, i ≤ j → j < stop → P j

namespace Throughout

variable {P : Nat → Prop} {i j stop : Nat}

theorem nil (i : Nat) : Throughout P i i := fun _ hj hlt => absurd hlt (Nat.not_lt.2 hj)

theorem cons (h : P i) (hrest : Throughout P (i + 1) stop) : Throughout P i stop := by
  intro j hj hlt
  rcases Nat.eq_or_lt_of_le hj with rfl | hgt
  · exact h
  · exact hrest j hgt hlt

theorem append (h : Throughout P i j) (h' : Throughout P j stop) : Throughout P i stop := by
  intro n hn hlt
  rcases Nat.lt_or_ge n j with hbefore | hbehind
  · exact h n hn hbefore
  · exact h' n hbehind hlt

end Throughout

namespace FlowContext

variable {cx : FlowContext}

/-- The steps from place `i` on until they come to place `stop` or go past it; gives the place that they come
to. -/
def stepsUpTo (cx : FlowContext) (s : FlowState) (i stop : Nat) : Except FlowError (FlowState × Nat) := do
  if _ : i < min stop cx.scope.size then
    let (s, next) ← cx.step s i
    stepsUpTo cx s (max next (i + 1)) stop
  else return (s, i)
termination_by min stop cx.scope.size - i

/-- All steps are those of a stretch and those from there on. -/
theorem steps_eq_stepsUpTo (cx : FlowContext) (s : FlowState) (i stop : Nat) :
    cx.steps s i = cx.stepsUpTo s i stop >>= fun r => cx.steps r.1 r.2 := by
  rw [stepsUpTo]
  split
  · next h =>
      rw [steps, dif_pos (by omega)]
      cases cx.step s i with
      | error err => rfl
      | ok r => exact cx.steps_eq_stepsUpTo r.1 (max r.2 (i + 1)) stop
  · rfl
termination_by min stop cx.scope.size - i

/-- A run over a stretch of calm places leaves everything as it is. -/
theorem stepsUpTo_untouched {s : FlowState} {i lower stop : Nat}
    (hcalm : ∀ j, lower ≤ j → j < stop → cx.Calm j)
    (hchain : ∀ j, lower ≤ j → j < stop → cx.NoChain s j) (hi : lower ≤ i) :
    let sinks := ∃ j, lower ≤ j ∧ j < stop ∧ cx.scope.underSink j = true
    Ends cx.Cause (fun r => s.Untouched sinks r.1) (cx.stepsUpTo s i stop) := by
  intro sinks
  rw [stepsUpTo]
  split
  · next h =>
      have hlt : i < stop := by omega
      refine (hcalm i hi hlt s (hchain i hi hlt)).bind fun r hr => ?_
      have hr : s.Untouched sinks r.1 := hr.mono fun hsink => ⟨i, hi, hlt, hsink⟩
      have hchain' : ∀ j, lower ≤ j → j < stop → cx.NoChain r.1 j := fun j hj hj' name hname => by
        rw [Arena.kind?_of_unmarked hr.arena]
        exact hchain j hj hj' name hname
      have hrest := stepsUpTo_untouched hcalm hchain' (i := max r.2 (i + 1)) (by omega)
      exact hrest.imp fun r' hr' => hr.trans hr'
  · exact .rfl
termination_by min stop cx.scope.size - i

end FlowContext

end EmbeddedSql
