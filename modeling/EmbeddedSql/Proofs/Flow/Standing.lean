/-
# Where statements stand

Which handler takes a place can be told from the tokens around it, the kinds of the tracked variables and the declared
names:

| | |
| :-- | :-- |
| a declaration | `declaresAt` |
| an assignment | `assignsAt` |
| a chain of calls on a builder | `growsAt` |

Where nothing stands, the token is read loosely.  A stretch of code in which nothing stands is gone through to its
end and leaves variables and names as they are, if no free-standing expression in it goes on behind it
(`stepsUpTo_idle`).  An expression that begins between two brackets does not, if the creation expressions there do
not (`Enclosed.expression_le`): all other operands consist of whole groups.
-/
import EmbeddedSql.Proofs.Flow.Inserted
import EmbeddedSql.Proofs.Flow.Written.Groups
import Mathlib.Data.Nat.Init

namespace EmbeddedSql

namespace Ends

/-- Nothing is known of a computation. -/
theorem unknown {α : Type} (o : Except FlowError α) : Ends (fun _ => True) (fun _ => True) o := by
  cases o with
  | error e => trivial
  | ok a => trivial

theorem and {α : Type} {C : FlowError → Prop} {P Q : α → Prop} {o : Except FlowError α} (h : Ends C P o)
    (h' : Ends C Q o) : Ends C (fun a => P a ∧ Q a) o := by
  cases o with
  | error e => exact h
  | ok a => exact ⟨h, h'⟩

end Ends

namespace FlowContext

variable {cx : FlowContext} {s s' : FlowState} {i : Nat}

/-! ## Statements -/

/-- A declaration stands at the place. -/
def declaresAt (cx : FlowContext) (i : Nat) : Bool :=
  (cx.scope.token? i).any (fun t =>
      t.isIdent && (t.text == "var" || cx.rules.isPlainType t.text || cx.rules.isBuilderType t.text))
    && cx.scope.isIdent (i + 1) && cx.scope.endsDeclarator (i + 2) && cx.scope.atDeclarationBoundary i

/-- An assignment to a tracked or declared name stands there. -/
def assignsAt (cx : FlowContext) (s : FlowState) (i : Nat) : Bool :=
  (cx.scope.token? i).any (fun t =>
      t.isIdent && ((s.declaredKind? t.text).or ((s.arena.get? t.text).map (·.kind))).isSome)
    && cx.scope.atBoundary i && (cx.scope.isOp (i + 1) "=" || cx.scope.isOp (i + 1) "+=")

/-- A chain of calls on a tracked builder stands there. -/
def growsAt (cx : FlowContext) (s : FlowState) (i : Nat) : Bool :=
  (cx.scope.token? i).any (fun t =>
      t.isIdent && !cx.scope.afterDot i && (s.arena.get? t.text).map (·.kind) == some .builder)
    && cx.scope.isPunct (i + 1) "."
    && cx.scope.isWordIn (i + 2) ["append", "setLength"] && cx.scope.isPunct (i + 3) "("

def statementAt (cx : FlowContext) (s : FlowState) (i : Nat) : Bool :=
  cx.declaresAt i || cx.assignsAt s i || cx.growsAt s i

theorem statementAt_eq_false_iff :
    cx.statementAt s i = false ↔ cx.declaresAt i = false ∧ cx.assignsAt s i = false ∧ cx.growsAt s i = false := by
  rw [statementAt, Bool.or_eq_false_iff, Bool.or_eq_false_iff, and_assoc]

/-- The names of a declaration are followed from the place behind its type. -/
theorem exists_declaration?_eq (h : cx.declaresAt i = true) :
    ∃ t, cx.scope.token? i = some t ∧ i + 1 < cx.scope.size ∧
      ∀ s, cx.declaration? s i = (cx.declarators s t.text t.startLine (i + 1)).map some := by
  simp only [declaresAt, Bool.and_eq_true] at h
  obtain ⟨⟨⟨htype, hname⟩, hends⟩, hboundary⟩ := h
  obtain ⟨t, ht, htype⟩ := (Option.any_eq_true _ _).1 htype
  obtain ⟨hident, htracked⟩ := Bool.and_eq_true_iff.1 htype
  refine ⟨t, ht, Brackets.lt_size_of_any hname, fun s => ?_⟩
  rw [declaration?, ht]
  dsimp only
  rw [hident, htracked, hname, hends, hboundary]
  rfl

theorem declaration?_of_not_declaresAt (h : cx.declaresAt i = false) : cx.declaration? s i = .ok none := by
  rw [declaration?]
  split
  · rfl
  · next t ht =>
      rw [declaresAt, ht, Option.any_some] at h
      dsimp only
      rw [h]
      rfl

theorem assignment?_of_not_assignsAt (h : cx.assignsAt s i = false) : cx.assignment? s i = .ok none := by
  rw [assignment?]
  split
  · rfl
  · next t ht =>
      rw [assignsAt, ht, Option.any_some] at h
      split
      · rfl
      · next kind hkind =>
          rw [hkind, Option.isSome_some, Bool.and_true, Bool.and_eq_false_iff, Bool.or_eq_false_iff] at h
          split
          · rfl
          · next hstands =>
              rw [Bool.or_eq_true, Bool.not_eq_true', Bool.not_eq_true', not_or, Bool.not_eq_false, Bool.not_eq_false]
                at hstands
              obtain ⟨hassign, hadd⟩ := h.resolve_left (by simp [hstands])
              rw [hassign, hadd]
              rfl

theorem any_builder (v : Option Variable) :
    v.any (·.kind == .builder) = (v.map (·.kind) == some .builder) := by
  cases v <;> rfl

theorem builderStatement?_of_not_growsAt (h : cx.growsAt s i = false) : cx.builderStatement? s i = .ok none := by
  rw [builderStatement?]
  split
  · rfl
  · next t ht =>
      rw [growsAt, ht, Option.any_some] at h
      dsimp only
      rw [any_builder, h]
      rfl

theorem step_of_not_statementAt (h : cx.statementAt s i = false) : cx.step s i = cx.looseToken s 0 i := by
  obtain ⟨hd, ha, hg⟩ := statementAt_eq_false_iff.1 h
  rw [step, declaration?_of_not_declaresAt hd, assignment?_of_not_assignsAt ha,
    builderStatement?_of_not_growsAt hg]
  rfl

/-- A chain is followed from the place behind the builder, and what is left of its statement is passed over. -/
theorem exists_applyChain_of_builderStatement? {found : Option (FlowState × Nat)} (hg : cx.growsAt s i = true)
    (hfound : cx.builderStatement? s i = .ok found) :
    ∃ name u stop w, cx.applyChain s name [";"] (i + 1) = .ok (u, stop) ∧
      found = some (w, cx.afterStatement stop) := by
  rw [builderStatement?] at hfound
  split at hfound
  · next ht =>
      rw [growsAt, ht] at hg
      cases hg
  · next t ht =>
      rw [growsAt, ht, Option.any_some] at hg
      dsimp only at hfound
      rw [any_builder, hg, if_pos rfl] at hfound
      obtain ⟨⟨u, stop⟩, hchain, hfound⟩ := ok_of_bind_eq_ok hfound
      refine ⟨t.text, u, stop, ?_⟩
      split at hfound
      · obtain ⟨w, -, hfound⟩ := ok_of_bind_eq_ok hfound
        exact ⟨w, hchain, (Except.ok.inj hfound).symm⟩
      · exact ⟨u, hchain, (Except.ok.inj hfound).symm⟩

theorem exists_applyChain_of_step {r : FlowState × Nat} (hd : cx.declaresAt i = false)
    (ha : cx.assignsAt s i = false) (hg : cx.growsAt s i = true) (hstep : cx.step s i = .ok r) :
    ∃ name u stop, cx.applyChain s name [";"] (i + 1) = .ok (u, stop) ∧ cx.afterStatement stop ≤ r.2 := by
  rw [step, declaration?_of_not_declaresAt hd, assignment?_of_not_assignsAt ha] at hstep
  cases hbuilder : cx.builderStatement? s i with
  | error e =>
      rw [hbuilder] at hstep
      cases hstep
  | ok found =>
      obtain ⟨name, u, stop, w, hchain, rfl⟩ := exists_applyChain_of_builderStatement? hg hbuilder
      rw [hbuilder] at hstep
      cases hstep
      exact ⟨name, u, stop, hchain, Nat.le_max_left _ _⟩

/-- Only names and kinds count. -/
theorem statementAt_eq_of_like (h : s.Like s') : cx.statementAt s' i = cx.statementAt s i := by
  have hkind (name : String) := Arena.kind?_of_unmarked h.arena name
  simp only [statementAt, assignsAt, growsAt, FlowState.declaredKind?, h.declared, hkind]

end FlowContext

namespace FlowContext

/-- A declaration does the same with something put before it, if one can begin there. -/
theorem Inserted.step {cx cx' : FlowContext} {i d : Nat} (h : cx.Inserted cx' i d) {s s' : FlowState} (hs : s.Like s')
    (hd : cx.declaresAt i = true) (hd' : cx'.declaresAt (i + d) = true) :
    BothGive (MovedOn d) (cx.step s i) (cx'.step s' (i + d)) := by
  have hstep {cx : FlowContext} {s : FlowState} {i line : Nat} {type : String}
      (hd : cx.declaration? s i = (cx.declarators s type line (i + 1)).map some) :
      cx.step s i = (cx.declarators s type line (i + 1)).map fun r => (r.1, max r.2 (i + 1)) := by
    rw [FlowContext.step, hd]
    cases cx.declarators s type line (i + 1) with
    | error e => rfl
    | ok r => rfl
  obtain ⟨t, ht, hlt, hdecl⟩ := exists_declaration?_eq hd
  obtain ⟨t', ht', -, hdecl'⟩ := exists_declaration?_eq hd'
  rw [h.code.behind (Nat.le_refl i), ht] at ht'
  obtain rfl := Option.some.inj ht'
  rw [hstep (hdecl s), hstep (hdecl' s'), show i + d + 1 = i + 1 + d by omega]
  refine (h.declarators hs t.text t.startLine (Nat.le_succ i) hlt).map fun r r' hr => ⟨hr.like, ?_⟩
  rw [hr.place, Nat.add_max_add_right]

end FlowContext

/-! ## Expressions between brackets -/

namespace Brackets

/-- An opening parenthesis is neither a joint nor a name, so nothing is pulled in from before it. -/
theorem lt_pullIn {b : Brackets} {opening lower i : Nat} (h : b.isPunct opening "(" = true) (hi : opening < i) :
    opening < b.pullIn lower i := by
  obtain ⟨t, ht, hp⟩ := (Option.any_eq_true _ _).1 h
  have hkind : t.kind = .punctuation := by
    rw [Token.isPunct, Bool.and_eq_true, beq_iff_eq] at hp
    exact hp.1
  have hop : ¬ b.isOp opening "+" = true := by
    rw [isOp, ht, Option.any_some, Token.isOp, hkind]
    exact Bool.false_ne_true
  have hident : ¬ b.isIdent opening = true := by
    rw [isIdent, ht, Option.any_some, Token.isIdent, hkind]
    exact Bool.false_ne_true
  fun_induction pullIn b lower i with
  | case1 i hle hjoined ih =>
      simp only [Bool.and_eq_true] at hjoined
      obtain ⟨⟨⟨hplus, hname⟩, -⟩, -⟩ := hjoined
      have hne : i - 1 ≠ opening := fun heq => hop (heq ▸ hplus)
      have hne' : i - 2 ≠ opening := fun heq => hident (heq ▸ hname)
      exact ih (by omega)
  | case2 => exact hi
  | case3 => exact hi

/-- A creation expression that begins from `lower` on and before `stop` ends there. -/
def CreationsEnd (b : Brackets) (lower stop : Nat) : Prop :=
  ∀ j, lower ≤ j → j < stop → b.isWord j "new" = true → b.skipNew j ≤ stop

instance (b : Brackets) (lower stop : Nat) : Decidable (b.CreationsEnd lower stop) :=
  Nat.decidableLoHi lower stop fun j => b.isWord j "new" = true → b.skipNew j ≤ stop

namespace Enclosed

variable {b : Brackets} {arena : Arena} {lower stop : Nat} (h : b.Enclosed lower stop)
include h

/-- At the end of the inside nothing begins. -/
theorem operand_stop : b.operand arena stop = .ok none := by
  obtain ⟨t, own, ht, hclose⟩ := h.bar
  obtain ⟨hlt, rfl⟩ := Array.getElem?_eq_some_iff.1 ht
  have hopening : b.isPunct stop "(" = false := h.isPunct_stop (by decide)
  rw [isPunct, ht, Option.any_some, Token.isPunct, h.kind_stop ht] at hopening
  rw [operand, dif_pos hlt]
  dsimp only
  rw [h.kind_stop ht]
  dsimp only
  rw [if_neg (by simpa using hopening)]

mutual
/-- An expression that begins inside ends inside. -/
theorem expression_le (hnew : b.CreationsEnd lower stop) {i : Nat} (hl : lower ≤ i) (hi : i ≤ stop) :
    Ends (fun _ => True) (fun e => e.stop ≤ stop) (b.expression arena i) := by
  rw [expression]
  refine (operand_le hnew hl hi).bind fun o ho => ?_
  cases o with
  | none => exact hi
  | some first =>
      have hstop : first.stop ≤ stop := ho first rfl
      have hlt := first.start_lt_stop
      dsimp only
      split
      · next hplus =>
          have hsize : first.stop < b.size := lt_size_of_any hplus
          have hne : first.stop ≠ stop := by
            intro heq
            obtain ⟨t, ht, hop⟩ := (Option.any_eq_true _ _).1 hplus
            rw [heq] at ht
            rw [Token.isOp, h.kind_stop ht] at hop
            cases hop
          exact (expression_le hnew (i := first.stop + 1) (by omega) (by omega)).bind fun rest hrest => hrest
      · exact hstop
termination_by (b.size - i, 2)

theorem operand_le (hnew : b.CreationsEnd lower stop) {i : Nat} (hl : lower ≤ i) (hi : i ≤ stop) :
    Ends (fun _ => True) (fun o => ∀ first, o = some first → first.stop ≤ stop) (b.operand arena i) := by
  have hstop := h.lt_size
  rcases Nat.eq_or_lt_of_le hi with rfl | hlt
  · rw [h.operand_stop]
    exact nofun
  · have hsize : i < b.size := by omega
    have ht : b.token? i = some b.tokens[i] := Array.getElem?_eq_getElem hsize
    rw [operand, dif_pos hsize]
    dsimp only
    cases hkind : b.tokens[i].kind with
    | stringLiteral =>
        refine (Ends.unknown _).map ?_
        rintro v - first ⟨⟩
        exact h.skipPostfix_le (by omega) hlt
    | other =>
        dsimp only
        split
        · refine (Ends.unknown _).map ?_
          rintro v - first ⟨⟩
          exact hlt
        · split
          · rintro first ⟨⟩
            exact hlt
          · exact nofun
    | punctuation =>
        dsimp only
        split
        · next htext =>
            have hp : b.isPunct i "(" = true := by
              rw [isPunct, ht, Option.any_some, Token.isPunct, hkind, htext]
              rfl
            refine (group_le hnew hl hlt hsize hp).map ?_
            rintro g hg first ⟨⟩
            exact hg
        · exact nofun
    | identifier =>
        dsimp only
        split
        · exact nofun
        · split
          · next hword =>
              rintro first ⟨⟩
              refine hnew i hl hlt ?_
              rw [isWord, ht, Option.any_some, Token.isIdent, hkind, hword]
              rfl
          · rintro first ⟨⟩
            rw [reference_stop]
            exact h.skipPostfix_le (by omega) hlt
    | _ => exact nofun
termination_by (b.size - i, 1)

theorem group_le (hnew : b.CreationsEnd lower stop) {i : Nat} (hl : lower ≤ i) (hi : i < stop) (hlt : i < b.size)
    (hp : b.isPunct i "(" = true) :
    Ends (fun _ => True) (fun o => o.stop ≤ stop) (b.group arena i hlt) := by
  obtain ⟨t, ht, hpunct⟩ := (Option.any_eq_true _ _).1 hp
  obtain ⟨close, hc, hclose⟩ := h.closed hl hi ht (Token.isSome_opens? hpunct (by decide))
  have hgt : i < close := lt_of_closer? hc
  have hs : i < b.skipPostfix (close + 1) := Nat.lt_of_lt_of_le (by omega) (b.le_skipPostfix (close + 1))
  have hpost : b.skipPostfix (close + 1) ≤ stop := h.skipPostfix_le (by omega) hclose
  rw [group_of_closed arena hlt hc hgt hs]
  have hcast : Ends (fun _ => True) (fun o => ∀ cast, o = some cast → cast.stop ≤ stop)
      (if b.isCast i close then b.operand arena (close + 1) else .ok none) := by
    split
    · exact operand_le hnew (i := close + 1) (by omega) hclose
    · exact nofun
  refine hcast.bind fun o ho => ?_
  cases o with
  | some cast => exact ho cast rfl
  | none =>
      refine (Ends.unknown _).bind fun e _ => ?_
      split
      · exact hpost
      · exact hpost
termination_by (b.size - i, 0)
end

end Enclosed

end Brackets

namespace FlowContext

variable {cx : FlowContext} {s s' : FlowState} {i : Nat}

/-! ## Stretches without statements -/

/-- No statement stands at the place, and reading it loosely goes on at `stop` at the latest. -/
structure Idle (cx : FlowContext) (s : FlowState) (stop i : Nat) : Prop where
  statement : cx.statementAt s i = false
  within (s : FlowState) : Ends cx.Cause (fun r => r.2 ≤ stop) (cx.looseToken s 0 i)

theorem Idle.mono {stop stop' : Nat} (h : cx.Idle s stop i) (hle : stop ≤ stop') : cx.Idle s stop' i :=
  ⟨h.statement, fun u => (h.within u).imp fun _ hr => Nat.le_trans hr hle⟩

/-- Only a string literal begins an expression. -/
theorem looseToken_within {stop : Nat} (hi : i < cx.scope.size) (hstop : i < stop)
    (hstring : (cx.scope.token? i).any (·.isString) = true → ∀ arena : Arena,
      Ends (fun _ => True) (fun e => e.stop ≤ stop) (cx.scope.expression arena (cx.scope.pullIn 0 i)))
    (s : FlowState) : Ends cx.Cause (fun r => r.2 ≤ stop) (cx.looseToken s 0 i) := by
  have hsound : cx.Sound (cx.looseToken s 0 i) := (looseToken_sound hi).imp fun _ _ => trivial
  cases hread : cx.looseToken s 0 i with
  | error err => exact hsound.of_error hread
  | ok r =>
      rw [looseToken] at hread
      split at hread
      · cases hread
      · next t ht =>
          split at hread
          · next hbegins =>
              have hstring := hstring (by rw [ht, Option.any_some, (Bool.and_eq_true_iff.1 hbegins).1]) s.arena
              rw [looseExpression] at hread
              obtain ⟨e, he, hread⟩ := ok_of_expression_bind hread
              have hle : max e.stop (i + 1) ≤ stop := Nat.max_le.2 ⟨hstring.of_ok he, hstop⟩
              dsimp only at hread
              split at hread
              · cases hread
                exact hle
              · obtain ⟨found, -, hread⟩ := ok_of_bind_eq_ok hread
                cases hread
                exact hle
          · split at hread
            · obtain ⟨u, -, rfl⟩ := ok_of_map_eq_ok hread
              exact hstop
            · cases hread
              exact hstop

/-- A place between parentheses at which nothing stands. -/
theorem idle_inside {opening stop : Nat} (h : cx.scope.Enclosed (opening + 1) stop)
    (hnew : cx.scope.CreationsEnd (opening + 1) stop) (hp : cx.scope.isPunct opening "(" = true) (hi : opening < i)
    (hlt : i < stop) (hno : cx.statementAt s i = false) : cx.Idle s stop i where
  statement := hno
  within := looseToken_within (Nat.lt_trans hlt h.lt_size) hlt fun _ _ =>
    h.expression_le hnew (Brackets.lt_pullIn hp hi)
      (Nat.le_trans (pullIn_le cx.scope.toBrackets 0 i) (Nat.le_of_lt hlt))

/-- Any other place that holds no string literal. -/
theorem idle_of_not_string {stop : Nat} (hi : i < cx.scope.size) (hlt : i < stop)
    (hstring : (cx.scope.token? i).any (·.isString) = false) (hno : cx.statementAt s i = false) :
    cx.Idle s stop i where
  statement := hno
  within := looseToken_within hi hlt fun h => by
    rw [hstring] at h
    cases h

/-- A stretch is gone through in two parts. -/
theorem stepsUpTo_split (cx : FlowContext) (s : FlowState) (i : Nat) {mid stop : Nat} (h : mid ≤ stop) :
    cx.stepsUpTo s i stop = cx.stepsUpTo s i mid >>= fun r => cx.stepsUpTo r.1 r.2 stop := by
  rw [stepsUpTo.eq_def cx s i mid]
  split
  · next hlt =>
      rw [stepsUpTo, dif_pos (by omega)]
      cases cx.step s i with
      | error e => rfl
      | ok r => exact stepsUpTo_split cx r.1 _ h
  · rfl
termination_by min mid cx.scope.size - i

/-- A stretch in which nothing stands is gone through to its end. -/
theorem stepsUpTo_idle {s' : FlowState} {i stop : Nat} (hs : s.Like s') (hi : i ≤ stop) (hstop : stop ≤ cx.scope.size)
    (h : Throughout (cx.Idle s stop) i stop) :
    Ends cx.Cause (fun r => s.Like r.1 ∧ r.2 = stop) (cx.stepsUpTo s' i stop) := by
  rw [stepsUpTo]
  split
  · next hlt =>
      have hidle := h i (Nat.le_refl i) (by omega)
      rw [step_of_not_statementAt ((statementAt_eq_of_like hs).trans hidle.statement)]
      refine ((cx.looseToken_untouched s' (by omega)).and (hidle.within s')).bind ?_
      rintro ⟨u, next⟩ ⟨huntouched, hnext⟩
      have hu : s.Like u := ⟨huntouched.arena.trans hs.arena, huntouched.declared.trans hs.declared⟩
      have hnext : next ≤ stop := hnext
      exact stepsUpTo_idle hu (by omega) hstop fun j hj => h j (by omega)
  · exact ⟨hs, by omega⟩
termination_by min stop cx.scope.size - i

end FlowContext

end EmbeddedSql
