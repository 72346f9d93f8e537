/-
# Following a scope is total

Whatever the tokens of a scope are, and however their brackets nest, following it comes to an end, and
where nested calls are not limited it stops early only for a literal that denotes nothing or a template that
cannot be filled.  Where there is room for so many calls only, it also stops at an expression that comes too
deep, and ends as it does without a limit if none comes too deep (`run_limits`).  Three calls for each opening
parenthesis and two more are enough, and no room is enough for all code: a literal that is cast once for each
call comes too deep (`exists_tooDeep`).

That the definitions are total says less than that.  Where a loop goes on at a place that another
function gave, the definition takes the larger of that place and the next one, or tests that it is
further on; and the frames around a token are read as none where there is no such token.  Here is why
none of this makes a difference:

| | |
| :-- | :-- |
| the loop over a scope | a step reaches a later place (`steps_eq`) |
| the names of a declaration | each ends behind its own place (`declarators_eq`) |
| an expression | its operands take at least a token each, and it ends within the scope |
| frames | the frame of every parenthesis is found, and so is the one around it (`Scope.lookUpFrames?_eq`) |
| the kind of an assigned name | it is declared or tracked, and either gives the kind |
-/
import EmbeddedSql.Proofs.Flow.Alongside
import EmbeddedSql.Proofs.Flow.StraightLine.Values
import EmbeddedSql.Proofs.Scope.Frames

namespace EmbeddedSql

/-- What is read and what is found is the same, but the first run may come too deep. -/
def Leeway.limiting : Leeway where
  token := id
  lines := 0
  fragment := Eq
  found := List.Forall₂ Eq
  both e e' := e = .tooDeep ∨ e = e'
  first e := e = .tooDeep
  found_nil := .nil
  found_append h h' := List.rel_append h h'
  both_of_first he _ := .inl he
  both_refl _ := .inr rfl

namespace FlowContext

variable {cx : FlowContext}

/-! ## Loops without tests -/

/-- Each step is followed by the one at the place it gives. -/
theorem steps_eq {s : FlowState} {i : Nat} (h : i < cx.scope.size) :
    cx.steps s i = (do
      let (s, next) ← cx.step s i
      cx.steps s next) := by
  have hstep := step_sound (s := s) h
  rw [steps, dif_pos h]
  cases ho : cx.step s i with
  | error e => rfl
  | ok r =>
      have hnext : max r.2 (i + 1) = r.2 := Nat.max_eq_left (hstep.of_ok ho).1
      show cx.steps r.1 (max r.2 (i + 1)) = cx.steps r.1 r.2
      rw [hnext]

/-- A comma is not the end of a statement. -/
theorem afterStatement_of_comma {stop : Nat} (h : cx.scope.isPunct stop "," = true) :
    cx.afterStatement stop = stop := by
  obtain ⟨t, ht, hcomma⟩ := Option.any_eq_true _ _ |>.1 h
  have hend : cx.scope.isPunct stop ";" = false := by
    rw [Brackets.isPunct, ht, Option.any_some, Token.isPunct,
      beq_iff_eq.1 (Bool.and_eq_true_iff.1 hcomma).2]
    exact Bool.and_false _
  rw [afterStatement, hend, if_neg Bool.false_ne_true]

/-- After a comma, the names of a declaration go on if another one stands there. -/
theorem declarators_eq {s : FlowState} {typeName : String} {line k : Nat} (h : k < cx.scope.size) :
    cx.declarators s typeName line k = (do
      let (s, stop) ← cx.declarator s typeName line k
      if cx.scope.isPunct stop "," && cx.scope.isIdent (stop + 1) then
        if cx.scope.endsDeclarator (stop + 2) then cx.declarators s typeName line (stop + 1)
        else return (s, stop + 1)
      else return (s, cx.afterStatement stop)) := by
  have hname : Ends cx.Cause (cx.Reaches (k + 1)) (cx.declarator s typeName line k) :=
    declarator_sound h
  rw [declarators]
  cases ho : cx.declarator s typeName line k with
  | error e => rfl
  | ok r =>
      obtain ⟨s', stop⟩ := r
      have hstop : k < stop + 1 := Nat.lt_succ_of_le (Nat.le_of_succ_le (hname.of_ok ho).1)
      show (if h : cx.scope.isPunct stop "," = true ∧ k < stop + 1 then
          if cx.scope.isIdent (stop + 1) then
            if cx.scope.endsDeclarator (stop + 2) then cx.declarators s' typeName line (stop + 1)
            else pure (s', stop + 1)
          else pure (s', stop)
        else pure (s', cx.afterStatement stop)) =
        if cx.scope.isPunct stop "," && cx.scope.isIdent (stop + 1) then
          if cx.scope.endsDeclarator (stop + 2) then cx.declarators s' typeName line (stop + 1)
          else pure (s', stop + 1)
        else pure (s', cx.afterStatement stop)
      split
      · next hcomma =>
          rw [hcomma.1, Bool.true_and, afterStatement_of_comma hcomma.1]
      · next hcomma =>
          have hno : cx.scope.isPunct stop "," = false :=
            Bool.eq_false_iff.2 fun h => hcomma ⟨h, hstop⟩
          rw [hno, Bool.false_and, if_neg Bool.false_ne_true]

/-! ## Lookups -/

/-- The kind of a name is found if the name is declared or tracked. -/
theorem exists_kind {s : FlowState} {name : String}
    (h : (s.declaredKind? name).isSome ∨ (s.arena.get? name).isSome) :
    ∃ kind, (s.declaredKind? name).or ((s.arena.get? name).map (·.kind)) = some kind := by
  cases hdeclared : s.declaredKind? name with
  | some kind => exact ⟨kind, rfl⟩
  | none =>
      rw [hdeclared] at h
      obtain ⟨v, hv⟩ := Option.isSome_iff_exists.1 (h.resolve_left Bool.false_ne_true)
      exact ⟨v.kind, by rw [hv]; rfl⟩

/-! ## Room -/

theorem Cause.ne_noToken {e : FlowError} (h : cx.Cause e) (i : Nat) : e ≠ .noToken i := by
  rintro rfl
  cases h with
  | literal h => cases h
  | template h => cases h
  | room h => cases h

/-- Nothing comes too deep where there is room for three calls for each opening parenthesis, and two. -/
theorem not_crowded {e : FlowError} (hroom : ∀ room, cx.room = some room → 3 * cx.scope.parenthesesFrom 0 + 2 ≤ room) :
    ¬ cx.Crowded e := by
  intro h
  cases h with
  | @intro room i arena hlimit hi hdeep =>
      have hfewer := cx.scope.parenthesesFrom_anti i.zero_le
      have henough := hroom room hlimit
      have hread := (cx.scope.within_eq arena room).1 i (by omega)
      cases (cx.scope.expression_ends arena i hi).of_error (hread.symm.trans hdeep)

theorem run_ne_tooDeep (hroom : ∀ room, cx.room = some room → 3 * cx.scope.parenthesesFrom 0 + 2 ≤ room) :
    cx.run ≠ .error .tooDeep := by
  intro hrun
  cases (run_sound cx).of_error hrun with
  | literal h => cases h
  | template h => cases h
  | room h => exact not_crowded hroom h

section TooDeep

open StraightLine

/-- An empty literal, with so many casts in front. -/
def castLiteral : Nat → List Lexeme
  | 0 => [(.stringLiteral, "\"\"")]
  | n + 1 => punct "(" :: word "A" :: punct ")" :: castLiteral n

/-- An empty literal, to which the one with the casts is joined. -/
def castSum (n : Nat) : List Lexeme := (.stringLiteral, "\"\"") :: op "+" :: castLiteral n

variable {b : Brackets} {i : Nat}

theorem isCast_castLiteral {n : Nat} (hr : Reads b i (castLiteral (n + 1))) : b.isCast i (i + 2) = true := by
  obtain ⟨-, hname, -, hrest⟩ := hr
  rw [Brackets.isCast, Bool.and_eq_true]
  constructor
  · cases n with
    | zero =>
        obtain ⟨t, ht, hl⟩ := hrest.1.exists_token
        have hkind : t.kind = .stringLiteral := congrArg Prod.fst hl
        simp [ht, Brackets.followsCast, Token.isString, hkind]
    | succ n =>
        obtain ⟨t, ht, hl⟩ := hrest.1.exists_token
        have hopens : t.isPunct "(" = true := by
          rw [isPunct_eq, hl]
          exact decide_eq_true rfl
        simp [ht, Brackets.followsCast, hopens]
  · have htype : Reads b (i + 1) [word "A"] := ⟨hname, trivial⟩
    have hslice : (b.slice (i + 1) (i + 1 + 1)).map lexeme = [word "A"] := reads_slice htype
    obtain ⟨t, ts, ht, hl, hts⟩ := List.map_eq_cons_iff.1 hslice
    obtain rfl := List.map_eq_nil_iff.1 hts
    have hkind : t.kind = .identifier := congrArg Prod.fst hl
    simp [ht, Brackets.isTypeToken, Token.isIdent, hkind]

/-- Each cast takes two calls. -/
theorem calls_castLiteral {n : Nat} (hr : Reads b i (castLiteral n)) : b.Calls i (2 * n + 1) := by
  induction n generalizing i with
  | zero => exact .own
  | succ n ih =>
      have hparts := hr
      obtain ⟨hopening, hname, hclosing, hrest⟩ := hparts
      have hcloser : b.closer? i = some (i + 2) :=
        closer?_eq_some (.flat (flat_word "A") .nil) ⟨hopening, hname, hclosing, trivial⟩
      have hopens : b.isPunct i "(" = true := by
        rw [hopening.isPunct]
        exact decide_eq_true rfl
      exact .cast hopens hcloser (isCast_castLiteral hr) (ih hrest)

theorem expressionWithin_castSum {room : Nat} (arena : Arena) (hr : Reads b 0 (castSum room)) :
    b.expressionWithin arena room 0 = .error .tooDeep := by
  obtain ⟨hliteral, hplus, hrest⟩ := hr
  cases room with
  | zero => rw [Brackets.expressionWithin]
  | succ room =>
      rw [Brackets.expressionWithin]
      have hdeep := (calls_castLiteral hrest).tooDeep arena (show room < 2 * (room + 1) + 1 by omega)
      have hsecond : 2 < b.size := hrest.1.lt_size
      rcases (b.limits_within arena room).2.1 0 with hfirst | hfirst
      · exact Brackets.operandsBy_of_error hliteral.lt_size hfirst
      · have hvalue : Literal.value "\"\"" = .ok "" := by decide +kernel
        obtain ⟨line, hread⟩ := operand_literal hliteral hvalue
        have hstop : b.skipPostfix (0 + 1) = 1 := skipPostfix_eq hplus (by decide)
        refine Brackets.operandsBy_of_rest_error (hfirst.trans hread) ?_ ?_
        · show b.isOp (b.skipPostfix (0 + 1)) "+" = true
          rw [hstop, hplus.isOp]
          exact decide_eq_true rfl
        · show b.operandsBy _ (b.skipPostfix (0 + 1) + 1) = _
          rw [hstop]
          exact Brackets.operandsBy_of_error hsecond hdeep

/-- A literal begins no statement. -/
theorem step_of_isString {s : FlowState} {t : Token} (ht : cx.scope.token? i = some t) (hstring : t.isString = true) :
    cx.step s i = cx.looseToken s 0 i := by
  have hkind : t.kind = .stringLiteral := beq_iff_eq.1 hstring
  have hident : t.isIdent = false := by rw [Token.isIdent, hkind]; rfl
  have hassign : cx.assignment? s i = .ok none := by
    rw [assignment?, ht]
    dsimp only
    split
    · rfl
    · rw [hident]
      rfl
  rw [step, declaration?, builderStatement?, ht, hassign]
  dsimp only
  rw [hident]
  rfl

/-- A limited room is too little for some code. -/
theorem exists_tooDeep (rules : RuleSet) (classifier : Classifier) (placeholder : Template) (room : Nat) :
    ∃ tokens, (ofTokens rules classifier placeholder tokens (some room)).run = .error .tooDeep := by
  refine ⟨(castSum room).map fun l => ⟨l.1, l.2, 1, 1⟩, ?_⟩
  generalize hcx : ofTokens rules classifier placeholder _ (some room) = cx
  have hroom : cx.room = some room := by rw [← hcx]; rfl
  have hr : Reads cx.scope.toBrackets 0 (castSum room) := by
    subst hcx
    refine reads_drop ?_
    show (((castSum room).map fun l => (⟨l.1, l.2, 1, 1⟩ : Token)).map lexeme) = castSum room
    rw [List.map_map]
    exact List.map_id _
  obtain ⟨t, ht, hl⟩ := hr.1.exists_token
  have hstring : t.isString = true := by
    have hkind : t.kind = .stringLiteral := congrArg Prod.fst hl
    rw [Token.isString, hkind]
    rfl
  have hstep : cx.step .start 0 = .error .tooDeep := by
    rw [step_of_isString ht hstring, looseToken, ht]
    dsimp only
    rw [hstring, looseExpression, Brackets.pullIn, dif_neg (by omega), expression, hroom]
    dsimp only
    rw [expressionWithin_castSum _ hr]
    rfl
  rw [run, steps, dif_pos hr.1.lt_size, hstep]
  rfl

end TooDeep

/-! ## With and without a limit -/

section Limits

variable {α : Type} {R : α → α → Prop} {o o' : Except FlowError α}

theorem alongside_of_limits (hR : ∀ a, R a a) (h : Limits o o') : Alongside .limiting R o o' := by
  rcases h with rfl | rfl
  · exact Alongside.stopped (ℓ := .limiting) rfl o'
  · cases o with
    | error e => exact .inr rfl
    | ok a => exact hR a

theorem limits_of_alongside (hR : ∀ a a', R a a' → a = a') (h : Alongside .limiting R o o') : Limits o o' := by
  cases o with
  | error e =>
      cases o' with
      | error e' => exact h.imp (congrArg Except.error) (congrArg Except.error)
      | ok a' => exact .inl (congrArg Except.error h)
  | ok a =>
      cases o' with
      | error e' => exact h.elim
      | ok a' => exact .inr (congrArg Except.ok (hR a a' h))

end Limits

theorem forall₂_eq_iff {α : Type} {l l' : List α} : l.Forall₂ Eq l' ↔ l = l' := by
  show l.Forall₂ (· = ·) l' ↔ _
  rw [List.forall₂_eq_eq_eq]

theorem eq_of_alike_variable {v v' : Variable} (h : v.Alike .limiting v') : v = v' := by
  obtain ⟨hname, hkind, hfirst, hlast, hfragments, hreported⟩ := h
  have hreported : v'.reportedAt = v.reportedAt := hreported.trans Option.map_id'
  have hfragments := forall₂_eq_iff.1 hfragments
  cases v
  cases v'
  simp_all [Leeway.limiting]

theorem eq_of_alike_arena {arena arena' : Arena} (h : arena.Alike .limiting arena') : arena = arena' := by
  induction h with
  | nil => rfl
  | cons hv _ ih => rw [eq_of_alike_variable hv, ih]

theorem eq_of_alike {s s' : FlowState} (h : s.Alike .limiting s') : s = s' := by
  obtain ⟨harena, hdeclared, hcandidates, hcommitted, hclosed⟩ := h
  have harena := eq_of_alike_arena harena
  have hclosed := eq_of_alike_arena hclosed
  have hcandidates := forall₂_eq_iff.1 hcandidates
  cases s
  cases s'
  simp_all

theorem code_limiting (b : Brackets) : b.Abreast .limiting b where
  change := ⟨fun _ => rfl, fun _ => rfl, fun _ _ => rfl, fun _ => .inl rfl⟩
  tokens := (Array.map_id _).symm
  startLine _ := rfl
  endLine _ := rfl
  value _ _ := alongside_of_limits (fun _ => rfl) (.inr rfl)
  number _ _ := rfl
  unknown _ _ _ := rfl

/-- A run with a limit gives what the one without gives, or it comes too deep. -/
theorem run_limits (cx : FlowContext) : Limits cx.run { cx with room := none }.run := by
  have habreast : Abreast .limiting cx { cx with room := none } :=
    { code := code_limiting _
      frames := rfl
      rules := rfl
      expression := fun arena arena' ha i => by
        obtain rfl := eq_of_alike_arena ha
        exact alongside_of_limits (fun _ => ⟨forall₂_eq_iff.2 rfl, rfl, rfl⟩) (cx.expression_limits arena i)
      reportOf := fun v v' hv => by
        obtain rfl := eq_of_alike_variable hv
        exact alongside_of_limits (fun _ => forall₂_eq_iff.2 rfl) (.inr rfl)
      looseCandidates := fun start i stop fs fs' _ _ hf => by
        obtain rfl := forall₂_eq_iff.1 hf
        exact alongside_of_limits (fun _ => forall₂_eq_iff.2 rfl) (.inr rfl) }
  exact limits_of_alongside (fun _ _ => eq_of_alike) habreast.run

/-! ## Totality -/

/-- Following a scope fails only for a cause, and all of its loops go forward within the scope. -/
structure Total (cx : FlowContext) (classifier : Classifier) : Prop where
  /-- The run ends with a result, or for a cause. -/
  run : Ends cx.Cause (fun _ => True) cx.run
  /-- Where nested calls are limited, the run ends as it does without a limit, or comes too deep. -/
  limits : Limits cx.run { cx with room := none }.run
  /-- Without a limit, or with room for three calls for each opening parenthesis and two more, nothing comes
  too deep. -/
  room : (∀ room, cx.room = some room → 3 * cx.scope.parenthesesFrom 0 + 2 ≤ room) → cx.run ≠ .error .tooDeep
  /-- A place that has to be in the scope is. -/
  place : ∀ i, cx.run ≠ .error (.noToken i)
  /-- From any state, a step leads to a later place, which the scope has or ends with. -/
  step : ∀ s i, i < cx.scope.size → Ends cx.Cause (cx.Reaches (i + 1)) (cx.step s i)
  /-- So does a name in a declaration. -/
  declarator : ∀ s typeName line k, k < cx.scope.size →
    Ends cx.Cause (cx.Reaches (k + 1)) (cx.declarator s typeName line k)
  /-- An expression does not end before it begins, nor after the scope does. -/
  expression : ∀ arena i, i ≤ cx.scope.size →
    Ends cx.Cause (fun e => i ≤ e.stop ∧ e.stop ≤ cx.scope.size) (cx.expression arena i)
  /-- A bracket group ends behind its opening bracket, within the scope. -/
  group : ∀ i j, cx.scope.closer? i = some j → i < j ∧ j < cx.scope.size
  /-- The frames around every token can be looked up. -/
  frames : ∀ i, i < cx.scope.size →
    cx.scope.lookUpFrames? classifier i = some (cx.scope.framesAt i)
  /-- The kind of a name that is declared or tracked can be looked up. -/
  kind : ∀ (s : FlowState) name, (s.declaredKind? name).isSome ∨ (s.arena.get? name).isSome →
    ∃ kind, (s.declaredKind? name).or ((s.arena.get? name).map (·.kind)) = some kind

/-- Whatever the tokens, the rules and the template are, following a scope is total, with room for any number
of nested calls or for so many of them.  With room for so many, some code comes too deep. -/
theorem total_ofTokens (rules : RuleSet) (classifier : Classifier) (placeholder : Template) (room : Option Nat) :
    (∀ tokens, (ofTokens rules classifier placeholder tokens room).Total classifier) ∧
      (room.isSome = true ↔
        ∃ tokens, (ofTokens rules classifier placeholder tokens room).run = .error .tooDeep) := by
  refine ⟨fun tokens => ?_, ?_⟩
  · exact
      { run := run_sound _
        limits := run_limits _
        room := run_ne_tooDeep
        place := fun i hrun => (Ends.of_error (run_sound _) hrun).ne_noToken i rfl
        step := fun _ _ h => step_sound h
        declarator := fun _ _ _ _ h => declarator_sound h
        expression := fun _ _ h => expression_ends h
        group := fun _ _ h => ⟨Brackets.lt_of_closer? h, Brackets.closer?_lt_size h⟩
        frames := fun _ h => Scope.lookUpFrames?_eq classifier h
        kind := fun _ _ h => exists_kind h }
  · cases room with
    | none => exact ⟨nofun, fun ⟨_, hrun⟩ => absurd hrun (run_ne_tooDeep nofun)⟩
    | some room => exact ⟨fun _ => exists_tooDeep rules classifier placeholder room, fun _ => rfl⟩

end FlowContext

end EmbeddedSql
