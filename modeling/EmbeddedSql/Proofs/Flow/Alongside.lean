/-
# Two runs side by side

Two scopes whose tokens differ in their lines and in the texts of literals only are followed side by
side.  No decision depends on more than the names, the kinds and the lengths of what is held, so the
two go the same way.  What they may differ in besides is their *leeway*:

| | |
| :-- | :-- |
| `token` | the tokens of the second scope, by those of the first one |
| `lines` | how many lines it stands further down |
| `fragment` | how the fragments that are read may differ |
| `found` | how the candidates that are reported may differ |
| `both`, `first` | how both may stop, and at what the first one alone |

A leeway suits two scopes (`FlowContext.Abreast`) if their literals, unknown values and reports differ
no more than it says, taken one at a time.  Then their runs do not either (`FlowContext.Abreast.run`).
-/
import Mathlib.Data.List.Forall2
import EmbeddedSql.Proofs.Flow.Failure
import EmbeddedSql.Proofs.Scope.Retouching
import EmbeddedSql.Scan.Source

namespace EmbeddedSql

/-- How far two runs may differ. -/
structure Leeway where
  token : Token → Token
  lines : Nat
  fragment : Fragment → Fragment → Prop
  found : List Candidate → List Candidate → Prop
  both : FlowError → FlowError → Prop
  first : FlowError → Prop
  found_nil : found [] []
  found_append : ∀ {cs cs' ds ds'}, found cs cs' → found ds ds' → found (cs ++ ds) (cs' ++ ds')
  both_of_first : ∀ {e}, first e → ∀ e', both e e'
  both_refl : ∀ e, both e e

/-- Two computations that end alike, as far as a leeway asks for it. -/
def Alongside {α β : Type} (ℓ : Leeway) (R : α → β → Prop) :
    Except FlowError α → Except FlowError β → Prop
  | .ok a, .ok b => R a b
  | .ok _, .error _ => False
  | .error e, .error e' => ℓ.both e e'
  | .error e, .ok _ => ℓ.first e

namespace Alongside

variable {α α' β β' : Type} {ℓ : Leeway} {R : α → α' → Prop} {Q : β → β' → Prop}

/-- What may stop the first one alone may do so whatever the second one does. -/
theorem stopped {e : FlowError} (he : ℓ.first e) (o : Except FlowError α') :
    Alongside ℓ R (.error e) o := by
  cases o with
  | error e' => exact ℓ.both_of_first he e'
  | ok a => exact he

theorem bind {o : Except FlowError α} {o' : Except FlowError α'} {f : α → Except FlowError β}
    {f' : α' → Except FlowError β'} (h : Alongside ℓ R o o')
    (hf : ∀ a a', R a a' → Alongside ℓ Q (f a) (f' a')) :
    Alongside ℓ Q (o >>= f) (o' >>= f') := by
  cases o with
  | ok a =>
      cases o' with
      | ok a' => exact hf a a' h
      | error e' => exact h.elim
  | error e =>
      cases o' with
      | error e' => exact h
      | ok a' => exact stopped h (f' a')

theorem map {o : Except FlowError α} {o' : Except FlowError α'} {f : α → β} {f' : α' → β'}
    (h : Alongside ℓ R o o') (hf : ∀ a a', R a a' → Q (f a) (f' a')) :
    Alongside ℓ Q (o.map f) (o'.map f') := by
  cases o with
  | ok a =>
      cases o' with
      | ok a' => exact hf a a' h
      | error e' => exact h.elim
  | error e =>
      cases o' with
      | error e' => exact h
      | ok a' => exact h

/-- What is known of the results of the first one may be used. -/
theorem and_ends {o : Except FlowError α} {o' : Except FlowError α'} {C : FlowError → Prop}
    {P : α → Prop} (h : Alongside ℓ R o o') (hP : Ends C P o) :
    Alongside ℓ (fun a a' => R a a' ∧ P a) o o' := by
  cases o with
  | error e => cases o' <;> exact h
  | ok a =>
      cases o' with
      | ok a' => exact ⟨h, hP⟩
      | error e' => exact h.elim

end Alongside

/-! ## States -/

variable {ℓ : Leeway}

/-- Variables whose fragments differ no more than they may. -/
structure Variable.Alike (ℓ : Leeway) (v v' : Variable) : Prop where
  name : v'.name = v.name
  kind : v'.kind = v.kind
  firstLine : v'.firstLine = v.firstLine + ℓ.lines
  lastLine : v'.lastLine = v.lastLine + ℓ.lines
  fragments : v.fragments.Forall₂ ℓ.fragment v'.fragments
  reportedAt : v'.reportedAt = v.reportedAt.map fun (count, line) => (count, line + ℓ.lines)

namespace Variable.Alike

variable {v v' : Variable} {fs fs' : List Fragment} {line line' : Nat}

/-- A variable that was never reported. -/
theorem fresh (name : String) (kind : VariableKind) (first last : Nat)
    (hf : fs.Forall₂ ℓ.fragment fs') :
    Variable.Alike ℓ ⟨name, kind, first, last, fs, none⟩
      ⟨name, kind, first + ℓ.lines, last + ℓ.lines, fs', none⟩ :=
  ⟨rfl, rfl, rfl, rfl, hf, rfl⟩

theorem length (h : v.Alike ℓ v') : v'.fragments.length = v.fragments.length :=
  h.fragments.length_eq.symm

theorem markReported (h : v.Alike ℓ v') : v.markReported.Alike ℓ v'.markReported :=
  { h with
    reportedAt := by
      simp only [Variable.markReported, extent, h.length, h.lastLine, Option.map_some] }

theorem extend (h : v.Alike ℓ v') (hf : fs.Forall₂ ℓ.fragment fs')
    (hl : line' = line + ℓ.lines) : (v.extend fs line).Alike ℓ (v'.extend fs' line') :=
  { h with
    lastLine := by simp only [Variable.extend, h.lastLine, hl, Nat.add_max_add_right]
    fragments := List.rel_append h.fragments hf }

theorem regrow (h : v.Alike ℓ v') (hf : fs.Forall₂ ℓ.fragment fs')
    (hl : line' = line + ℓ.lines) : (v.regrow fs line).Alike ℓ (v'.regrow fs' line') :=
  { h with
    lastLine := by simp only [Variable.regrow, h.lastLine, hl, Nat.add_max_add_right]
    fragments := hf }

theorem isUnreported (h : v.Alike ℓ v') : v'.isUnreported = v.isUnreported := by
  rw [Variable.isUnreported, Variable.isUnreported, extent, extent, h.length, h.lastLine,
    h.reportedAt]
  cases v.reportedAt with
  | none => rfl
  | some p => simp [Prod.ext_iff]

end Variable.Alike

/-- Arenas whose variables are alike one by one. -/
abbrev Arena.Alike (ℓ : Leeway) : Arena → Arena → Prop := List.Forall₂ (Variable.Alike ℓ)

namespace Arena.Alike

variable {arena arena' : Arena}

theorem get? (h : arena.Alike ℓ arena') (name : String) :
    arena.get? name = none ∧ arena'.get? name = none ∨
      ∃ v v', arena.get? name = some v ∧ arena'.get? name = some v' ∧ v.Alike ℓ v' := by
  induction h with
  | nil => exact .inl ⟨rfl, rfl⟩
  | @cons v v' rest rest' hv _ ih =>
      by_cases hn : v.name = name
      · exact .inr ⟨v, v', by simp [Arena.get?, hn], by simp [Arena.get?, hv.name, hn], hv⟩
      · simpa [Arena.get?, hv.name, hn] using ih

theorem put {v v' : Variable} (h : arena.Alike ℓ arena') (hv : v.Alike ℓ v') :
    (arena.put v).Alike ℓ (arena'.put v') := by
  induction h with
  | nil => exact .cons hv .nil
  | @cons u u' rest rest' hu hr ih =>
      rw [Arena.put, Arena.put, hu.name, hv.name]
      split
      · exact .cons hv hr
      · exact .cons hu ih

theorem erase (h : arena.Alike ℓ arena') (name : String) :
    (arena.erase name).Alike ℓ (arena'.erase name) := by
  induction h with
  | nil => exact .nil
  | @cons v v' rest rest' hv _ ih =>
      rw [Arena.erase, Arena.erase, List.filter_cons, List.filter_cons, hv.name]
      split
      · exact .cons hv ih
      · exact ih

/-- A question about the kind of a variable. -/
theorem any_kind (h : arena.Alike ℓ arena') (name : String) (kind : VariableKind) :
    (arena'.get? name).any (·.kind == kind) = (arena.get? name).any (·.kind == kind) := by
  rcases h.get? name with ⟨hn, hn'⟩ | ⟨v, v', hv, hv', ha⟩
  · rw [hn, hn']
  · rw [hv, hv', Option.any_some, Option.any_some, ha.kind]

theorem map_kind (h : arena.Alike ℓ arena') (name : String) :
    (arena'.get? name).map (·.kind) = (arena.get? name).map (·.kind) := by
  rcases h.get? name with ⟨hn, hn'⟩ | ⟨v, v', hv, hv', ha⟩
  · rw [hn, hn']
  · rw [hv, hv', Option.map_some, Option.map_some, ha.kind]

end Arena.Alike

/-- States that know the same names, have read the same literals and have found what they may. -/
structure FlowState.Alike (ℓ : Leeway) (s s' : FlowState) : Prop where
  arena : s.arena.Alike ℓ s'.arena
  declared : s'.declared = s.declared
  candidates : ℓ.found s.candidates s'.candidates
  committed : s'.committed = s.committed
  closed : Arena.Alike ℓ s.closed s'.closed

/-- Expressions of the same extent. -/
structure Expression.Alike (ℓ : Leeway) (e e' : Expression) : Prop where
  fragments : e.fragments.Forall₂ ℓ.fragment e'.fragments
  literals : e'.literals = e.literals
  stop : e'.stop = e.stop

structure Operand.Alike (ℓ : Leeway) {i : Nat} (o o' : Operand i) : Prop where
  fragments : o.fragments.Forall₂ ℓ.fragment o'.fragments
  literals : o'.literals = o.literals
  stop : o'.stop = o.stop

namespace FlowState.Alike

variable {s s' : FlowState}

theorem commit {e e' : Expression} (h : s.Alike ℓ s') (he : e.Alike ℓ e') :
    (s.commit e).Alike ℓ (s'.commit e') :=
  { h with committed := by simp only [FlowState.commit, h.committed, he.literals] }

theorem bind {v v' : Variable} (h : s.Alike ℓ s') (hv : v.Alike ℓ v') :
    (s.bind v).Alike ℓ (s'.bind v') :=
  { h with arena := h.arena.put hv }

theorem modify {change change' : Variable → Variable} (h : s.Alike ℓ s') (name : String)
    (hc : ∀ v v', v.Alike ℓ v' → (change v).Alike ℓ (change' v')) :
    (s.modify name change).Alike ℓ (s'.modify name change') := by
  unfold FlowState.modify
  rcases h.arena.get? name with ⟨hn, hn'⟩ | ⟨v, v', hv, hv', ha⟩
  · rw [hn, hn']
    exact h
  · rw [hv, hv']
    exact h.bind (hc v v' ha)

theorem declareKind (h : s.Alike ℓ s') (name : String) (kind : VariableKind) :
    (s.declareKind name kind).Alike ℓ (s'.declareKind name kind) :=
  { h with declared := by simp only [FlowState.declareKind, h.declared] }

theorem declaredKind? (h : s.Alike ℓ s') (name : String) :
    s'.declaredKind? name = s.declaredKind? name := by
  rw [FlowState.declaredKind?, FlowState.declaredKind?, h.declared]

end FlowState.Alike

/-! ## Literals and expressions -/

/-- The second code is on other lines and has other literals, and what is read from it differs no more
than it may. -/
structure Brackets.Abreast (ℓ : Leeway) (b b' : Brackets) : Prop
    extends Brackets.Retouched ℓ.token b b' where
  startLine : ∀ t, (ℓ.token t).startLine = t.startLine + ℓ.lines
  endLine : ∀ t, (ℓ.token t).endLine = t.endLine + ℓ.lines
  value : ∀ t line, Alongside ℓ
    (fun v v' => ℓ.fragment (.literal v line) (.literal v' (line + ℓ.lines)))
    t.value (ℓ.token t).value
  number : ∀ text line, ℓ.fragment (.literal text line) (.literal text (line + ℓ.lines))
  unknown : ∀ start stop line, ℓ.fragment (.unknown (b.sourceText start stop) line)
    (.unknown (b'.sourceText start stop) (line + ℓ.lines))

namespace Brackets

namespace Abreast

variable {b b' : Brackets} {arena arena' : Arena}

theorem operand_unknown (h : b.Abreast ℓ b') {i stop line line' : Nat} (hs hs' : i < stop)
    (hl : line' = line + ℓ.lines) :
    (b.unknown line stop hs).Alike ℓ (b'.unknown line' stop hs') := by
  subst hl
  exact ⟨.cons (h.unknown i stop line) .nil, rfl, rfl⟩

theorem reference (h : b.Abreast ℓ b') (ha : arena.Alike ℓ arena') (i : Nat) {t t' : Token}
    (ht : t'.text = t.text) (hl : t'.startLine = t.startLine + ℓ.lines) :
    (b.reference arena i t).Alike ℓ (b'.reference arena' i t') := by
  unfold Brackets.reference
  simp only [h.skipPostfix, h.afterDot, h.isToString, ht]
  by_cases hd : b.afterDot i
  · simp only [hd, if_true]
    exact h.operand_unknown _ _ hl
  · simp only [hd, Bool.false_eq_true, if_false]
    rcases ha.get? t.text with ⟨hn, hn'⟩ | ⟨v, v', hv, hv', hvv⟩
    · simp only [hn, hn']
      exact h.operand_unknown _ _ hl
    · simp only [hv, hv']
      split
      · exact ⟨hvv.fragments, rfl, rfl⟩
      · exact h.operand_unknown _ _ hl

mutual
theorem expression (h : b.Abreast ℓ b') (ha : arena.Alike ℓ arena') (i : Nat) :
    Alongside ℓ (Expression.Alike ℓ) (b.expression arena i) (b'.expression arena' i) := by
  rw [Brackets.expression, Brackets.expression]
  refine (operand h ha i).bind fun first first' hf => ?_
  cases hf with
  | none => exact ⟨.nil, rfl, rfl⟩
  | @some o o' ho =>
      dsimp only
      rw [ho.stop, h.isOp]
      by_cases hp : b.isOp o.stop "+" = true
      · rw [dif_pos hp, dif_pos hp]
        have hlt : o.stop < b.size := lt_size_of_any hp
        have := o.start_lt_stop
        refine (expression h ha (o.stop + 1)).bind fun rest rest' hr => ?_
        exact ⟨List.rel_append ho.fragments hr.fragments, by simp only [ho.literals, hr.literals], hr.stop⟩
      · rw [dif_neg hp, dif_neg hp]
        exact ⟨ho.fragments, ho.literals, rfl⟩
termination_by (b.size - i, 2)

theorem operand (h : b.Abreast ℓ b') (ha : arena.Alike ℓ arena') (i : Nat) :
    Alongside ℓ (Option.Rel (Operand.Alike ℓ)) (b.operand arena i) (b'.operand arena' i) := by
  have hvalue (t : Token) : Alongside ℓ (fun v v' => List.Forall₂ ℓ.fragment
      [.literal v t.startLine] [.literal v' (t.startLine + ℓ.lines)]) t.value (ℓ.token t).value := by
    simpa only [List.forall₂_cons, List.forall₂_nil_left_iff, and_true] using h.value t t.startLine
  rw [Brackets.operand, Brackets.operand]
  by_cases hi : i < b.size
  · have hi' : i < b'.size := h.size.symm ▸ hi
    rw [dif_pos hi, dif_pos hi']
    simp only [h.getElem hi, h.change.kind, h.startLine, h.skipPostfix]
    cases hk : b.tokens[i].kind with
    | stringLiteral => exact (hvalue b.tokens[i]).map fun _ _ hv => .some ⟨hv, rfl, rfl⟩
    | other =>
        dsimp only
        rw [h.change.isCharLiteral]
        by_cases hc : b.tokens[i].isCharLiteral
        · rw [if_pos hc, if_pos hc]
          exact (hvalue b.tokens[i]).map fun _ _ hv => .some ⟨hv, rfl, rfl⟩
        · have ht : (ℓ.token b.tokens[i]).text = b.tokens[i].text := h.change.text _ (by
            simp [Token.isLiteral, Token.isString, hk, hc])
          have hn : (ℓ.token b.tokens[i]).showsNumber = b.tokens[i].showsNumber := by
            rw [Token.showsNumber, Token.showsNumber, ht]
          rw [if_neg hc, if_neg hc, hn, ht]
          split
          · exact .some ⟨.cons (h.number _ _) .nil, rfl, rfl⟩
          · exact .none
    | punctuation =>
        dsimp only
        rw [h.change.of_kind b.tokens[i] (by simp [hk]) (by simp [hk])]
        split
        · exact (group h ha i hi hi').map fun _ _ hg => .some hg
        · exact .none
    | identifier =>
        have ht : (ℓ.token b.tokens[i]).text = b.tokens[i].text :=
          h.change.of_kind b.tokens[i] (by simp [hk]) (by simp [hk])
        dsimp only
        simp only [ht, h.skipNew]
        split
        · exact .none
        · split
          · exact .some (h.operand_unknown _ _ rfl)
          · exact .some (h.reference ha i ht (h.startLine _))
    | _ => exact .none
  · rw [dif_neg hi, dif_neg (h.size.symm ▸ hi)]
    exact .none
termination_by (b.size - i, 1)

theorem group (h : b.Abreast ℓ b') (ha : arena.Alike ℓ arena') (i : Nat) (hi : i < b.size)
    (hi' : i < b'.size) : Alongside ℓ (Operand.Alike ℓ) (b.group arena i hi)
      (b'.group arena' i hi') := by
  have hline : b'.tokens[i].startLine = b.tokens[i].startLine + ℓ.lines := by
    rw [h.getElem hi, h.startLine]
  cases hc : b.closer? i with
  | none =>
      rw [group_of_unclosed arena hi hc, group_of_unclosed arena' hi' ((h.closer? i).trans hc)]
      simp only [h.size]
      exact h.operand_unknown _ _ hline
  | some close =>
      have hlt : i < close := lt_of_closer? hc
      have hs : i < b.skipPostfix (close + 1) :=
        Nat.lt_of_lt_of_le (by omega) (b.le_skipPostfix (close + 1))
      rw [group_of_closed arena hi hc hlt hs, group_of_closed arena' hi'
        ((h.closer? i).trans hc) hlt ((h.skipPostfix _).symm ▸ hs)]
      have hcast : Alongside ℓ (Option.Rel (Operand.Alike ℓ))
          (if b.isCast i close then b.operand arena (close + 1) else .ok none)
          (if b'.isCast i close then b'.operand arena' (close + 1) else .ok none) := by
        rw [h.isCast]
        split
        · exact operand h ha (close + 1)
        · exact .none
      refine hcast.bind fun o o' ho => ?_
      cases ho with
      | some ho => exact ⟨ho.fragments, ho.literals, ho.stop⟩
      | none =>
          refine (expression h ha (i + 1)).bind fun e e' he => ?_
          simp only [h.skipPostfix, he.stop, ne_eq, ← List.length_eq_zero_iff,
            he.fragments.length_eq]
          split
          · exact ⟨he.fragments, he.literals, rfl⟩
          · exact h.operand_unknown _ _ hline
termination_by (b.size - i, 0)
end

/-! ## Looking at tokens -/

variable {cx cx' : FlowContext}

theorem fetch (h : Brackets.Abreast ℓ cx.scope.toBrackets cx'.scope.toBrackets) (i : Nat) :
    Alongside ℓ (fun t t' => t' = ℓ.token t) (cx.fetch i) (cx'.fetch i) := by
  unfold FlowContext.fetch
  rw [h.token?]
  cases cx.scope.token? i with
  | none => exact ℓ.both_refl _
  | some t => rfl

theorem lastLine (h : Brackets.Abreast ℓ cx.scope.toBrackets cx'.scope.toBrackets)
    (start stop : Nat) :
    Alongside ℓ (fun n n' => n' = n + ℓ.lines) (cx.lastLine start stop)
      (cx'.lastLine start stop) := by
  unfold FlowContext.lastLine
  rw [show cx'.scope.size = cx.scope.size from h.size]
  refine (h.fetch _).map ?_
  rintro t t' rfl
  exact h.endLine t

end Abreast

end Brackets

/-- A binding further down. -/
def Binding.down (n : Nat) (binding : Binding) : Binding :=
  { binding with line := binding.line + n }

namespace FlowContext

/-- Expressions are read alike where nested calls are not limited. -/
theorem expression_alongside {cx cx' : FlowContext}
    (h : Brackets.Abreast ℓ cx.scope.toBrackets cx'.scope.toBrackets) (hroom : cx.room = none)
    (hroom' : cx'.room = none) {arena arena' : Arena} (ha : arena.Alike ℓ arena') (i : Nat) :
    Alongside ℓ (Expression.Alike ℓ) (cx.expression arena i) (cx'.expression arena' i) := by
  rw [expression_of_unlimited hroom, expression_of_unlimited hroom']
  exact h.expression ha i

/-- Scopes that a leeway suits. -/
structure Abreast (ℓ : Leeway) (cx cx' : FlowContext) : Prop where
  code : Brackets.Abreast ℓ cx.scope.toBrackets cx'.scope.toBrackets
  frames : cx'.scope.frames = cx.scope.frames
  rules : cx'.rules = cx.rules
  expression : ∀ arena arena', arena.Alike ℓ arena' → ∀ i,
    Alongside ℓ (Expression.Alike ℓ) (cx.expression arena i) (cx'.expression arena' i)
  reportOf : ∀ v v', v.Alike ℓ v' → Alongside ℓ ℓ.found (cx.reportOf v) (cx'.reportOf v')
  looseCandidates : ∀ start i stop fs fs', start < cx.scope.size → stop ≤ cx.scope.size →
    fs.Forall₂ ℓ.fragment fs' → Alongside ℓ ℓ.found (cx.looseCandidates start i stop fs)
      (cx'.looseCandidates start i stop fs')

namespace Abreast

/-- A state and a place to go on at. -/
abbrev Stepped (ℓ : Leeway) (p p' : FlowState × Nat) : Prop := p.1.Alike ℓ p'.1 ∧ p'.2 = p.2

variable {cx cx' : FlowContext} (h : Abreast ℓ cx cx')
include h

theorem fetch (i : Nat) : Alongside ℓ (fun t t' => t' = ℓ.token t) (cx.fetch i) (cx'.fetch i) :=
  h.code.fetch i

theorem lastLine (start stop : Nat) :
    Alongside ℓ (fun n n' => n' = n + ℓ.lines) (cx.lastLine start stop)
      (cx'.lastLine start stop) :=
  h.code.lastLine start stop

theorem callClassAt (i : Nat) : cx'.scope.callClassAt i = cx.scope.callClassAt i := by
  rw [Scope.callClassAt, Scope.callClassAt, Scope.framesAt, Scope.framesAt, h.frames]

theorem underSink (i : Nat) : cx'.scope.underSink i = cx.scope.underSink i := by
  rw [Scope.underSink, Scope.underSink, h.callClassAt]

/-! ## Reporting -/

variable {s s' : FlowState}

theorem report {v v' : Variable} (hs : s.Alike ℓ s') (hv : v.Alike ℓ v') :
    Alongside ℓ (FlowState.Alike ℓ) (cx.report s v) (cx'.report s' v') :=
  (h.reportOf v v' hv).map fun _ _ hf =>
    ⟨hs.arena.put hv.markReported, hs.declared, ℓ.found_append hs.candidates hf, hs.committed, hs.closed⟩

theorem reportNamed (hs : s.Alike ℓ s') (name : String) :
    Alongside ℓ (FlowState.Alike ℓ) (cx.reportNamed s name) (cx'.reportNamed s' name) := by
  rw [FlowContext.reportNamed, FlowContext.reportNamed]
  rcases hs.arena.get? name with ⟨hn, hn'⟩ | ⟨v, v', hv, hv', ha⟩
  · rw [hn, hn']
    exact hs
  · rw [hv, hv']
    exact h.report hs ha

theorem close {v v' : Variable} (hs : s.Alike ℓ s') (hv : v.Alike ℓ v') :
    Alongside ℓ (FlowState.Alike ℓ) (cx.close s v) (cx'.close s' v') := by
  have hr : Alongside ℓ ℓ.found (if v.isUnreported then cx.reportOf v else .ok [])
      (if v'.isUnreported then cx'.reportOf v' else .ok []) := by
    rw [hv.isUnreported]
    split
    · exact h.reportOf v v' hv
    · exact ℓ.found_nil
  exact hr.map fun _ _ hf =>
    ⟨hs.arena, hs.declared, ℓ.found_append hs.candidates hf, hs.committed,
      List.rel_append hs.closed (.cons hv.markReported .nil)⟩

theorem discard (hs : s.Alike ℓ s') (name : String) :
    Alongside ℓ (FlowState.Alike ℓ) (cx.discard s name) (cx'.discard s' name) := by
  have hr : FlowState.Alike ℓ
      { s with arena := s.arena.erase name, declared := s.declared.filter (·.1 != name) }
      { s' with arena := s'.arena.erase name, declared := s'.declared.filter (·.1 != name) } :=
    ⟨hs.arena.erase name, by rw [hs.declared], hs.candidates, hs.committed, hs.closed⟩
  rw [FlowContext.discard, FlowContext.discard]
  rcases hs.arena.get? name with ⟨hn, hn'⟩ | ⟨v, v', hv, hv', ha⟩
  · rw [hn, hn']
    exact hr
  · rw [hv, hv']
    exact h.close hr ha

theorem reset (hs : s.Alike ℓ s') (name : String) (line : Nat) :
    Alongside ℓ (FlowState.Alike ℓ) (cx.reset s name line)
      (cx'.reset s' name (line + ℓ.lines)) := by
  rw [FlowContext.reset, FlowContext.reset]
  rcases hs.arena.get? name with ⟨hn, hn'⟩ | ⟨v, v', hv, hv', ha⟩
  · rw [hn, hn']
    exact hs
  · rw [hv, hv']
    exact (h.close hs ha).map fun t t' ht => ht.bind (.fresh _ _ _ _ .nil)

theorem declare (hs : s.Alike ℓ s') (name : String) (kind : VariableKind) :
    Alongside ℓ (FlowState.Alike ℓ) (cx.declare s name kind) (cx'.declare s' name kind) :=
  (h.discard hs name).map fun _ _ ht => ht.declareKind name kind

theorem rebind {v v' : Variable} (hs : s.Alike ℓ s') (hv : v.Alike ℓ v') :
    Alongside ℓ (FlowState.Alike ℓ) (cx.rebind s v) (cx'.rebind s' v') := by
  rw [FlowContext.rebind, FlowContext.rebind, hv.name, hv.kind]
  exact (h.discard hs v.name).map fun _ _ ht => (ht.bind hv).declareKind v.name v.kind

theorem flush {arena arena' : Arena} (hs : s.Alike ℓ s') (ha : arena.Alike ℓ arena') :
    Alongside ℓ (FlowState.Alike ℓ) (cx.flush s arena) (cx'.flush s' arena') := by
  induction ha generalizing s s' with
  | nil => exact hs
  | @cons v v' rest rest' hv _ ih =>
      rw [FlowContext.flush, FlowContext.flush, hv.isUnreported]
      split
      · exact (h.report hs hv).bind fun t t' ht => ih ht
      · exact ih hs

/-! ## Loose tokens -/

theorem looseExpression {lower i : Nat} (hs : s.Alike ℓ s') (hi : i < cx.scope.size) :
    Alongside ℓ (Stepped ℓ) (cx.looseExpression s lower i) (cx'.looseExpression s' lower i) := by
  have hp := pullIn_le cx.scope.toBrackets lower i
  have he : Ends cx.Cause _ (cx.expression s.arena (cx.scope.pullIn lower i)) := expression_ends (by omega)
  rw [FlowContext.looseExpression, FlowContext.looseExpression, h.code.pullIn, h.callClassAt]
  refine ((h.expression _ _ hs.arena _).and_ends he).bind ?_
  rintro e e' ⟨hee, hstop⟩
  have ht := hs.commit hee
  simp only [hee.stop]
  split
  · exact ⟨ht, rfl⟩
  · refine (h.looseCandidates _ _ _ _ _ (by omega) (by omega) hee.fragments).bind
      fun found found' hf => ?_
    exact ⟨⟨ht.arena, ht.declared, ℓ.found_append ht.candidates hf, ht.committed, ht.closed⟩, rfl⟩

theorem looseToken {lower i : Nat} (hs : s.Alike ℓ s') (hi : i < cx.scope.size) :
    Alongside ℓ (Stepped ℓ) (cx.looseToken s lower i) (cx'.looseToken s' lower i) := by
  rw [FlowContext.looseToken, FlowContext.looseToken, h.code.token?]
  cases cx.scope.token? i with
  | none => exact ℓ.both_refl _
  | some t =>
      dsimp only [Option.map_some]
      rw [h.code.change.isString, hs.committed, h.code.change.isIdent, h.code.afterDot, h.underSink]
      split
      · exact h.looseExpression hs hi
      · by_cases ht : t.isIdent
        · rw [h.code.change.of_isIdent ht]
          split
          · exact (h.reportNamed hs t.text).map fun _ _ ht => ⟨ht, rfl⟩
          · exact ⟨hs, rfl⟩
        · simp only [ht, Bool.false_and, Bool.false_eq_true, if_false]
          exact ⟨hs, rfl⟩

theorem scanFrom {s s' : FlowState} (hs : s.Alike ℓ s') (lower i stop : Nat) :
    Alongside ℓ (FlowState.Alike ℓ) (cx.scanFrom s lower i stop) (cx'.scanFrom s' lower i stop) := by
  rw [FlowContext.scanFrom, FlowContext.scanFrom, show cx'.scope.size = cx.scope.size from
    h.code.size]
  by_cases hi : i < min stop cx.scope.size
  · rw [dif_pos hi, dif_pos hi]
    refine (h.looseToken hs (by omega)).bind ?_
    rintro ⟨t, next⟩ ⟨t', next'⟩ ⟨ht, hn⟩
    obtain rfl : next' = next := hn
    exact scanFrom ht lower (max next' (i + 1)) stop
  · rw [dif_neg hi, dif_neg hi]
    exact hs
termination_by min stop cx.scope.size - i

theorem scanLoose (hs : s.Alike ℓ s') (start stop : Nat) :
    Alongside ℓ (FlowState.Alike ℓ) (cx.scanLoose s start stop) (cx'.scanLoose s' start stop) :=
  h.scanFrom hs start start stop

/-! ## Chains of calls -/

theorem append {name : String} {opening closing : Nat} (hs : s.Alike ℓ s') :
    Alongside ℓ (FlowState.Alike ℓ) (cx.append s name opening closing)
      (cx'.append s' name opening closing) := by
  unfold FlowContext.append
  split
  · exact hs
  · refine (h.expression _ _ hs.arena _).bind fun e e' he => ?_
    refine (h.fetch _).bind ?_
    rintro last last' rfl
    dsimp only
    simp only [he.stop]
    split
    · refine h.scanLoose ?_ _ _
      exact (hs.commit he).modify name fun v v' hv => hv.extend he.fragments (h.code.endLine last)
    · refine (h.fetch _).bind ?_
      rintro first first' rfl
      refine h.scanLoose (hs.modify name fun v v' hv => hv.extend ?_ (h.code.endLine last)) _ _
      rw [h.code.startLine]
      exact .cons (h.code.unknown _ _ _) .nil

theorem applyCall {name : String} {i opening closing : Nat} (hs : s.Alike ℓ s')
    (hi : cx.scope.isIdent i) :
    Alongside ℓ (FlowState.Alike ℓ) (cx.applyCall s name i opening closing)
      (cx'.applyCall s' name i opening closing) := by
  have hm := fetch_ends (C := fun _ => True) (Brackets.lt_size_of_any hi)
  unfold FlowContext.applyCall
  refine ((h.fetch i).and_ends hm).bind ?_
  rintro method _ ⟨rfl, hmethod⟩
  have hident : method.isIdent := by
    rwa [Brackets.isIdent, hmethod, Option.any_some] at hi
  rw [h.code.change.of_isIdent hident, h.code.sourceText_eq_zero]
  split
  · exact h.append hs
  · split
    · rw [h.code.startLine]
      exact h.reset hs name _
    · split
      · exact hs
      · exact h.scanLoose hs _ _

theorem endChain (hs : s.Alike ℓ s') (stops : List String) (i : Nat) :
    Alongside ℓ (Stepped ℓ) (cx.endChain s stops i) (cx'.endChain s' stops i) := by
  unfold FlowContext.endChain
  simp only [h.code.skipToStop]
  exact (h.scanLoose hs _ _).map fun _ _ ht => ⟨ht, rfl⟩

theorem applyChain {s s' : FlowState} (hs : s.Alike ℓ s') (name : String) (stops : List String)
    (i : Nat) :
    Alongside ℓ (Stepped ℓ) (cx.applyChain s name stops i) (cx'.applyChain s' name stops i) := by
  rw [FlowContext.applyChain, FlowContext.applyChain]
  simp only [h.code.isPunct, h.code.isIdent]
  by_cases hd : cx.scope.isPunct i "." = true
  · rw [dif_pos hd, dif_pos hd]
    have hi : i < cx.scope.size := Brackets.lt_size_of_any hd
    by_cases hc : (cx.scope.isIdent (i + 1) && cx.scope.isPunct (i + 2) "(") = true
    · rw [if_pos hc, if_pos hc]
      rw [Bool.and_eq_true] at hc
      split
      · next hn =>
          split
          · exact ⟨hs, h.code.size⟩
          · next hn' => rw [h.code.closer?, hn] at hn'; cases hn'
      · next closing hn =>
          split
          · next hn' => rw [h.code.closer?, hn] at hn'; cases hn'
          · next closing' hn' =>
              obtain rfl : closing' = closing := by rw [h.code.closer?, hn] at hn'; cases hn'; rfl
              have hlt : i + 2 < closing' := Brackets.lt_of_closer? hn
              refine (h.applyCall hs hc.1).bind fun t t' ht => ?_
              exact applyChain ht name stops (closing' + 1)
    · rw [if_neg hc, if_neg hc]
      exact h.endChain hs stops i
  · rw [dif_neg hd, dif_neg hd]
    exact h.endChain hs stops i
termination_by cx.scope.size - i

/-! ## Bindings -/

theorem initialFragments {opening closing : Nat} (hs : s.Alike ℓ s') :
    Alongside ℓ (fun p p' => p.1.Alike ℓ p'.1 ∧ p.2.Forall₂ ℓ.fragment p'.2)
      (cx.initialFragments s opening closing) (cx'.initialFragments s' opening closing) := by
  unfold FlowContext.initialFragments
  rw [h.code.slice]
  cases cx.scope.slice (opening + 1) closing with
  | nil => exact ⟨hs, .nil⟩
  | cons first rest =>
      simp only [List.map_cons, List.isEmpty_map, Bool.and_assoc, h.code.change.startsDigit]
      split
      · exact ⟨hs, .nil⟩
      · refine (h.expression _ _ hs.arena _).bind fun e e' he => ?_
        simp only [he.stop, h.code.startLine]
        split
        · exact ⟨hs.commit he, he.fragments⟩
        · exact ⟨hs, .cons (h.code.unknown _ _ _) .nil⟩

theorem bindBuilder {name : String} {line i : Nat} (hs : s.Alike ℓ s') :
    Alongside ℓ (Stepped ℓ) (cx.bindBuilder s name line i)
      (cx'.bindBuilder s' name (line + ℓ.lines) i) := by
  unfold FlowContext.bindBuilder
  simp only [h.code.closer?, show cx'.scope.size = cx.scope.size from h.code.size]
  refine (h.initialFragments hs).bind ?_
  rintro ⟨t, fs⟩ ⟨t', fs'⟩ ⟨ht, hf⟩
  refine (h.fetch _).bind ?_
  rintro last last' rfl
  dsimp only
  rw [h.code.endLine, Nat.add_max_add_right]
  refine (h.rebind ht (.fresh _ _ _ _ hf)).bind fun u u' hu => ?_
  exact (h.scanLoose hu _ _).bind fun x x' hx => h.applyChain hx name _ _

theorem bindPlain {binding : Binding} {rhs : Nat} (hs : s.Alike ℓ s') :
    Alongside ℓ (Stepped ℓ) (cx.bindPlain s binding rhs)
      (cx'.bindPlain s' (binding.down ℓ.lines) rhs) := by
  unfold FlowContext.bindPlain
  refine (h.expression _ _ hs.arena _).bind fun e e' he => ?_
  simp only [Binding.down, he.stop, h.code.skipToStop, hs.arena.any_kind, h.code.isWord,
    h.code.isOp]
  refine (h.lastLine _ _).bind ?_
  rintro last _ rfl
  have ht := hs.commit he
  split
  · refine (h.scanLoose ?_ _ _).map fun _ _ hx => ⟨hx, rfl⟩
    exact ht.modify binding.name fun v v' hv => hv.regrow he.fragments rfl
  · rw [Nat.add_max_add_right]
    refine (h.rebind ht (.fresh _ _ _ _ he.fragments)).bind fun u u' hu => ?_
    exact (h.scanLoose hu _ _).map fun _ _ hx => ⟨hx, rfl⟩

theorem constructsBuilder (binding : Binding) (rhs : Nat) :
    cx'.constructsBuilder (binding.down ℓ.lines) rhs = cx.constructsBuilder binding rhs := by
  have htype (t : Token) : ((ℓ.token t).isIdent && cx.rules.isBuilderType (ℓ.token t).text)
      = (t.isIdent && cx.rules.isBuilderType t.text) :=
    h.code.change.word t cx.rules.isBuilderType
  unfold FlowContext.constructsBuilder
  rw [h.rules, h.code.isWord, h.code.isPunct, h.code.any_token? htype]
  rfl

theorem losesTarget (hs : s.Alike ℓ s') (binding : Binding) (rhs : Nat) :
    cx'.losesTarget s' (binding.down ℓ.lines) rhs = cx.losesTarget s binding rhs := by
  unfold FlowContext.losesTarget Binding.down
  rw [hs.arena.any_kind, h.code.isWord]

theorem bindValue {binding : Binding} {rhs : Nat} (hs : s.Alike ℓ s') :
    Alongside ℓ (Stepped ℓ) (cx.bindValue s binding rhs)
      (cx'.bindValue s' (binding.down ℓ.lines) rhs) := by
  unfold FlowContext.bindValue
  rw [h.constructsBuilder, h.losesTarget hs, h.code.skipToStop]
  split
  · exact h.bindBuilder hs
  · split
    · refine (h.discard hs _).bind fun t t' ht => ?_
      exact (h.scanLoose ht _ _).map fun _ _ hx => ⟨hx, rfl⟩
    · exact h.bindPlain hs

/-! ## Statements -/

theorem afterStatement (stop : Nat) : cx'.afterStatement stop = cx.afterStatement stop := by
  unfold FlowContext.afterStatement
  rw [h.code.isPunct]

theorem declarator {typeName : String} {line k : Nat} (hs : s.Alike ℓ s')
    (hk : cx.scope.isIdent k) :
    Alongside ℓ (Stepped ℓ) (cx.declarator s typeName line k)
      (cx'.declarator s' typeName (line + ℓ.lines) k) := by
  have hm := fetch_ends (C := fun _ => True) (Brackets.lt_size_of_any hk)
  unfold FlowContext.declarator
  refine ((h.fetch k).and_ends hm).bind ?_
  rintro name _ ⟨rfl, hname⟩
  have hident : name.isIdent := by rwa [Brackets.isIdent, hname, Option.any_some] at hk
  rw [h.code.change.of_isIdent hident, h.code.isOp, h.rules, FlowContext.kindOfType,
    FlowContext.kindOfType, h.rules]
  split
  · exact h.bindValue hs
  · split
    · exact (h.declare hs _ _).map fun _ _ ht => ⟨ht, rfl⟩
    · exact ⟨hs, rfl⟩

theorem declarators {s s' : FlowState} {typeName : String} {line k : Nat} (hs : s.Alike ℓ s')
    (hk : cx.scope.isIdent k) :
    Alongside ℓ (Stepped ℓ) (cx.declarators s typeName line k)
      (cx'.declarators s' typeName (line + ℓ.lines) k) := by
  rw [FlowContext.declarators, FlowContext.declarators]
  refine (h.declarator hs hk).bind ?_
  rintro ⟨t, stop⟩ ⟨t', stop'⟩ ⟨ht, hn⟩
  obtain rfl : stop' = stop := hn
  simp only [h.code.isPunct, h.code.isIdent, h.code.endsDeclarator, h.afterStatement]
  split
  · next hc =>
      have hlt : stop' < cx.scope.size := Brackets.lt_size_of_any hc.1
      split
      · next hi =>
          split
          · exact declarators ht hi
          · exact ⟨ht, rfl⟩
      · exact ⟨ht, rfl⟩
  · exact ⟨ht, rfl⟩
termination_by cx.scope.size - k

theorem declaration? (hs : s.Alike ℓ s') (i : Nat) :
    Alongside ℓ (Option.Rel (Stepped ℓ)) (cx.declaration? s i) (cx'.declaration? s' i) := by
  unfold FlowContext.declaration?
  rw [h.code.token?]
  cases cx.scope.token? i with
  | none => exact .none
  | some t =>
      dsimp only [Option.map_some]
      rw [h.code.change.isIdent, h.rules, h.code.isIdent, h.code.endsDeclarator,
        h.code.atDeclarationBoundary]
      by_cases ht : t.isIdent
      · rw [h.code.change.of_isIdent ht, h.code.startLine]
        split
        · next hd =>
            simp only [Bool.and_eq_true] at hd
            exact (h.declarators hs hd.1.1.2).map fun _ _ hp => .some hp
        · exact .none
      · simp only [ht, Bool.false_and, Bool.false_eq_true, if_false]
        exact .none

theorem compoundAssignment {name : String} {rhs : Nat} (hs : s.Alike ℓ s') :
    Alongside ℓ (Stepped ℓ) (cx.compoundAssignment s name rhs)
      (cx'.compoundAssignment s' name rhs) := by
  unfold FlowContext.compoundAssignment
  refine (h.expression _ _ hs.arena _).bind fun e e' he => ?_
  simp only [he.stop, h.code.skipToStop, hs.arena.any_kind, h.afterStatement]
  split
  · refine (h.lastLine _ _).bind ?_
    rintro last _ rfl
    refine (h.scanLoose ?_ _ _).map fun _ _ hx => ⟨hx, rfl⟩
    exact (hs.commit he).modify name fun v v' hv => hv.extend he.fragments rfl
  · exact (h.scanLoose hs _ _).map fun _ _ hx => ⟨hx, rfl⟩

theorem assignment? (hs : s.Alike ℓ s') (i : Nat) :
    Alongside ℓ (Option.Rel (Stepped ℓ)) (cx.assignment? s i) (cx'.assignment? s' i) := by
  unfold FlowContext.assignment?
  rw [h.code.token?]
  cases cx.scope.token? i with
  | none => exact .none
  | some t =>
      dsimp only [Option.map_some]
      rw [h.code.change.isIdent]
      by_cases ht : t.isIdent
      · rw [h.code.change.of_isIdent ht, hs.declaredKind?, hs.arena.map_kind]
        split
        · exact .none
        · next kind _ =>
            have hb : cx'.assignmentTo t.text (t.startLine + ℓ.lines) kind
                = (cx.assignmentTo t.text t.startLine kind).down ℓ.lines := by
              simp only [FlowContext.assignmentTo, h.rules, Binding.down]
            rw [h.code.atBoundary, h.code.isOp, h.code.isOp, h.code.startLine, hb]
            simp only [h.afterStatement]
            split
            · exact .none
            · split
              · exact (h.bindValue hs).map fun _ _ hp => .some ⟨hp.1, by rw [hp.2]⟩
              · split
                · exact (h.compoundAssignment hs).map fun _ _ hp => .some hp
                · exact .none
      · simp only [ht, Bool.not_false, Bool.true_or, if_true]
        split <;> split <;> exact .none

theorem builderStatement? (hs : s.Alike ℓ s') (i : Nat) :
    Alongside ℓ (Option.Rel (Stepped ℓ)) (cx.builderStatement? s i) (cx'.builderStatement? s' i) := by
  unfold FlowContext.builderStatement?
  rw [h.code.token?]
  cases cx.scope.token? i with
  | none => exact .none
  | some t =>
      dsimp only [Option.map_some]
      rw [h.code.change.isIdent, h.code.afterDot, h.code.isPunct, h.code.isPunct, h.code.isWordIn,
        h.underSink]
      by_cases ht : t.isIdent
      · rw [h.code.change.of_isIdent ht, hs.arena.any_kind]
        split
        · refine (h.applyChain hs t.text _ _).bind ?_
          rintro ⟨u, stop⟩ ⟨u', stop'⟩ ⟨hu, hn⟩
          obtain rfl : stop' = stop := hn
          dsimp only
          rw [h.afterStatement]
          split
          · exact (h.reportNamed hu _).bind fun _ _ hx => .some ⟨hx, rfl⟩
          · exact .some ⟨hu, rfl⟩
        · exact .none
      · simp only [ht, Bool.false_and, Bool.false_eq_true, if_false]
        exact .none

/-! ## Runs -/

theorem step {i : Nat} (hs : s.Alike ℓ s') (hi : i < cx.scope.size) :
    Alongside ℓ (Stepped ℓ) (cx.step s i) (cx'.step s' i) := by
  unfold FlowContext.step
  refine (h.declaration? hs i).bind ?_
  rintro _ _ (⟨ht, hn⟩ | _)
  · exact ⟨ht, by simp only [hn]⟩
  · refine (h.assignment? hs i).bind ?_
    rintro _ _ (⟨ht, hn⟩ | _)
    · exact ⟨ht, by simp only [hn]⟩
    · refine (h.builderStatement? hs i).bind ?_
      rintro _ _ (⟨ht, hn⟩ | _)
      · exact ⟨ht, by simp only [hn]⟩
      · exact h.looseToken hs hi

theorem steps {s s' : FlowState} (hs : s.Alike ℓ s') (i : Nat) :
    Alongside ℓ (FlowState.Alike ℓ) (cx.steps s i) (cx'.steps s' i) := by
  rw [FlowContext.steps, FlowContext.steps, show cx'.scope.size = cx.scope.size from h.code.size]
  by_cases hi : i < cx.scope.size
  · rw [dif_pos hi, dif_pos hi]
    refine (h.step hs hi).bind ?_
    rintro ⟨t, next⟩ ⟨t', next'⟩ ⟨ht, hn⟩
    obtain rfl : next' = next := hn
    exact steps ht (max next' (i + 1))
  · rw [dif_neg hi, dif_neg hi]
    exact hs
termination_by cx.scope.size - i

/-- The runs of the two scopes. -/
theorem run : Alongside ℓ (FlowState.Alike ℓ) cx.run cx'.run := by
  have hs : FlowState.start.Alike ℓ FlowState.start := ⟨.nil, rfl, ℓ.found_nil, rfl, .nil⟩
  exact (h.steps hs 0).bind fun t t' ht => h.flush ht ht.arena

end Abreast

end FlowContext

/-- The candidates of several scopes. -/
theorem scopeCandidates_alongside {settings : Settings} {classifier : Classifier}
    (h : ∀ scope, FlowContext.Abreast ℓ
      (.ofTokens settings.rules classifier settings.template scope)
      (.ofTokens settings.rules classifier settings.template (scope.map ℓ.token)))
    (scopes : List (List Token)) :
    Alongside ℓ ℓ.found (scopeCandidates settings classifier scopes)
      (scopeCandidates settings classifier (scopes.map (List.map ℓ.token))) := by
  induction scopes with
  | nil => exact ℓ.found_nil
  | cons scope rest ih =>
      rw [List.map_cons, scopeCandidates, scopeCandidates]
      refine (h scope).run.bind fun s s' hs => ?_
      exact ih.bind fun _ _ hf => ℓ.found_append hs.candidates hf

end EmbeddedSql
