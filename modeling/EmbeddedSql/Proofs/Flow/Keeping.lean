/-
# What a step leaves alone

A step adds to a builder only by a chain of calls that begins where the step begins.  Every other step
leaves a builder that is tracked before it as it is, up to the mark of a report, or ends its accumulation
as it is: this is what happens to the target of a declaration or an assignment, whose new value is bound
only after the old one has been discarded (`Keeps`).  Adding `E` to a builder by `+=` adds nothing.

| step | what may grow |
| :-- | :-- |
| declaration | the names that it declares, once they are bound |
| assignment | its target, once it is bound |
| chain of calls on a builder | this builder |
| single token | nothing |
-/
import EmbeddedSql.Proofs.Flow.Accumulations

namespace EmbeddedSql

namespace FlowContext

/-- Nothing is added to the accumulation under the name; it may come to an end, and then the name is
free. -/
def Keeps (cx : FlowContext) (name : String) (s s' : FlowState) : Prop :=
  cx.Moves (· ≠ name) s s' ∨
    ∃ s₁, cx.Moves (· ≠ name) s s₁ ∧ s₁.arena.get? name = none ∧ cx.Follows s₁ s'

/-- A chain of calls that change a builder of this name begins at place `i`. -/
def ChainsAt (cx : FlowContext) (name : String) (i : Nat) : Prop :=
  cx.scope.isWord i name = true ∧ cx.scope.afterDot i = false ∧
    cx.scope.isPunct (i + 1) "." = true ∧
    cx.scope.isWordIn (i + 2) ["append", "setLength"] = true ∧
    cx.scope.isPunct (i + 3) "(" = true

variable {cx : FlowContext} {name : String} {s s₁ s' : FlowState} {v : Variable}

theorem Keeps.follows (h : cx.Keeps name s s') : cx.Follows s s' := by
  rcases h with h | ⟨s₁, h, -, h'⟩
  · exact h.follows
  · exact h.follows.trans h'

theorem Keeps.trans (h : cx.Keeps name s s₁) (h' : cx.Keeps name s₁ s') : cx.Keeps name s s' := by
  rcases h with h | ⟨s₂, h, hnone, h₂⟩
  · rcases h' with h' | ⟨s₂, h', hnone, h₂⟩
    · exact .inl (h.trans h')
    · exact .inr ⟨s₂, h.trans h', hnone, h₂⟩
  · exact .inr ⟨s₂, h, hnone, h₂.trans h'.follows⟩

/-- So the accumulation becomes nothing else. -/
theorem Keeps.exists_fate? (h : cx.Keeps v.name s s') (hv : s.arena.get? v.name = some v) :
    ∃ w, s.fate? s' v.name = some w ∧ w.unmarked = v.unmarked := by
  have hself : s.fate? s v.name = some v := (FlowState.fate?_self _ _).trans hv
  have hlasts : Lasts (· ≠ v.name) v.name _ := lasts_unmarked fun hne => hne rfl
  rcases h with h | ⟨s₁, h, hnone, h'⟩
  · exact h.exists_fate? hlasts (Nat.le_refl _) ⟨v, hself, rfl⟩
  · obtain ⟨w, hw, hsame⟩ := h.exists_fate? hlasts (Nat.le_refl _) ⟨v, hself, rfl⟩
    have hle := (Moves.closed_prefix h).length_le
    have hended := FlowState.ended_of_free hnone hw
    exact ⟨w, FlowState.fate?_of_ended hle (Moves.closed_prefix h') hended, hsame⟩

/-! ## Computations that keep -/

/-- A computation that gives a result keeps the accumulation up to its state, which `view` shows. -/
def Keeping {α : Type} (cx : FlowContext) (name : String) (s : FlowState) (view : α → FlowState)
    (o : Except FlowError α) : Prop :=
  ∀ a, o = .ok a → cx.Keeps name s (view a)

namespace Keeping

variable {α β : Type} {view : α → FlowState} {view' : β → FlowState} {o : Except FlowError α}

theorem of_moving (h : cx.Moving (· ≠ name) s view o) : cx.Keeping name s view o :=
  fun a ha => .inl (h a ha)

theorem pure {a : α} (h : view a = s) : cx.Keeping name s view (.ok a) :=
  of_moving (.pure h)

theorem bind {f : α → Except FlowError β} (h : cx.Keeping name s view o)
    (hf : ∀ a, cx.Keeping name (view a) view' (f a)) : cx.Keeping name s view' (o >>= f) := by
  intro b hb
  obtain ⟨a, ha, hb⟩ := ok_of_bind_eq_ok hb
  exact (h a ha).trans (hf a b hb)

theorem after {f : α → Except FlowError β} (hf : ∀ a, o = .ok a → cx.Keeping name s view' (f a)) :
    cx.Keeping name s view' (o >>= f) := by
  intro b hb
  obtain ⟨a, ha, hb⟩ := ok_of_bind_eq_ok hb
  exact hf a ha b hb

theorem afterExpression {arena : Arena} {i : Nat} {f : Expression → Except FlowError β}
    (hf : ∀ e, cx.scope.expression arena i = .ok e → cx.Keeping name s view' (f e)) :
    cx.Keeping name s view' (cx.expression arena i >>= f) :=
  after fun e he => hf e (expression_of_ok he)

theorem map {f : α → β} (h : cx.Keeping name s view o) (hf : ∀ a, view' (f a) = view a) :
    cx.Keeping name s view' (o.map f) := by
  intro b hb
  obtain ⟨a, ha, rfl⟩ := ok_of_map_eq_ok hb
  rw [hf]
  exact h a ha

theorem head (hm : cx.Moves (· ≠ name) s s₁) (h : cx.Keeping name s₁ view o) :
    cx.Keeping name s view o :=
  fun a ha => .trans (.inl hm) (h a ha)

/-- Once the name has been discarded, everything may happen. -/
theorem discard {f : FlowState → Except FlowError α}
    (hf : ∀ s₁, s₁.arena.get? name = none → cx.Moving (fun _ => True) s₁ view (f s₁)) :
    cx.Keeping name s view (cx.discard s name >>= f) := by
  intro a ha
  obtain ⟨s₁, hs₁, ha⟩ := ok_of_bind_eq_ok ha
  have hnone := get?_of_discard hs₁
  exact .inr ⟨s₁, discard_moves s name s₁ hs₁, hnone, hf s₁ hnone a ha⟩

end Keeping

/-! ## Bindings

The old value is discarded before the new one is bound. -/

/-- Beginning a new accumulation, and what comes after it. -/
theorem rebind_keeping {α : Type} {view : α → FlowState} (s : FlowState) (kind : VariableKind)
    {first last : Nat} {fragments : List Fragment} (hsourced : cx.Sourced s fragments)
    (hf : cx.StartsOn first) (hl : cx.EndsOn last) {f : FlowState → Except FlowError α}
    (hrest : ∀ s₁, cx.Moving (fun _ => True) s₁ view (f s₁)) :
    cx.Keeping name s view
      (cx.rebind s ⟨name, kind, first, max first last, fragments, none⟩ >>= f) := by
  intro a ha
  obtain ⟨s₂, hs₂, ha⟩ := ok_of_bind_eq_ok ha
  obtain ⟨s₁, hs₁, rfl⟩ := ok_of_map_eq_ok hs₂
  have hnone := get?_of_discard hs₁
  have hsourced₁ : cx.Sourced s₁ fragments := hsourced.mono fun _ => hasHeld_of_discard hs₁
  refine .inr ⟨s₁, discard_moves s name s₁ hs₁, hnone, ?_⟩
  exact .head (.begin kind fragments hnone hsourced₁ hf hl) (.head (.declare _) (hrest _ a ha))

theorem bindBuilder_keeping (s : FlowState) {line : Nat} (i : Nat) (hl : cx.StartsOn line) :
    cx.Keeping name s Prod.fst (cx.bindBuilder s name line i) := by
  rw [bindBuilder]
  refine .after fun initial hinitial => ?_
  refine .head (initialFragments_moves s _ _ initial hinitial) ?_
  obtain ⟨s₁, fragments⟩ := initial
  have hsourced : cx.Sourced s₁ fragments := initialFragments_sourced hinitial
  refine .after fun last hlast => ?_
  refine rebind_keeping s₁ .builder hsourced hl (endsOn_of_fetch hlast) fun s => ?_
  exact (scanLoose_moves s _ _).bind fun s => applyChain_moves s trivial _ _

/-- Binding a value leaves the old accumulation of its target as it is, unless the assignment continues
a plain variable. -/
theorem bindValue_keeping (s : FlowState) (binding : Binding) (rhs : Nat)
    (hl : cx.StartsOn binding.line)
    (hnew : binding.reassign = true → (s.arena.get? binding.name).any (·.kind == .builder) = true) :
    cx.Keeping binding.name s Prod.fst (cx.bindValue s binding rhs) := by
  rw [bindValue]
  split
  · exact bindBuilder_keeping s _ hl
  · split
    · exact .discard fun s₁ _ => scanLoose_map_moves s₁ _ _ _
    · next hloses =>
        rw [bindPlain]
        refine .afterExpression fun e he => .after fun last hlast => ?_
        have hfresh : binding.reassign = false := by
          rw [← Bool.not_eq_true]
          intro hreassign
          refine hloses ?_
          rw [losesTarget, hreassign, hnew hreassign]
          simp
        simp only [hfresh, Bool.false_and, Bool.false_eq_true, if_false]
        refine .head (.single (.commit he)) ?_
        refine rebind_keeping _ .plain (sourced_commit he) hl (endsOn_of_lastLine hlast) fun s => ?_
        exact scanLoose_map_moves s _ _ _

/-! ## Statements -/

/-- Otherwise the name stands at the place. -/
theorem text_eq_of_token? {i : Nat} {t : Token} (ht : cx.scope.token? i = some t)
    (h : ¬ ∀ t, cx.scope.token? i = some t → t.text ≠ name) : t.text = name := by
  by_contra hne
  refine h fun t' ht' => ?_
  rwa [Option.some.inj (ht'.symm.trans ht)]

theorem declarator_keeping (s : FlowState) (typeName : String) {line k : Nat}
    (hl : cx.StartsOn line) : cx.Keeping name s Prod.fst (cx.declarator s typeName line k) := by
  by_cases hname : ∀ t, cx.scope.token? k = some t → t.text ≠ name
  · exact .of_moving (declarator_moves s typeName hname hl)
  · rw [declarator]
    refine .after fun t ht => ?_
    obtain rfl := text_eq_of_token? (token?_of_fetch ht) hname
    split
    · exact bindValue_keeping s _ _ hl fun hreassign => by cases hreassign
    · split
      · rw [declare]
        intro r hr
        obtain ⟨s₂, hs₂, rfl⟩ := ok_of_map_eq_ok hr
        obtain ⟨s₁, hs₁, rfl⟩ := ok_of_map_eq_ok hs₂
        exact .inr ⟨s₁, discard_moves s t.text s₁ hs₁, get?_of_discard hs₁, .single (.declare _)⟩
      · exact .pure rfl

theorem declarators_keeping (s : FlowState) (typeName : String) {line : Nat} (k : Nat)
    (hl : cx.StartsOn line) : cx.Keeping name s Prod.fst (cx.declarators s typeName line k) := by
  rw [declarators]
  refine (declarator_keeping s typeName hl).bind ?_
  rintro ⟨s, stop⟩
  dsimp only
  split
  · next hc =>
      have hlt : stop < cx.scope.size := Brackets.lt_size_of_any hc.1
      split
      · split
        · exact declarators_keeping s typeName (stop + 1) hl
        · exact .pure rfl
      · exact .pure rfl
  · exact .pure rfl
termination_by cx.scope.size - k

theorem declaration?_keeping (s : FlowState) (i : Nat) :
    cx.Keeping name s (handled s) (cx.declaration? s i) := by
  rw [declaration?]
  split
  · exact .pure rfl
  · next t ht =>
      dsimp only
      split
      · refine (declarators_keeping s _ _ ?_).map fun _ => rfl
        exact ⟨t, mem_tokens_of_token? ht, rfl⟩
      · exact .pure rfl

/-- Nothing is added to a builder by `+=`. -/
theorem compoundAssignment_keeping (s : FlowState) (rhs : Nat)
    (hbuilder : (s.arena.get? name).any (·.kind == .builder) = true) :
    cx.Keeping name s Prod.fst (cx.compoundAssignment s name rhs) := by
  have hplain : (s.arena.get? name).any (·.kind == .plain) = false := by
    obtain ⟨v, hv, hkind⟩ := Option.any_eq_true _ _ |>.1 hbuilder
    rw [hv, Option.any_some, beq_iff_eq.1 hkind]
    rfl
  rw [compoundAssignment]
  refine .after fun e _ => ?_
  simp only [hplain, Bool.false_eq_true, if_false]
  exact .of_moving (scanLoose_map_moves s _ _ _)

theorem assignment?_keeping (s : FlowState) (i : Nat)
    (hbuilder : (s.arena.get? name).any (·.kind == .builder) = true) :
    cx.Keeping name s (handled s) (cx.assignment? s i) := by
  by_cases hname : ∀ t, cx.scope.token? i = some t → t.text ≠ name
  · exact .of_moving (assignment?_moves s hname)
  · rw [assignment?]
    split
    · exact .pure rfl
    · next t ht =>
        have hl : cx.StartsOn t.startLine := ⟨t, mem_tokens_of_token? ht, rfl⟩
        obtain rfl := text_eq_of_token? ht hname
        split
        · exact .pure rfl
        · next kind _ =>
            split
            · exact .pure rfl
            · split
              · have hbind := bindValue_keeping s (cx.assignmentTo t.text t.startLine kind) (i + 2)
                  hl fun _ => hbuilder
                exact hbind.map fun _ => rfl
              · split
                · exact (compoundAssignment_keeping s _ hbuilder).map fun _ => rfl
                · exact .pure rfl

theorem builderStatement?_keeping (s : FlowState) {i : Nat} (hchain : ¬ cx.ChainsAt name i) :
    cx.Keeping name s (handled s) (cx.builderStatement? s i) := by
  by_cases hname : ∀ t, cx.scope.token? i = some t → t.text ≠ name
  · exact .of_moving (builderStatement?_moves s hname)
  · rw [builderStatement?]
    split
    · exact .pure rfl
    · next t ht =>
        obtain rfl := text_eq_of_token? ht hname
        dsimp only
        split
        · next happlies =>
            simp only [Bool.and_eq_true, Bool.not_eq_true'] at happlies
            obtain ⟨⟨⟨⟨⟨hident, hdot⟩, -⟩, hpunct⟩, hword⟩, hopen⟩ := happlies
            refine absurd ⟨?_, hdot, hpunct, hword, hopen⟩ hchain
            rw [Brackets.isWord, ht, Option.any_some, hident, beq_self_eq_true]
            rfl
        · exact .pure rfl

/-- A step keeps the accumulation of a builder, unless it begins with a chain of calls on it. -/
theorem step_keeping (s : FlowState) {i : Nat} (hv : s.arena.get? v.name = some v)
    (hkind : v.kind = .builder) (hchain : ¬ cx.ChainsAt v.name i) :
    cx.Keeping v.name s Prod.fst (cx.step s i) := by
  have hbuilder : (s.arena.get? v.name).any (·.kind == .builder) = true := by
    rw [hv, Option.any_some, hkind]
    rfl
  intro r hr
  rw [step] at hr
  obtain ⟨d, hd, hr⟩ := ok_of_bind_eq_ok hr
  have hdeclared : cx.Keeps v.name s (handled s d) := declaration?_keeping s i d hd
  cases d with
  | some d =>
      cases hr
      exact hdeclared
  | none =>
      obtain ⟨a, ha, hr⟩ := ok_of_bind_eq_ok hr
      have hassigned := assignment?_keeping s i hbuilder a ha
      cases a with
      | some a =>
          cases hr
          exact hassigned
      | none =>
          obtain ⟨b, hb, hr⟩ := ok_of_bind_eq_ok hr
          have hchained := builderStatement?_keeping s hchain b hb
          cases b with
          | some b =>
              cases hr
              exact hchained
          | none => exact .inl (looseToken_moves s 0 i r hr)

end FlowContext

end EmbeddedSql
