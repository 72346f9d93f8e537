/-
# Every run passes over its tokens

Each handler takes a run from the juncture where it is tried to the one where it ends, by the steps of a
passage.  This is the traversal of the handlers that says where in the code each of them reads, what it
commits and what it leaves to be read loosely.

A builder stays a builder while a chain of calls is applied to it (`applyCall_isBuilder`), so emptying it
changes no kind.
-/
import EmbeddedSql.Proofs.Flow.Passage

namespace EmbeddedSql

namespace FlowState.IsBuilder

variable {s s' : FlowState} {name : String}

theorem of_like (h : s.IsBuilder name) (hlike : s.arena.Like s'.arena) :
    s'.IsBuilder name := by
  intro v hv
  have hsame := hlike name
  rw [Arena.LikeAt, hv, Option.map_some] at hsame
  obtain ⟨w, hw, hunmarked⟩ := Option.map_eq_some_iff.1 hsame.symm
  have hkind : w.unmarked.kind = v.unmarked.kind := congrArg Variable.kind hunmarked
  exact hkind.symm.trans (h w hw)

theorem scanLoose {cx : FlowContext} (h : s.IsBuilder name) {start stop : Nat}
    (hs : cx.scanLoose s start stop = .ok s') : s'.IsBuilder name := by
  obtain ⟨rs, -, hrecords⟩ := FlowContext.scanLoose_records hs
  exact h.of_like hrecords.arena

/-- Whatever is done to the variable of a name, it is of the kind that the new one has. -/
theorem bind {v : Variable} (h : s.IsBuilder name)
    (hv : v.name = name → v.kind = .builder) : (s.bind v).IsBuilder name := by
  intro w hw
  by_cases hname : name = v.name
  · subst hname
    obtain rfl := Option.some.inj ((Arena.get?_put_self _ _).symm.trans hw)
    exact hv rfl
  · exact h w ((Arena.get?_put_of_ne _ hname).symm.trans hw)

theorem extend (h : s.IsBuilder name) (fragments : List Fragment)
    (line : Nat) : (s.modify name (·.extend fragments line)).IsBuilder name := by
  unfold FlowState.modify
  split
  · next v hv => exact h.bind fun _ => h v hv
  · exact h

end FlowState.IsBuilder

namespace FlowContext

/-- A computation that gives a result passes on to the state and the place that `view` shows. -/
def Passing {α : Type} (cx : FlowContext) (m : Juncture) (view : α → FlowState × Place)
    (o : Except FlowError α) : Prop :=
  ∀ a, o = .ok a → ∃ log, cx.PassesOn m ⟨(view a).1, (view a).2, log⟩

variable {cx : FlowContext} {s s' : FlowState} {log : List Uptake} {m m' : Juncture}

namespace Passing

variable {α β : Type} {view : α → FlowState × Place} {view' : β → FlowState × Place}

theorem pure {a : α} (h : view a = (m.state, m.place)) : cx.Passing m view (.ok a) := by
  rintro a ⟨⟩
  rw [h]
  exact ⟨m.log, .refl⟩

theorem head {o : Except FlowError α} (hm : cx.PassesOn m m') (h : cx.Passing m' view o) :
    cx.Passing m view o := by
  intro a ha
  obtain ⟨log, hlog⟩ := h a ha
  exact ⟨log, hm.trans hlog⟩

theorem step {o : Except FlowError α} (hm : cx.Passes m m') (h : cx.Passing m' view o) :
    cx.Passing m view o :=
  .head (.single hm) h

theorem bind {o : Except FlowError α} {f : α → Except FlowError β} (h : cx.Passing m view o)
    (hf : ∀ a log, o = .ok a → cx.Passing ⟨(view a).1, (view a).2, log⟩ view' (f a)) :
    cx.Passing m view' (o >>= f) := by
  intro b hb
  obtain ⟨a, ha, hb⟩ := ok_of_bind_eq_ok hb
  obtain ⟨log, hlog⟩ := h a ha
  exact (hf a log ha).head hlog b hb

/-- What is computed first need not touch the state. -/
theorem after {o : Except FlowError α} {f : α → Except FlowError β}
    (hf : ∀ a, o = .ok a → cx.Passing m view' (f a)) : cx.Passing m view' (o >>= f) := by
  intro b hb
  obtain ⟨a, ha, hb⟩ := ok_of_bind_eq_ok hb
  exact hf a ha b hb

theorem afterExpression {arena : Arena} {i : Nat} {f : Expression → Except FlowError β}
    (hf : ∀ e, cx.scope.expression arena i = .ok e → cx.Passing m view' (f e)) :
    cx.Passing m view' (cx.expression arena i >>= f) :=
  after fun e he => hf e (expression_of_ok he)

theorem map {o : Except FlowError α} {f : α → β} (h : cx.Passing m view o)
    (hf : ∀ a, view' (f a) = view a) : cx.Passing m view' (o.map f) := by
  intro b hb
  obtain ⟨a, ha, rfl⟩ := ok_of_map_eq_ok hb
  rw [hf]
  exact h a ha

/-- A single operation. -/
theorem operate {o : Except FlowError FlowState} {place : Place}
    (h : ∀ s', o = .ok s' → cx.Operation log s s') :
    cx.Passing ⟨s, place, log⟩ (·, place) o :=
  fun s' hs => ⟨log, .single (.operate (h s' hs))⟩

end Passing

/-- The state and the place that a handler shows. -/
abbrev shown (r : FlowState × Nat) : FlowState × Place := (r.1, .at r.2)

theorem forward {i j : Nat} (h : i ≤ j) : cx.PassesOn ⟨s, .at i, log⟩ ⟨s, .at j, log⟩ :=
  .single (.forward h)

/-- A result of which only the place is shown further on. -/
theorem Passing.on {α : Type} {o : Except FlowError α} {state : α → FlowState} {i j : α → Nat}
    (h : cx.Passing m (fun a => (state a, .at (i a))) o) (hij : ∀ a, o = .ok a → i a ≤ j a) :
    cx.Passing m (fun a => (state a, .at (j a))) o := by
  intro a ha
  obtain ⟨log, hlog⟩ := h a ha
  exact ⟨log, hlog.trans (forward (hij a ha))⟩

/-! ## Loose tokens -/

theorem looseToken_reads {lower i : Nat} {r : FlowState × Nat} (log : List Uptake)
    (h : cx.looseToken s lower i = .ok r) : ∃ log', cx.ReadsLoosely s log lower i r.1 log' r.2 := by
  unfold looseToken at h
  split at h
  · cases h
  · next t ht =>
      split at h
      · next hnew =>
          rw [Bool.and_eq_true, Bool.not_eq_true', ← Bool.not_eq_true, List.contains_iff_mem] at hnew
          have hstring : cx.scope.isString i = true := by
            rw [Brackets.isString, ht]
            exact hnew.1
          unfold looseExpression at h
          obtain ⟨e, he, h⟩ := ok_of_expression_bind h
          dsimp only at h
          split at h
          · next hignored =>
              cases h
              have hread : cx.ReadsLoosely s log lower i _ _ _ :=
                .expression hstring hnew.2 he (.ignored hignored)
              rw [List.append_nil] at hread
              exact ⟨_, hread⟩
          · next hheeded =>
              obtain ⟨found, hfound, h⟩ := ok_of_bind_eq_ok h
              cases h
              exact ⟨_, .expression hstring hnew.2 he (.heeded (by simpa using hheeded) hfound)⟩
      · split at h
        · obtain ⟨s', hs, rfl⟩ := ok_of_map_eq_ok h
          exact ⟨log, .mention t.text hs⟩
        · cases h
          exact ⟨log, .nothing⟩

theorem scanFrom_passing (s : FlowState) (value : Option Expression) (lower i stop : Nat)
    (log : List Uptake) :
    cx.Passing ⟨s, .scanning value lower i stop, log⟩ (·, .at stop) (cx.scanFrom s lower i stop) := by
  rw [scanFrom]
  split
  · next hi =>
      refine .after fun r hr => ?_
      obtain ⟨log', hread⟩ := looseToken_reads log hr
      exact .step (.read (by omega) hread)
        (scanFrom_passing r.1 value lower (max r.2 (i + 1)) stop log')
  · next hi => exact .step (.leave (by omega)) (.pure rfl)
termination_by min stop cx.scope.size - i

/-- A stretch can be read loosely from here. -/
inductive Ready (lower stop : Nat) : Place → Prop
  | at : Ready lower stop (.at lower)
  | valued {e : Expression} : e.stop ≤ stop → Ready lower stop (.valued lower e)

theorem scanLoose_passing {lower stop : Nat} {place : Place} (h : cx.Stretch lower stop)
    (hready : Ready lower stop place) :
    cx.Passing ⟨s, place, log⟩ (·, .at stop) (cx.scanLoose s lower stop) := by
  cases hready with
  | «at» => exact .step (.scan h) (scanFrom_passing s none lower lower stop log)
  | valued he => exact .step (.rescan h he) (scanFrom_passing s _ lower lower stop log)

/-- Reading loosely is the end of many handlers. -/
theorem scanLoose_map_passing {lower stop next : Nat} {place : Place} (h : cx.Stretch lower stop)
    (hready : Ready lower stop place) (hnext : stop ≤ next) :
    cx.Passing ⟨s, place, log⟩ shown ((cx.scanLoose s lower stop).map (·, next)) :=
  ((scanLoose_passing h hready).on (j := fun _ => next) fun _ _ => hnext).map fun _ => rfl

/-! ## Chains of calls -/

theorem append_isBuilder {name : String} {opening closing : Nat} (h : s.IsBuilder name)
    (hs : cx.append s name opening closing = .ok s') : s'.IsBuilder name := by
  rw [append] at hs
  split at hs
  · cases hs
    exact h
  · obtain ⟨e, -, hs⟩ := ok_of_bind_eq_ok hs
    obtain ⟨last, -, hs⟩ := ok_of_bind_eq_ok hs
    split at hs
    · have hscan : cx.scanLoose ((s.commit e).modify name (·.extend e.fragments last.endLine))
          (opening + 1) closing = .ok s' := hs
      have hcommit : (s.commit e).IsBuilder name := h
      exact (hcommit.extend _ _).scanLoose hscan
    · obtain ⟨first, -, hs⟩ := ok_of_bind_eq_ok hs
      exact (h.extend _ _).scanLoose hs

theorem reset_isBuilder {name : String} {line : Nat} (h : s.IsBuilder name)
    (hs : cx.reset s name line = .ok s') : s'.IsBuilder name := by
  rw [reset] at hs
  split at hs
  · cases hs
    exact h
  · obtain ⟨s₁, hclose, rfl⟩ := ok_of_map_eq_ok hs
    obtain ⟨found, -, rfl⟩ := ok_of_map_eq_ok hclose
    exact h.bind fun _ => rfl

/-- A builder stays one when a call is applied to it. -/
theorem applyCall_isBuilder {name : String} {i opening closing : Nat} (h : s.IsBuilder name)
    (hs : cx.applyCall s name i opening closing = .ok s') : s'.IsBuilder name := by
  rw [applyCall] at hs
  obtain ⟨method, -, hs⟩ := ok_of_bind_eq_ok hs
  split at hs
  · exact append_isBuilder h hs
  · split at hs
    · exact reset_isBuilder h hs
    · split at hs
      · cases hs
        exact h
      · exact h.scanLoose hs

theorem recorded_unknown (source : String) (line : Nat) : Recorded log [.unknown source line] := by
  intro f hf hliteral
  rw [List.mem_singleton.1 hf] at hliteral
  cases hliteral

theorem recorded_value (start : Nat) (e : Expression) :
    Recorded (log ++ [.value start e]) e.fragments :=
  fun _ hf _ => ⟨start, e, List.mem_append_right _ List.mem_cons_self, hf⟩

theorem append_passing (name : String) {opening closing : Nat}
    (hc : cx.scope.closer? opening = some closing) :
    cx.Passing ⟨s, .at (opening + 1), log⟩ (·, .at closing) (cx.append s name opening closing) := by
  rw [append]
  split
  · next hempty => exact .pure (by rw [hempty])
  · refine .afterExpression fun e he => .after fun last hlast => ?_
    have hend := endsOn_of_fetch hlast
    split
    · next hfills =>
        refine .step (.value he) (.step (.operate (.extend name hend (sourced_commit he)
          (recorded_value _ _))) ?_)
        exact scanLoose_passing (.group hc) (.valued (Nat.le_of_eq hfills))
    · refine .after fun first _ => ?_
      let unknown : Fragment :=
        .unknown (cx.scope.sourceText (opening + 1) closing) first.startLine
      have hextend : cx.Operation log s (s.modify name (·.extend [unknown] last.endLine)) :=
        .extend name hend (Brackets.sourced_single (.unknown _ _)) (recorded_unknown _ _)
      exact .step (.operate hextend) (scanLoose_passing (.group hc) .at)

theorem applyCall_passing {name : String} {i opening closing : Nat}
    (hc : cx.scope.closer? opening = some closing) (hbuilder : s.IsBuilder name) :
    cx.Passing ⟨s, .at (opening + 1), log⟩ (·, .at closing)
      (cx.applyCall s name i opening closing) := by
  have hlt : opening < closing := Brackets.lt_of_closer? hc
  rw [applyCall]
  refine .after fun method hmethod => ?_
  split
  · exact append_passing name hc
  · split
    · refine .head (forward hlt) (.operate fun s' hs => ?_)
      exact .reset hbuilder (startsOn_of_fetch hmethod) hs
    · split
      · exact .head (forward hlt) (.pure rfl)
      · exact scanLoose_passing (.group hc) .at

theorem endChain_passing {stops : List String} (hstops : ∀ text ∈ stops, text = ";" ∨ text = ",")
    (i : Nat) : cx.Passing ⟨s, .at i, log⟩ shown (cx.endChain s stops i) :=
  scanLoose_map_passing (.statement i hstops) .at (Nat.le_refl _)

theorem applyChain_passing (s : FlowState) (log : List Uptake) {name : String} {stops : List String}
    (hstops : ∀ text ∈ stops, text = ";" ∨ text = ",") (hbuilder : s.IsBuilder name) (i : Nat) :
    cx.Passing ⟨s, .at i, log⟩ shown (cx.applyChain s name stops i) := by
  rw [applyChain]
  split
  · next h =>
      have hi : i < cx.scope.size := Brackets.lt_size_of_any h
      split
      · split
        · exact .head (forward (Nat.le_of_lt hi)) (.pure rfl)
        · next closing hc =>
            have hlt : i + 2 < closing := Brackets.lt_of_closer? hc
            refine .head (forward (by omega)) (.bind (applyCall_passing hc hbuilder) ?_)
            intro s' log' hs
            refine .head (forward (Nat.le_succ closing)) ?_
            exact applyChain_passing s' log' hstops (applyCall_isBuilder hbuilder hs) (closing + 1)
      · exact endChain_passing hstops i
  · exact endChain_passing hstops i
termination_by cx.scope.size - i

/-! ## Bindings -/

/-- The argument list of a construction, whether it is closed or not. -/
theorem stretch_arguments {o : Nat} (h : cx.scope.isPunct o "(" = true) :
    cx.Stretch (o + 1) ((cx.scope.closer? o).getD (cx.scope.size - 1)) := by
  cases hc : cx.scope.closer? o with
  | none => exact .unclosed h hc
  | some close => exact .group hc

/-- What a builder starts with is the value of the construction's argument, or not known. -/
theorem initialFragments_cases {opening closing : Nat} {r : FlowState × List Fragment}
    (h : cx.initialFragments s opening closing = .ok r) :
    (r.1 = s ∧ ∀ log, Recorded log r.2) ∨
      ∃ e, cx.scope.expression s.arena (opening + 1) = .ok e ∧ e.stop = closing ∧
        r = (s.commit e, e.fragments) := by
  rw [initialFragments.eq_def] at h
  split at h
  · cases h
    exact .inl ⟨rfl, fun _ _ hf => absurd hf List.not_mem_nil⟩
  · split at h
    · cases h
      exact .inl ⟨rfl, fun _ _ hf => absurd hf List.not_mem_nil⟩
    · obtain ⟨e, he, h⟩ := ok_of_expression_bind h
      split at h
      · next hfills =>
          cases h
          exact .inr ⟨e, he, hfills, rfl⟩
      · cases h
        exact .inl ⟨rfl, fun _ => recorded_unknown _ _⟩

theorem rebind_isBuilder {v : Variable} (hkind : v.kind = .builder) (h : cx.rebind s v = .ok s') :
    s'.IsBuilder v.name := by
  obtain ⟨s₁, hdiscard, rfl⟩ := ok_of_map_eq_ok h
  intro w hw
  have hfree : s₁.IsBuilder v.name := by
    intro u hu
    rw [get?_of_discard hdiscard] at hu
    cases hu
  exact (hfree.bind fun _ => hkind) w hw

theorem bindBuilder_passing (s : FlowState) (log : List Uptake) (name : String) {line i : Nat}
    (hl : cx.StartsOn line) (hparen : cx.scope.isPunct (i + 2) "(" = true) :
    cx.Passing ⟨s, .at i, log⟩ shown (cx.bindBuilder s name line i) := by
  have hstretch := stretch_arguments hparen
  rw [bindBuilder]
  refine .after fun initial hinitial => ?_
  have hsourced := initialFragments_sourced hinitial
  have hcases := initialFragments_cases hinitial
  obtain ⟨s₁, fragments⟩ := initial
  dsimp only at hsourced hcases ⊢
  generalize hclosing : (cx.scope.closer? (i + 2)).getD (cx.scope.size - 1) = closing at *
  refine .after fun last hlast => ?_
  have hend := endsOn_of_fetch hlast
  have hrest : ∀ {place : Place} {log : List Uptake}, Ready (i + 2 + 1) closing place →
      Recorded log fragments → cx.Passing ⟨s₁, place, log⟩ shown
        (cx.rebind s₁ ⟨name, .builder, line, max line last.endLine, fragments, none⟩ >>= fun s =>
          cx.scanLoose s (i + 2 + 1) closing >>= fun s =>
            cx.applyChain s name [";", ","] (closing + 1)) := by
    intro place log hready hrecorded
    refine .bind (.operate fun s' hs => .rebind hl hend hsourced hrecorded hs) fun s₂ log₂ hrebind => ?_
    refine .bind (scanLoose_passing hstretch hready) fun s₃ log₃ hscan => ?_
    have hbuilder : s₂.IsBuilder name := rebind_isBuilder rfl hrebind
    refine .head (forward (Nat.le_succ closing)) ?_
    exact applyChain_passing s₃ log₃ (by simp) (hbuilder.scanLoose hscan) (closing + 1)
  refine .head (forward (by omega : i ≤ i + 2 + 1)) ?_
  rcases hcases with ⟨rfl, hrecorded⟩ | ⟨e, he, hfills, hvalue⟩
  · exact hrest .at (hrecorded log)
  · obtain ⟨rfl, rfl⟩ := Prod.mk.inj hvalue
    exact .step (.value he) (hrest (.valued (Nat.le_of_eq hfills)) (recorded_value _ _))

theorem bindPlain_passing (s : FlowState) (log : List Uptake) {binding : Binding} {rhs : Nat}
    (hl : cx.StartsOn binding.line) (hrhs : cx.scope.afterDot rhs = false) :
    cx.Passing ⟨s, .at rhs, log⟩ shown (cx.bindPlain s binding rhs) := by
  rw [bindPlain]
  refine .afterExpression fun e he => .after fun last hlast => ?_
  have hend := endsOn_of_lastLine hlast
  have hstops : ∀ text ∈ [";", ","], text = ";" ∨ text = "," := by simp
  have hready : Ready rhs (cx.scope.skipToStop [";", ","] e.stop) (.valued rhs e) :=
    .valued (cx.scope.le_skipToStop _ e.stop)
  have hrecorded : Recorded (log ++ [.value rhs e]) e.fragments := recorded_value rhs e
  refine .step (.value he) ?_
  split
  · next hcontinues =>
      simp only [Bool.and_eq_true] at hcontinues
      obtain ⟨⟨⟨-, hplain⟩, hword⟩, hplus⟩ := hcontinues
      have he' : cx.scope.expression (s.commit e).arena rhs = .ok e := he
      refine .step (.operate (.regrow he' hplain hword hplus hrhs hend hrecorded)) ?_
      exact scanLoose_map_passing (.value hstops he) hready (Nat.le_refl _)
  · refine .bind (.operate fun s' hs => .rebind hl hend (sourced_commit he) hrecorded hs) ?_
    intro s' log' _
    exact scanLoose_map_passing (.value hstops he) hready (Nat.le_refl _)

theorem bindValue_passing (s : FlowState) (log : List Uptake) {binding : Binding} {rhs : Nat}
    (hl : cx.StartsOn binding.line) (hrhs : cx.scope.afterDot rhs = false) :
    cx.Passing ⟨s, .at rhs, log⟩ shown (cx.bindValue s binding rhs) := by
  rw [bindValue]
  split
  · next hconstructs =>
      simp only [constructsBuilder, Bool.and_eq_true] at hconstructs
      exact bindBuilder_passing s log binding.name hl hconstructs.1.1.2
  · split
    · refine .bind (.operate fun s' hs => .discard binding.name hs) fun s' log' _ => ?_
      exact scanLoose_map_passing (.statement rhs (by simp)) .at (Nat.le_refl _)
    · exact bindPlain_passing s log hl hrhs

/-! ## Statements -/

theorem declarator_passing (s : FlowState) (log : List Uptake) (typeName : String) {line k : Nat}
    (hl : cx.StartsOn line) :
    cx.Passing ⟨s, .at k, log⟩ shown (cx.declarator s typeName line k) := by
  rw [declarator]
  refine .after fun t _ => ?_
  split
  · next hassign =>
      exact .head (forward (Nat.le_add_right k 2))
        (bindValue_passing s log hl (Brackets.afterDot_of_isOp hassign))
  · refine .head (forward (Nat.le_succ k)) ?_
    split
    · have hdeclare : cx.Passing ⟨s, .at (k + 1), log⟩ (·, .at (k + 1))
          (cx.declare s t.text (cx.kindOfType typeName)) :=
        .operate fun s' hs => .declare t.text _ hs
      exact hdeclare.map fun _ => rfl
    · exact .pure rfl

theorem declarators_passing (s : FlowState) (log : List Uptake) (typeName : String) {line : Nat}
    (k : Nat) (hl : cx.StartsOn line) :
    cx.Passing ⟨s, .at k, log⟩ shown (cx.declarators s typeName line k) := by
  rw [declarators]
  refine (declarator_passing s log typeName hl).bind ?_
  rintro ⟨s', stop⟩ log' -
  dsimp only [shown]
  split
  · next hc =>
      have hlt : stop < cx.scope.size := Brackets.lt_size_of_any hc.1
      split
      · refine .head (forward (Nat.le_succ stop)) ?_
        split
        · exact declarators_passing s' log' typeName (stop + 1) hl
        · exact .pure rfl
      · exact .pure rfl
  · exact .head (forward (cx.le_afterStatement stop)) (.pure rfl)
termination_by cx.scope.size - k

/-- What a handler shows that may not apply. -/
abbrev shownIf (s : FlowState) (i : Nat) (r : Option (FlowState × Nat)) : FlowState × Place :=
  (r.map shown).getD (s, .at i)

theorem declaration?_passing (s : FlowState) (log : List Uptake) (i : Nat) :
    cx.Passing ⟨s, .at i, log⟩ (shownIf s i) (cx.declaration? s i) := by
  rw [declaration?]
  split
  · exact .pure rfl
  · next t ht =>
      dsimp only
      split
      · have hl : cx.StartsOn t.startLine := ⟨t, mem_tokens_of_token? ht, rfl⟩
        refine .head (forward (Nat.le_succ i)) ?_
        exact (declarators_passing s log t.text (i + 1) hl).map fun _ => rfl
      · exact .pure rfl

theorem compoundAssignment_passing (s : FlowState) (log : List Uptake) (name : String) (rhs : Nat) :
    cx.Passing ⟨s, .at rhs, log⟩ shown (cx.compoundAssignment s name rhs) := by
  rw [compoundAssignment]
  refine .afterExpression fun e he => ?_
  have hstretch : cx.Stretch rhs (cx.scope.skipToStop [";"] e.stop) := .value (by simp) he
  have hnext := cx.le_afterStatement (cx.scope.skipToStop [";"] e.stop)
  split
  · refine .after fun last hlast => ?_
    have hend := endsOn_of_lastLine hlast
    refine .step (.value he) (.step (.operate (.extend name hend (sourced_commit he)
      (recorded_value rhs e))) ?_)
    exact scanLoose_map_passing hstretch (.valued (cx.scope.le_skipToStop _ e.stop)) hnext
  · exact scanLoose_map_passing hstretch .at hnext

theorem assignment?_passing (s : FlowState) (log : List Uptake) (i : Nat) :
    cx.Passing ⟨s, .at i, log⟩ (shownIf s i) (cx.assignment? s i) := by
  rw [assignment?]
  split
  · exact .pure rfl
  · next t ht =>
      have hl : cx.StartsOn t.startLine := ⟨t, mem_tokens_of_token? ht, rfl⟩
      split
      · exact .pure rfl
      · next kind _ =>
          split
          · exact .pure rfl
          · split
            · next hassign =>
                have hbind : cx.Passing ⟨s, .at (i + 2), log⟩ shown
                    (cx.bindValue s (cx.assignmentTo t.text t.startLine kind) (i + 2)) :=
                  bindValue_passing s log hl (Brackets.afterDot_of_isOp hassign)
                have hend := hbind.on (j := fun r => cx.afterStatement r.2)
                  fun r _ => cx.le_afterStatement r.2
                exact .head (forward (Nat.le_add_right i 2)) (hend.map fun _ => rfl)
            · split
              · exact .head (forward (Nat.le_add_right i 2))
                  ((compoundAssignment_passing s log t.text (i + 2)).map fun _ => rfl)
              · exact .pure rfl

theorem builderStatement?_passing (s : FlowState) (log : List Uptake) (i : Nat) :
    cx.Passing ⟨s, .at i, log⟩ (shownIf s i) (cx.builderStatement? s i) := by
  rw [builderStatement?]
  split
  · exact .pure rfl
  · next t ht =>
      dsimp only
      split
      · next hchain =>
          simp only [Bool.and_eq_true] at hchain
          obtain ⟨⟨⟨⟨-, htracked⟩, -⟩, -⟩, -⟩ := hchain
          have hbuilder : s.IsBuilder t.text := by
            intro v hv
            rw [hv, Option.any_some, beq_iff_eq] at htracked
            exact htracked
          refine .head (forward (Nat.le_succ i)) ?_
          refine (applyChain_passing s log (by simp) hbuilder (i + 1)).bind ?_
          rintro ⟨s', stop⟩ log' -
          dsimp only [shown]
          split
          · refine .bind (.operate fun s' hs => .report t.text hs) fun s'' log'' _ => ?_
            exact .head (forward (cx.le_afterStatement stop)) (.pure rfl)
          · exact .head (forward (cx.le_afterStatement stop)) (.pure rfl)
      · exact .pure rfl

/-! ## Runs -/

/-- One step of a run takes it to the place where the next one begins. -/
theorem step_passing (s : FlowState) (log : List Uptake) (i : Nat) :
    cx.Passing ⟨s, .at i, log⟩ (fun r => (r.1, .at (max r.2 (i + 1)))) (cx.step s i) := by
  have hdone : ∀ (log : List Uptake) (r : FlowState × Nat),
      cx.Passing ⟨r.1, .at r.2, log⟩ (fun r => (r.1, .at (max r.2 (i + 1))))
        (.ok (r.1, max r.2 (i + 1))) := fun log r =>
    .head (forward (by dsimp only; omega)) (.pure rfl)
  rw [step]
  refine (declaration?_passing s log i).bind fun r log _ => ?_
  cases r with
  | some r => exact hdone log r
  | none =>
      refine (assignment?_passing s log i).bind fun r log _ => ?_
      cases r with
      | some r => exact hdone log r
      | none =>
          refine (builderStatement?_passing s log i).bind fun r log _ => ?_
          cases r with
          | some r => exact hdone log r
          | none =>
              intro r hr
              obtain ⟨log', hread⟩ := looseToken_reads log hr
              exact ⟨log', (Relation.ReflTransGen.single (.loose hread)).trans
                (forward (Nat.le_max_left _ _))⟩

/-- A place that the run comes to occurs in its passage. -/
theorem Comes.occurs {i : Nat} (h : cx.Comes s i) : ∃ log, cx.Occurs ⟨s, .at i, log⟩ := by
  induction h with
  | start => exact ⟨[], .refl⟩
  | @step s s' i next _ _ hstep ih =>
      obtain ⟨log, hlog⟩ := ih
      obtain ⟨log', hpass⟩ := step_passing s log i _ hstep
      exact ⟨log', hlog.trans hpass⟩

theorem steps_passing (s : FlowState) (log : List Uptake) (i : Nat) (h : cx.steps s i = .ok s') :
    ∃ j log', cx.PassesOn ⟨s, .at i, log⟩ ⟨s', .at j, log'⟩ := by
  rw [steps] at h
  split at h
  · obtain ⟨done, hdone, h⟩ := ok_of_bind_eq_ok h
    obtain ⟨log₁, hstep⟩ := step_passing s log i done hdone
    obtain ⟨j, log', hrest⟩ := steps_passing done.1 log₁ (max done.2 (i + 1)) h
    exact ⟨j, log', hstep.trans hrest⟩
  · cases h
    exact ⟨i, log, .refl⟩
termination_by cx.scope.size - i

/-- The last reports are made of variables of the arena. -/
theorem flush_passing {vs : List Variable} (s : FlowState) (i : Nat) (log : List Uptake)
    (hdistinct : (vs.map (·.name)).Nodup) (h : ∀ v ∈ vs, s.arena.get? v.name = some v) :
    cx.Passing ⟨s, .at i, log⟩ (·, .at i) (cx.flush s vs) := by
  induction vs generalizing s log with
  | nil => exact .pure rfl
  | cons v rest ih =>
      have hdistinct' := (List.nodup_cons.1 hdistinct).2
      have hrest : ∀ w ∈ rest, s.arena.get? w.name = some w :=
        fun w hw => h w (List.mem_cons_of_mem v hw)
      rw [flush]
      split
      · have hv : s.arena.get? v.name = some v := h v List.mem_cons_self
        refine .bind (.operate fun s' hs => .report v.name ?_) fun s' log' hreport => ?_
        · rw [reportNamed, hv]
          exact hs
        · refine ih s' log' hdistinct' fun w hw => ?_
          obtain ⟨found, -, rfl⟩ := ok_of_map_eq_ok hreport
          have hne : w.name ≠ v.markReported.name := Arena.name_ne hdistinct w hw
          exact (Arena.get?_put_of_ne _ hne).trans (hrest w hw)
      · exact ih s log hdistinct' hrest

/-- From each place that it comes to, a run goes on to its end. -/
theorem Comes.passesOn_run {i : Nat} (h : cx.Comes s i) (log : List Uptake) (hrun : cx.run = .ok s') :
    ∃ j log', cx.PassesOn ⟨s, .at i, log⟩ ⟨s', .at j, log'⟩ := by
  obtain ⟨s₁, hsteps, hflush⟩ := ok_of_bind_eq_ok hrun
  rw [h.steps_eq] at hsteps
  obtain ⟨j, log₁, hpass⟩ := steps_passing s log i hsteps
  have hbefore : (s.arena.map (·.name)).Nodup := h.follows.changes.nodup List.nodup_nil
  have hdistinct : (s₁.arena.map (·.name)).Nodup := hpass.follows.changes.nodup hbefore
  obtain ⟨log', hlast⟩ := flush_passing s₁ j log₁ hdistinct
    (fun v hv => Arena.get?_of_mem hdistinct hv) s' hflush
  exact ⟨j, log', hpass.trans hlast⟩

/-- The end of a run occurs in its passage. -/
theorem run_occurs (h : cx.run = .ok s) : ∃ i log, cx.Occurs ⟨s, .at i, log⟩ :=
  Comes.start.passesOn_run [] h

end FlowContext

end EmbeddedSql
