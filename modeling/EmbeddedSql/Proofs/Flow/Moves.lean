/-
# The moves of a run

A run goes forward by *moves*.  A move is a change of the state (`Change`) of which three more things
are known, because they hold in every handler:

| | |
| :-- | :-- |
| which variables become longer | only those that `grows` names: the target of the statement |
| how they become longer | by fragments that are put after the ones they have |
| where fragments come from | the tokens of the scope, and variables (`Sourced`) |

The second point has one exception.  `x = x + E` gives `x` the fragments of the whole right-hand side,
which begin with those of `x` because the expression reads its first word as the variable.  Where the
variable is called `new` or by one of the words that end a chain of operands, its name is not read in
this way, and `x = x + E` replaces what it held (`Move.regrow`).

The traversal of the handlers is made here once, for any choice of `grows` that allows for the target.
What every move keeps holds at the end of a run (`run_invariant_of_move`).  `Moves.changes` forgets what
is known beyond the change, so the same is true of what every change keeps (`run_invariant`).
-/
import EmbeddedSql.Proofs.Flow.Changes
import EmbeddedSql.Proofs.Flow.FirstLiteral
import EmbeddedSql.Proofs.Flow.Sources

namespace EmbeddedSql

namespace Brackets

/-- Words that an expression does not read as the name of a variable. -/
def nonReferenceWords : List String := "new" :: nonOperandWords

variable {b : Brackets} {arena : Arena} {i : Nat} {v : Variable}

/-- A tracked name before a plus sign is an operand that holds what its variable holds. -/
theorem operand_of_tracked (hname : b.isWord i v.name = true)
    (hword : v.name ∉ nonReferenceWords) (hdot : b.afterDot i = false)
    (hplus : b.isOp (i + 1) "+" = true) (hv : arena.get? v.name = some v) :
    ∃ o, b.operand arena i = .ok (some o) ∧ o.fragments = v.fragments := by
  obtain ⟨t, ht, hident⟩ := exists_token_of_any hname
  obtain ⟨hi, rfl⟩ := Array.getElem?_eq_some_iff.1 ht
  rw [Bool.and_eq_true, beq_iff_eq] at hident
  obtain ⟨hident, htext⟩ := hident
  have hkind : b.tokens[i].kind = .identifier := beq_iff_eq.1 hident
  have hnew : v.name ≠ "new" := fun h => hword (h ▸ List.mem_cons_self)
  have hoperand : nonOperandWords.contains v.name = false := by
    rw [← Bool.not_eq_true, List.contains_iff_mem]
    exact fun h => hword (List.mem_cons_of_mem _ h)
  have hstop : b.skipPostfix (i + 1) = i + 1 := skipPostfix_of_plus hplus
  refine ⟨b.reference arena i b.tokens[i], ?_, ?_⟩
  · rw [operand, dif_pos hi]
    simp only [hkind, htext, hoperand, beq_eq_false_iff_ne.2 hnew, Bool.false_eq_true, if_false]
  · simp only [reference, hdot, htext, hv, hstop, beq_self_eq_true, Bool.true_or, Bool.false_eq_true,
      if_false, if_true]

/-- So the fragments of an expression that begins in this way begin with those of the variable. -/
theorem fragments_of_tracked (hname : b.isWord i v.name = true)
    (hword : v.name ∉ nonReferenceWords) (hdot : b.afterDot i = false)
    (hplus : b.isOp (i + 1) "+" = true) (hv : arena.get? v.name = some v) {e : Expression}
    (h : b.expression arena i = .ok e) : ∃ more, e.fragments = v.fragments ++ more := by
  obtain ⟨o, ho, hfragments⟩ := operand_of_tracked hname hword hdot hplus hv
  rw [expression, ho] at h
  change (if _ : b.isOp o.stop "+" = true then _ else _) = _ at h
  split at h
  · obtain ⟨rest, -, h⟩ := ok_of_bind_eq_ok h
    cases h
    exact ⟨rest.fragments, congrArg (· ++ rest.fragments) hfragments⟩
  · cases h
    exact ⟨[], hfragments.trans (List.append_nil _).symm⟩

/-- No member access stands right after an equals sign. -/
theorem afterDot_of_isOp {text : String} (h : b.isOp i text = true) : b.afterDot (i + 1) = false := by
  obtain ⟨t, ht, hop⟩ := exists_token_of_any h
  rw [Token.isOp, Bool.and_eq_true, beq_iff_eq] at hop
  rw [afterDot, tokenBefore?_succ, ht, Option.any_some, Token.isPunct, hop.1]
  rfl

end Brackets

namespace FlowContext

/-- One move of a run.  A variable that is bound or emptied begins a new accumulation; one that comes to
an end is reported if that is due, and kept. -/
inductive Move (cx : FlowContext) (grows : String → Prop) (s : FlowState) : FlowState → Prop
  | commit {start : Nat} {e : Expression} : cx.scope.expression s.arena start = .ok e →
      Move cx grows s (s.commit e)
  | found {start i stop : Nat} {fragments : List Fragment} {found : List Candidate} :
      start < stop → cx.Sourced s fragments →
      cx.looseCandidates start i stop fragments = .ok found →
      Move cx grows s { s with candidates := s.candidates ++ found }
  | begin {name : String} (kind : VariableKind) {first last : Nat} (fragments : List Fragment) :
      s.arena.get? name = none → cx.Sourced s fragments → cx.StartsOn first → cx.EndsOn last →
      Move cx grows s (s.bind ⟨name, kind, first, max first last, fragments, none⟩)
  | extend {v : Variable} (fragments : List Fragment) {line : Nat} :
      s.arena.get? v.name = some v → grows v.name → cx.Sourced s fragments → cx.EndsOn line →
      Move cx grows s (s.bind (v.extend fragments line))
  | regrow {v : Variable} (fragments : List Fragment) {line : Nat} :
      s.arena.get? v.name = some v → grows v.name → v.kind = .plain →
      v.name ∈ Brackets.nonReferenceWords → cx.Sourced s fragments → cx.EndsOn line →
      Move cx grows s (s.bind (v.regrow fragments line))
  | report {v : Variable} {found : List Candidate} :
      s.arena.get? v.name = some v → cx.reportOf v = .ok found →
      Move cx grows s
        { s with arena := s.arena.put v.markReported, candidates := s.candidates ++ found }
  | finish {v : Variable} {found : List Candidate} :
      s.arena.get? v.name = some v → cx.lastReport v = .ok found →
      Move cx grows s
        { s with
          arena := s.arena.erase v.name
          candidates := s.candidates ++ found
          closed := s.closed ++ [v.markReported] }
  | empty {v : Variable} {line : Nat} {found : List Candidate} :
      s.arena.get? v.name = some v → cx.lastReport v = .ok found → cx.StartsOn line →
      Move cx grows s
        { s with
          arena := s.arena.put ⟨v.name, .builder, line, line, [], none⟩
          candidates := s.candidates ++ found
          closed := s.closed ++ [v.markReported] }
  | declare (declared : List (String × VariableKind)) : Move cx grows s { s with declared }

/-- A sequence of moves. -/
abbrev Moves (cx : FlowContext) (grows : String → Prop) : FlowState → FlowState → Prop :=
  Relation.ReflTransGen (cx.Move grows)

variable {cx : FlowContext} {grows : String → Prop} {s s' : FlowState}

/-- A move is a change. -/
theorem Move.change (h : cx.Move grows s s') : cx.Change s s' := by
  cases h with
  | commit he => exact .commit he
  | found hlt _ hfound => exact .found hlt hfound
  | begin kind fragments hfree _ hfirst hlast => exact .begin kind fragments hfree hfirst hlast
  | @extend v fragments line hv _ _ hline => exact .grow (v.fragments ++ fragments) hv hline
  | regrow fragments hv _ _ _ _ hline => exact .grow fragments hv hline
  | report hv hfound => exact .report hv hfound
  | finish hv hfound => exact .finish hv hfound
  | empty hv hfound hline => exact .empty hv hfound hline
  | declare declared => exact .declare declared

theorem Moves.changes (h : cx.Moves grows s s') : cx.Changes s s' :=
  h.lift id fun _ _ => Move.change

/-! ## Computations that move -/

/-- A computation that gives a result moves to its state, which `view` shows. -/
def Moving {α : Type} (cx : FlowContext) (grows : String → Prop) (s : FlowState)
    (view : α → FlowState) (o : Except FlowError α) : Prop :=
  ∀ a, o = .ok a → cx.Moves grows s (view a)

namespace Moving

variable {α β : Type} {view : α → FlowState} {view' : β → FlowState}

theorem pure {a : α} (h : view a = s) : cx.Moving grows s view (.ok a) := by
  rintro a ⟨⟩
  rw [h]

theorem bind {o : Except FlowError α} {f : α → Except FlowError β} (h : cx.Moving grows s view o)
    (hf : ∀ a, cx.Moving grows (view a) view' (f a)) : cx.Moving grows s view' (o >>= f) := by
  intro b hb
  obtain ⟨a, ha, hb⟩ := ok_of_bind_eq_ok hb
  exact (h a ha).trans (hf a b hb)

/-- What is computed first need not touch the state. -/
theorem after {o : Except FlowError α} {f : α → Except FlowError β}
    (hf : ∀ a, o = .ok a → cx.Moving grows s view' (f a)) : cx.Moving grows s view' (o >>= f) := by
  intro b hb
  obtain ⟨a, ha, hb⟩ := ok_of_bind_eq_ok hb
  exact hf a ha b hb

theorem afterExpression {arena : Arena} {i : Nat} {f : Expression → Except FlowError β}
    (hf : ∀ e, cx.scope.expression arena i = .ok e → cx.Moving grows s view' (f e)) :
    cx.Moving grows s view' (cx.expression arena i >>= f) :=
  after fun e he => hf e (expression_of_ok he)

theorem map {o : Except FlowError α} {f : α → β} (h : cx.Moving grows s view o)
    (hf : ∀ a, view' (f a) = view a) : cx.Moving grows s view' (o.map f) := by
  intro b hb
  obtain ⟨a, ha, rfl⟩ := ok_of_map_eq_ok hb
  rw [hf]
  exact h a ha

/-- Some moves, and what follows them. -/
theorem head {o : Except FlowError α} (hm : cx.Moves grows s s') (h : cx.Moving grows s' view o) :
    cx.Moving grows s view o :=
  fun a ho => hm.trans (h a ho)

/-- Whatever may grow, a computation that moves leads to its state. -/
theorem leads {o : Except FlowError α} (h : cx.Moving (fun _ => True) s view o) : cx.Leads s view o :=
  fun a ho => (h a ho).changes

end Moving

/-! ## Variables -/

theorem modify_moves {change : Variable → Variable} (name : String)
    (h : ∀ v, v.name = name → s.arena.get? v.name = some v → cx.Move grows s (s.bind (change v))) :
    cx.Moves grows s (s.modify name change) := by
  rw [FlowState.modify]
  split
  · next v hv =>
      have hname := Arena.name_of_get? hv
      exact .single (h v hname (hname ▸ hv))
  · exact .refl

/-- A variable that is extended grows by the fragments after its own. -/
theorem extend_moves (s : FlowState) {name : String} (hname : grows name)
    {fragments : List Fragment} (hsourced : cx.Sourced s fragments) {line : Nat}
    (h : cx.EndsOn line) : cx.Moves grows s (s.modify name (·.extend fragments line)) :=
  modify_moves name fun _ hn hv => .extend fragments hv (hn ▸ hname) hsourced h

theorem reportNamed_moves (s : FlowState) (name : String) :
    cx.Moving grows s id (cx.reportNamed s name) := by
  rw [reportNamed]
  split
  · next v hv =>
      obtain rfl := Arena.name_of_get? hv
      intro s' hs
      obtain ⟨found, hf, rfl⟩ := ok_of_map_eq_ok hs
      exact .single (.report hv hf)
  · exact .pure rfl

theorem discard_moves (s : FlowState) (name : String) :
    cx.Moving grows s id (cx.discard s name) := by
  rw [discard]
  split
  · next v hv =>
      obtain rfl := Arena.name_of_get? hv
      intro s' hs
      obtain ⟨found, hf, rfl⟩ := ok_of_map_eq_ok hs
      exact .tail (.single (.finish hv hf)) (.declare _)
  · next hn =>
      have herase : s.arena.erase name = s.arena :=
        List.filter_eq_self.2 fun v hv => by simpa using List.find?_eq_none.1 hn v hv
      rw [herase]
      rintro _ ⟨⟩
      exact .single (.declare _)

theorem reset_moves (s : FlowState) (name : String) {line : Nat} (h : cx.StartsOn line) :
    cx.Moving grows s id (cx.reset s name line) := by
  rw [reset]
  split
  · exact .pure rfl
  · next v hv =>
      obtain rfl := Arena.name_of_get? hv
      intro s' hs
      obtain ⟨s₁, hc, rfl⟩ := ok_of_map_eq_ok hs
      obtain ⟨found, hf, rfl⟩ := ok_of_map_eq_ok hc
      exact .single (.empty hv hf h)

theorem declare_moves (s : FlowState) (name : String) (kind : VariableKind) :
    cx.Moving grows s id (cx.declare s name kind) := by
  intro s' hs
  obtain ⟨s₁, hd, rfl⟩ := ok_of_map_eq_ok hs
  exact .tail (discard_moves s name s₁ hd) (.declare _)

theorem rebind_moves (s : FlowState) (name : String) (kind : VariableKind) {first last : Nat}
    {fragments : List Fragment} (hsourced : cx.Sourced s fragments) (hf : cx.StartsOn first)
    (hl : cx.EndsOn last) :
    cx.Moving grows s id (cx.rebind s ⟨name, kind, first, max first last, fragments, none⟩) := by
  intro s' hs
  obtain ⟨s₁, hd, rfl⟩ := ok_of_map_eq_ok hs
  have hfree : s₁.arena.get? name = none := get?_of_discard hd
  have hsourced₁ : cx.Sourced s₁ fragments := hsourced.mono fun _ => hasHeld_of_discard hd
  refine .tail (.tail (discard_moves s name s₁ hd) ?_) (.declare _)
  exact .begin kind fragments hfree hsourced₁ hf hl

/-! ## Loose tokens -/

theorem looseExpression_moves (s : FlowState) (lower i : Nat) :
    cx.Moving grows s Prod.fst (cx.looseExpression s lower i) := by
  have hp := pullIn_le cx.scope.toBrackets lower i
  rw [looseExpression]
  refine .afterExpression fun e he => .head (.single (.commit he)) ?_
  split
  · exact .pure rfl
  · intro r ho
    obtain ⟨found, hfound, ho⟩ := ok_of_bind_eq_ok ho
    cases ho
    exact .single (.found (by omega) (sourced_commit he) hfound)

theorem looseToken_moves (s : FlowState) (lower i : Nat) :
    cx.Moving grows s Prod.fst (cx.looseToken s lower i) := by
  rw [looseToken]
  split
  · rintro r ⟨⟩
  · next t _ =>
    split
    · exact looseExpression_moves s lower i
    · split
      · exact (reportNamed_moves s t.text).map fun _ => rfl
      · exact .pure rfl

theorem scanFrom_moves (s : FlowState) (lower i stop : Nat) :
    cx.Moving grows s id (cx.scanFrom s lower i stop) := by
  rw [scanFrom]
  split
  · exact (looseToken_moves s lower i).bind fun read =>
      scanFrom_moves read.1 lower (max read.2 (i + 1)) stop
  · exact .pure rfl
termination_by min stop cx.scope.size - i

theorem scanLoose_moves (s : FlowState) (start stop : Nat) :
    cx.Moving grows s id (cx.scanLoose s start stop) :=
  scanFrom_moves s start start stop

/-- Reading loosely is the end of many handlers. -/
theorem scanLoose_map_moves (s : FlowState) (start stop next : Nat) :
    cx.Moving grows s Prod.fst ((cx.scanLoose s start stop).map (·, next)) :=
  (scanLoose_moves s start stop).map fun _ => rfl

/-! ## Chains of calls -/

theorem append_moves (s : FlowState) {name : String} (hname : grows name) (opening closing : Nat) :
    cx.Moving grows s id (cx.append s name opening closing) := by
  rw [append]
  split
  · exact .pure rfl
  · refine .afterExpression fun e he => .after fun last hlast => ?_
    have hend := endsOn_of_fetch hlast
    split
    · refine .head (.single (.commit he)) ?_
      exact .head (extend_moves _ hname (sourced_commit he) hend)
        (scanLoose_moves _ _ _)
    · exact .after fun first _ =>
        .head (extend_moves s hname (Brackets.sourced_single (.unknown _ _)) hend)
          (scanLoose_moves _ _ _)

theorem applyCall_moves (s : FlowState) {name : String} (hname : grows name)
    (i opening closing : Nat) : cx.Moving grows s id (cx.applyCall s name i opening closing) := by
  rw [applyCall]
  refine .after fun method hmethod => ?_
  split
  · exact append_moves s hname opening closing
  · split
    · exact reset_moves s name (startsOn_of_fetch hmethod)
    · split
      · exact .pure rfl
      · exact scanLoose_moves s _ _

theorem applyChain_moves (s : FlowState) {name : String} (hname : grows name)
    (stops : List String) (i : Nat) :
    cx.Moving grows s Prod.fst (cx.applyChain s name stops i) := by
  rw [applyChain]
  split
  · next h =>
      have hi : i < cx.scope.size := Brackets.lt_size_of_any h
      split
      · split
        · exact .pure rfl
        · next closing hc =>
            have hlt : i + 2 < closing := Brackets.lt_of_closer? hc
            exact (applyCall_moves s hname _ _ _).bind fun s =>
              applyChain_moves s hname stops (closing + 1)
      · exact scanLoose_map_moves s _ _ _
  · exact scanLoose_map_moves s _ _ _
termination_by cx.scope.size - i

/-! ## Bindings -/

theorem initialFragments_moves (s : FlowState) (opening closing : Nat) :
    cx.Moving grows s Prod.fst (cx.initialFragments s opening closing) := by
  rw [initialFragments.eq_def]
  split
  · exact .pure rfl
  · split
    · exact .pure rfl
    · refine .afterExpression fun e he => ?_
      split
      · exact .head (.single (.commit he)) (.pure rfl)
      · exact .pure rfl

theorem bindBuilder_moves (s : FlowState) {name : String} (hname : grows name) {line : Nat}
    (i : Nat) (hl : cx.StartsOn line) :
    cx.Moving grows s Prod.fst (cx.bindBuilder s name line i) := by
  rw [bindBuilder]
  refine .after fun initial hinitial => ?_
  refine .head (initialFragments_moves s _ _ initial hinitial) ?_
  obtain ⟨s₁, fragments⟩ := initial
  have hsourced : cx.Sourced s₁ fragments := initialFragments_sourced hinitial
  refine .after fun last hlast => ?_
  refine (rebind_moves s₁ name .builder hsourced hl (endsOn_of_fetch hlast)).bind fun s => ?_
  exact (scanLoose_moves s _ _).bind fun s => applyChain_moves s hname _ _

/-- An assignment that continues its variable extends it, unless its name is not read as a variable. -/
theorem modify_regrow_moves {name : String} (hname : grows name) {rhs : Nat} {e : Expression}
    (he : cx.scope.expression s.arena rhs = .ok e)
    (hplain : (s.arena.get? name).any (·.kind == .plain) = true)
    (hword : cx.scope.isWord rhs name = true) (hplus : cx.scope.isOp (rhs + 1) "+" = true)
    (hdot : cx.scope.afterDot rhs = false) {line : Nat} (h : cx.EndsOn line) :
    cx.Moves grows s (s.modify name (·.regrow e.fragments line)) := by
  refine modify_moves name ?_
  rintro v rfl hv
  rw [hv, Option.any_some, beq_iff_eq] at hplain
  have hsourced : cx.Sourced s e.fragments :=
    (Brackets.expression_sourced _ _ rhs he).mono fun _ => .inl
  by_cases hname' : v.name ∈ Brackets.nonReferenceWords
  · exact .regrow e.fragments hv hname hplain hname' hsourced h
  · obtain ⟨more, hmore⟩ := Brackets.fragments_of_tracked hword hname' hdot hplus hv he
    rw [hmore] at hsourced ⊢
    exact .extend more hv hname (hsourced.subset (List.subset_append_right _ _)) h

theorem regrow_moves {name : String} (hname : grows name) {rhs : Nat} {e : Expression}
    (he : cx.scope.expression s.arena rhs = .ok e)
    (hplain : (s.arena.get? name).any (·.kind == .plain) = true)
    (hword : cx.scope.isWord rhs name = true) (hplus : cx.scope.isOp (rhs + 1) "+" = true)
    (hdot : cx.scope.afterDot rhs = false) {line : Nat} (h : cx.EndsOn line) :
    cx.Moves grows s ((s.commit e).modify name (·.regrow e.fragments line)) := by
  have he' : cx.scope.expression (s.commit e).arena rhs = .ok e := he
  exact .head (.commit he) (modify_regrow_moves hname he' hplain hword hplus hdot h)

theorem bindPlain_moves (s : FlowState) {binding : Binding} (hname : grows binding.name) {rhs : Nat}
    (hrhs : cx.scope.afterDot rhs = false) (hl : cx.StartsOn binding.line) :
    cx.Moving grows s Prod.fst (cx.bindPlain s binding rhs) := by
  rw [bindPlain]
  refine .afterExpression fun e he => .after fun last hlast => ?_
  have hend := endsOn_of_lastLine hlast
  split
  · next hcontinues =>
      simp only [Bool.and_eq_true] at hcontinues
      obtain ⟨⟨⟨-, hplain⟩, hword⟩, hplus⟩ := hcontinues
      exact .head (regrow_moves hname he hplain hword hplus hrhs hend) (scanLoose_map_moves _ _ _ _)
  · refine .head (.single (.commit he)) ?_
    refine (rebind_moves _ binding.name .plain (sourced_commit he) hl hend).bind fun s => ?_
    exact scanLoose_map_moves s _ _ _

theorem bindValue_moves (s : FlowState) {binding : Binding} (hname : grows binding.name) {rhs : Nat}
    (hrhs : cx.scope.afterDot rhs = false) (hl : cx.StartsOn binding.line) :
    cx.Moving grows s Prod.fst (cx.bindValue s binding rhs) := by
  rw [bindValue]
  split
  · exact bindBuilder_moves s hname _ hl
  · split
    · refine (discard_moves s binding.name).bind fun s => ?_
      exact scanLoose_map_moves s _ _ _
    · exact bindPlain_moves s hname hrhs hl

/-! ## Statements -/

theorem declarator_moves (s : FlowState) (typeName : String) {line k : Nat}
    (hname : ∀ t, cx.scope.token? k = some t → grows t.text) (hl : cx.StartsOn line) :
    cx.Moving grows s Prod.fst (cx.declarator s typeName line k) := by
  rw [declarator]
  refine .after fun t ht => ?_
  split
  · next hassign =>
      exact bindValue_moves s (hname t (token?_of_fetch ht)) (Brackets.afterDot_of_isOp hassign) hl
  · split
    · exact (declare_moves s t.text _).map fun _ => rfl
    · exact .pure rfl

theorem declarators_moves (s : FlowState) (typeName : String) {line : Nat} (k : Nat)
    (hnames : ∀ name, grows name) (hl : cx.StartsOn line) :
    cx.Moving grows s Prod.fst (cx.declarators s typeName line k) := by
  rw [declarators]
  refine (declarator_moves s typeName (fun t _ => hnames t.text) hl).bind ?_
  rintro ⟨s, stop⟩
  dsimp only
  split
  · next hc =>
      have hlt : stop < cx.scope.size := Brackets.lt_size_of_any hc.1
      split
      · split
        · exact declarators_moves s typeName (stop + 1) hnames hl
        · exact .pure rfl
      · exact .pure rfl
  · exact .pure rfl
termination_by cx.scope.size - k

theorem declaration?_moves (s : FlowState) (i : Nat) (hnames : ∀ name, grows name) :
    cx.Moving grows s (handled s) (cx.declaration? s i) := by
  rw [declaration?]
  split
  · exact .pure rfl
  · next t ht =>
      dsimp only
      split
      · refine (declarators_moves s _ _ hnames ?_).map fun _ => rfl
        exact ⟨t, mem_tokens_of_token? ht, rfl⟩
      · exact .pure rfl

theorem compoundAssignment_moves (s : FlowState) {name : String} (hname : grows name) (rhs : Nat) :
    cx.Moving grows s Prod.fst (cx.compoundAssignment s name rhs) := by
  rw [compoundAssignment]
  refine .afterExpression fun e he => ?_
  split
  · refine .after fun last hlast => ?_
    have hend := endsOn_of_lastLine hlast
    refine .head (.single (.commit he)) ?_
    exact .head (extend_moves _ hname (sourced_commit he) hend)
      (scanLoose_map_moves _ _ _ _)
  · exact scanLoose_map_moves s _ _ _

theorem assignment?_moves (s : FlowState) {i : Nat}
    (hname : ∀ t, cx.scope.token? i = some t → grows t.text) :
    cx.Moving grows s (handled s) (cx.assignment? s i) := by
  rw [assignment?]
  split
  · exact .pure rfl
  · next t ht =>
      have hl : cx.StartsOn t.startLine := ⟨t, mem_tokens_of_token? ht, rfl⟩
      split
      · exact .pure rfl
      · split
        · exact .pure rfl
        · split
          · next hassign =>
              have hdot := Brackets.afterDot_of_isOp hassign
              exact (bindValue_moves s (hname t ht) hdot hl).map fun _ => rfl
          · split
            · exact (compoundAssignment_moves s (hname t ht) _).map fun _ => rfl
            · exact .pure rfl

theorem builderStatement?_moves (s : FlowState) {i : Nat}
    (hname : ∀ t, cx.scope.token? i = some t → grows t.text) :
    cx.Moving grows s (handled s) (cx.builderStatement? s i) := by
  rw [builderStatement?]
  split
  · exact .pure rfl
  · next t ht =>
    dsimp only
    split
    · refine (applyChain_moves s (hname t ht) _ _).bind fun (s, stop) => ?_
      dsimp only
      split
      · exact (reportNamed_moves s _).bind fun s => .pure rfl
      · exact .pure rfl
    · exact .pure rfl

/-! ## Runs -/

theorem step_moves (s : FlowState) (i : Nat) (hnames : ∀ name, grows name) :
    cx.Moving grows s Prod.fst (cx.step s i) := by
  rw [step]
  refine (declaration?_moves s i hnames).bind fun r => ?_
  cases r with
  | some r => exact .pure rfl
  | none =>
      refine (assignment?_moves s fun t _ => hnames t.text).bind fun r => ?_
      cases r with
      | some r => exact .pure rfl
      | none =>
          refine (builderStatement?_moves s fun t _ => hnames t.text).bind fun r => ?_
          cases r with
          | some r => exact .pure rfl
          | none => exact looseToken_moves s 0 i

theorem steps_moves (s : FlowState) (i : Nat) (hnames : ∀ name, grows name) :
    cx.Moving grows s id (cx.steps s i) := by
  rw [steps]
  split
  · exact (step_moves s i hnames).bind fun done => steps_moves done.1 (max done.2 (i + 1)) hnames
  · exact .pure rfl
termination_by cx.scope.size - i

/-- Reporting variables of the arena in turn, each of them as it was at the start: marking one leaves
the others as they are. -/
theorem flush_moves {vs : List Variable} (s : FlowState) (hdistinct : (vs.map (·.name)).Nodup)
    (h : ∀ v ∈ vs, s.arena.get? v.name = some v) : cx.Moving grows s id (cx.flush s vs) := by
  induction vs generalizing s with
  | nil => exact .pure rfl
  | cons v rest ih =>
      have hdistinct' := (List.nodup_cons.1 hdistinct).2
      have hrest : ∀ w ∈ rest, s.arena.get? w.name = some w :=
        fun w hw => h w (List.mem_cons_of_mem v hw)
      rw [flush]
      split
      · refine .after fun s₁ hr => ?_
        obtain ⟨found, hf, rfl⟩ := ok_of_map_eq_ok hr
        refine .head (.single (.report (h v List.mem_cons_self) hf)) (ih _ hdistinct' ?_)
        intro w hw
        have hne : w.name ≠ v.markReported.name := Arena.name_ne hdistinct w hw
        rw [Arena.get?_put_of_ne _ hne]
        exact hrest w hw
      · exact ih s hdistinct' hrest

/-- The last reports are made of the variables that there are. -/
theorem flush_arena_moves (h : cx.Changes .start s) : cx.Moving grows s id (cx.flush s s.arena) := by
  have hdistinct : (s.arena.map (·.name)).Nodup := h.nodup List.nodup_nil
  exact flush_moves s hdistinct fun v hv => Arena.get?_of_mem hdistinct hv

/-- A whole run is a sequence of moves. -/
theorem run_moves (hnames : ∀ name, grows name) : cx.Moving grows .start id cx.run := by
  refine .after fun s hs => ?_
  have hsteps : cx.Moves grows .start s := steps_moves .start 0 hnames s hs
  exact .head hsteps (flush_arena_moves hsteps.changes)

/-- What every move keeps holds at the end of a run. -/
theorem run_invariant_of_move {I : FlowState → Prop} (hstart : I .start)
    (hmove : ∀ s s', I s → cx.Move (fun _ => True) s s' → I s') (h : cx.run = .ok s) : I s := by
  have hs : cx.Moves (fun _ => True) .start s := run_moves (fun _ => trivial) s h
  clear h
  induction hs with
  | refl => exact hstart
  | tail _ hm ih => exact hmove _ _ ih hm

/-- So does what every change keeps. -/
theorem run_invariant {I : FlowState → Prop} (hstart : I .start)
    (hchange : ∀ s s', I s → cx.Change s s' → I s') (h : cx.run = .ok s) : I s :=
  run_invariant_of_move hstart (fun s s' hs hm => hchange s s' hs hm.change) h

end FlowContext

end EmbeddedSql
