/-
# Which appends are kept

An append to a tracked builder is kept if a step of the run begins at the builder's name.  Then the
fragments of its argument are put after those of the builder, and they are part of the accumulation in
every later state, until it comes to an end and in what it has come to then.

Elsewhere the call is read loosely, as part of something else: of the right-hand side of a declaration or
an assignment, of an argument of another builder's call, of the rest of a statement after a chain of
calls, or of an operand of a free-standing expression.  There nobody looks for calls on builders, and
nothing is added.  What a step makes of a builder is therefore known from how it begins:

| the step begins with | the accumulation |
| :-- | :-- |
| a chain of calls on the builder | what these calls make of it (`Accumulates`) |
| anything else | stays as it is, or ends so |

`run_keeps_appends` puts this together for every place of a scope where an append stands.
-/
import EmbeddedSql.Proofs.Flow.Coverage
import EmbeddedSql.Proofs.Flow.Keeping
import EmbeddedSql.Proofs.Flow.Updates

namespace EmbeddedSql

namespace Brackets

variable {b : Brackets} {i : Nat} {text : String}

/-- A token of one kind is none of another. -/
theorem not_isIdent_of_isPunct (h : b.isPunct i text = true) : b.isIdent i = false := by
  obtain ⟨t, ht, hp⟩ := exists_token_of_any h
  rw [Token.isPunct, Bool.and_eq_true, beq_iff_eq] at hp
  rw [isIdent, ht, Option.any_some, Token.isIdent, hp.1]
  rfl

theorem not_isOp_of_isPunct {op : String} (h : b.isPunct i text = true) : b.isOp i op = false := by
  obtain ⟨t, ht, hp⟩ := exists_token_of_any h
  rw [Token.isPunct, Bool.and_eq_true, beq_iff_eq] at hp
  rw [isOp, ht, Option.any_some, Token.isOp, hp.1]
  rfl

end Brackets

/-- Putting a variable where it stands changes nothing. -/
theorem Arena.put_like {arena : Arena} {v : Variable} (hv : arena.get? v.name = some v) :
    (arena.put v).Like arena := by
  intro x
  rw [LikeAt]
  by_cases hx : x = v.name
  · rw [hx, hv, get?_put_self]
  · rw [get?_put_of_ne _ hx]

namespace FlowContext

/-! ## What a chain of calls makes of its builder -/

/-- What is appended by a call with these parentheses, and the last line of it: nothing, the fragments
of the expression that fills the parentheses, or one unknown value if none does. -/
def argument (cx : FlowContext) (arena : Arena) (opening closing : Nat) :
    Except FlowError (List Fragment × Nat) :=
  if closing = opening + 1 then .ok ([], 0)
  else do
    let e ← cx.scope.expression arena (opening + 1)
    let last ← cx.fetch (closing - 1)
    if e.stop = closing then return (e.fragments, last.endLine)
    let first ← cx.fetch (opening + 1)
    return ([.unknown (cx.scope.sourceText (opening + 1) closing) first.startLine], last.endLine)

/-- A call is chained at place `i`, and its parentheses close at `closing`. -/
structure CallAt (cx : FlowContext) (i closing : Nat) : Prop where
  dot : cx.scope.isPunct i "." = true
  method : cx.scope.isIdent (i + 1) = true
  opening : cx.scope.isPunct (i + 2) "(" = true
  closer : cx.scope.closer? (i + 2) = some closing

/-- The call sets the length to zero. -/
def Empties (cx : FlowContext) (i closing : Nat) : Prop :=
  cx.scope.isWord (i + 1) "setLength" = true ∧ cx.scope.sourceText (i + 3) closing = "0"

/-- The calls that are chained from place `i` on make the second variable of the first.  Each argument is
read with what the calls before it have made of the builder.  When a call sets the length to zero, the
accumulation ends as it is. -/
inductive Accumulates (cx : FlowContext) (arena : Arena) : Variable → Nat → Variable → Prop
  | done {v : Variable} {i : Nat} : (∀ closing, ¬ cx.CallAt i closing) → Accumulates cx arena v i v
  | append {v w : Variable} {i closing : Nat} {added : List Fragment × Nat} :
      cx.CallAt i closing → cx.scope.isWord (i + 1) "append" = true →
      cx.argument (arena.put v) (i + 2) closing = .ok added →
      Accumulates cx arena (v.extend added.1 added.2) (closing + 1) w → Accumulates cx arena v i w
  | empty {v : Variable} {i closing : Nat} : cx.CallAt i closing → cx.Empties i closing →
      Accumulates cx arena v i v
  | other {v w : Variable} {i closing : Nat} : cx.CallAt i closing →
      cx.scope.isWord (i + 1) "append" = false → ¬ cx.Empties i closing →
      Accumulates cx arena v (closing + 1) w → Accumulates cx arena v i w

variable {cx : FlowContext} {arena arena' : Arena} {s s₀ s₁ s' : FlowState} {u v w : Variable}
  {i opening closing : Nat} {stops : List String}

/-- Calls only add. -/
theorem Accumulates.growsInto : cx.Accumulates arena v i w → v.GrowsInto w := by
  intro h
  induction h with
  | done _ => exact Variable.growsInto_self _
  | append _ _ _ _ ih => exact (Variable.growsInto_extend _ _ _).trans ih
  | empty _ _ => exact Variable.growsInto_self _
  | other _ _ _ _ ih => exact ih

theorem argument_eq_of_like (h : arena.Like arena') (opening closing : Nat) :
    cx.argument arena' opening closing = cx.argument arena opening closing := by
  rw [argument, argument, expression_eq_of_like h]

theorem CallAt.unique {closing' : Nat} (h : cx.CallAt i closing) (h' : cx.CallAt i closing') :
    closing = closing' :=
  Option.some.inj (h.closer.symm.trans h'.closer)

/-! ## Loose reading ends nothing -/

theorem closed_of_reportNamed {name : String} (h : cx.reportNamed s name = .ok s') :
    s'.closed = s.closed := by
  rw [reportNamed] at h
  split at h
  · obtain ⟨found, -, rfl⟩ := ok_of_map_eq_ok h
    rfl
  · cases h
    rfl

theorem closed_of_looseToken {lower : Nat} {r : FlowState × Nat}
    (h : cx.looseToken s lower i = .ok r) : r.1.closed = s.closed := by
  rw [looseToken] at h
  split at h
  · cases h
  · split at h
    · obtain ⟨e, -, h⟩ := ok_of_bind_eq_ok h
      dsimp only at h
      split at h
      · cases h
        rfl
      · obtain ⟨found, -, h⟩ := ok_of_bind_eq_ok h
        cases h
        rfl
    · split at h
      · obtain ⟨s₁, hs₁, rfl⟩ := ok_of_map_eq_ok h
        exact closed_of_reportNamed hs₁
      · cases h
        rfl

theorem closed_of_scanFrom {s s' : FlowState} {lower i stop : Nat}
    (h : cx.scanFrom s lower i stop = .ok s') : s'.closed = s.closed := by
  rw [scanFrom] at h
  split at h
  · obtain ⟨r, hr, h⟩ := ok_of_bind_eq_ok h
    exact (closed_of_scanFrom h).trans (closed_of_looseToken hr)
  · cases h
    rfl
termination_by min stop cx.scope.size - i

/-- The state holds the builder, and nothing has ended since. -/
structure Holds (s₀ s : FlowState) (v : Variable) : Prop where
  closed : s.closed = s₀.closed
  arena : (s₀.arena.put v).Like s.arena

theorem Holds.scanLoose (h : Holds s₀ s v) {start stop : Nat}
    (hscan : cx.scanLoose s start stop = .ok s') : Holds s₀ s' v := by
  obtain ⟨rs, -, hrecords⟩ := scanLoose_records hscan
  exact ⟨(closed_of_scanFrom hscan).trans h.closed, h.arena.trans hrecords.arena⟩

theorem Holds.exists_get? (h : Holds s₀ s v) :
    ∃ u, s.arena.get? v.name = some u ∧ u.unmarked = v.unmarked := by
  have hlike := h.arena v.name
  rw [Arena.LikeAt, Arena.get?_put_self] at hlike
  exact Option.map_eq_some_iff.1 hlike

theorem Holds.exists_fate? (h : Holds s₀ s v) :
    ∃ w, s₀.fate? s v.name = some w ∧ w.unmarked = v.unmarked := by
  obtain ⟨u, hu, hsame⟩ := h.exists_get?
  refine ⟨u, ?_, hsame⟩
  rw [FlowState.fate?, h.closed, List.drop_length]
  exact hu

theorem name_of_unmarked (h : u.unmarked = v.unmarked) : u.name = v.name :=
  show u.unmarked.name = v.unmarked.name from congrArg Variable.name h

/-- A changed builder takes the place of the one that was held. -/
theorem Holds.set {value : Variable} (h : Holds s₀ s v) {known : List Nat}
    (hset : Sets s s₁ v.name (some value) known) (hclosed : s₁.closed = s.closed)
    (hvalue : value.unmarked = w.unmarked) (hname : w.name = v.name) : Holds s₀ s₁ w := by
  refine ⟨hclosed.trans h.closed, fun x => ?_⟩
  rw [Arena.LikeAt]
  by_cases hx : x = w.name
  · rw [hx, Arena.get?_put_self, hname, hset.value]
    exact congrArg some hvalue
  · have hx' : x ≠ v.name := hname ▸ hx
    have hother : (s₀.arena.put w).get? x = (s₀.arena.put v).get? x :=
      (Arena.get?_put_of_ne _ hx).trans (Arena.get?_put_of_ne _ hx').symm
    rw [hother, hset.others x hx']
    exact h.arena x

/-! ## Calls -/

theorem closed_modify (s : FlowState) (name : String) (change : Variable → Variable) :
    (s.modify name change).closed = s.closed := by
  rw [FlowState.modify]
  split <;> rfl

theorem extend_nil (v : Variable) : v.extend [] 0 = v := by
  rw [Variable.extend, List.append_nil, Nat.max_zero]

/-- What an append does to its builder: the argument is added, then its tokens are read loosely. -/
theorem append_sets (hv : s.arena.get? v.name = some v)
    (h : cx.append s v.name opening closing = .ok s') :
    ∃ added known s₁, cx.argument s.arena opening closing = .ok added ∧
      Sets s s₁ v.name (some (v.extend added.1 added.2)) known ∧ s₁.closed = s.closed ∧
      cx.scanLoose s₁ (opening + 1) closing = .ok s' := by
  rw [append] at h
  rw [argument]
  split at h
  · next hempty =>
      cases h
      subst hempty
      refine ⟨([], 0), s.committed, s, if_pos rfl, ?_, rfl, ?_⟩
      · rw [extend_nil, ← hv]
        exact Sets.rfl
      · rw [scanLoose, scanFrom, dif_neg fun h => Nat.lt_irrefl _ (Nat.lt_min.1 h).1]
        rfl
  · next hne =>
      obtain ⟨e, he, h⟩ := ok_of_expression_bind h
      obtain ⟨last, hlast, h⟩ := ok_of_bind_eq_ok h
      rw [if_neg hne, he]
      dsimp only at h
      split at h
      · next hstop =>
          obtain ⟨s₁, hs₁, h⟩ := ok_of_bind_eq_ok h
          cases hs₁
          refine ⟨(e.fragments, last.endLine), _, _, ?_,
            commit_modify_sets hv e (·.extend e.fragments last.endLine) rfl,
            closed_modify (s.commit e) _ _, h⟩
          show (cx.fetch (closing - 1) >>= _) = _
          rw [hlast]
          exact if_pos hstop
      · next hstop =>
          obtain ⟨first, hfirst, h⟩ := ok_of_bind_eq_ok h
          obtain ⟨s₁, hs₁, h⟩ := ok_of_bind_eq_ok h
          cases hs₁
          let source := cx.scope.sourceText (opening + 1) closing
          refine ⟨([.unknown source first.startLine], last.endLine), _, _, ?_,
            modify_sets hv (·.extend [.unknown source first.startLine] last.endLine) rfl,
            closed_modify s _ _, h⟩
          show (cx.fetch (closing - 1) >>= _) = _
          rw [hlast]
          show (if e.stop = closing then _ else cx.fetch (opening + 1) >>= _) = _
          rw [if_neg hstop, hfirst]
          rfl

/-- So the builder that is held grows by the argument. -/
theorem Holds.append (h : Holds s₀ s v) (happend : cx.append s v.name opening closing = .ok s') :
    ∃ added, cx.argument (s₀.arena.put v) opening closing = .ok added ∧
      Holds s₀ s' (v.extend added.1 added.2) := by
  obtain ⟨u, hu, hsame⟩ := h.exists_get?
  have hname : u.name = v.name := name_of_unmarked hsame
  rw [← hname] at hu happend
  obtain ⟨added, known, s₁, hadded, hset, hclosed, hscan⟩ := append_sets hu happend
  refine ⟨added, (argument_eq_of_like h.arena _ _).symm.trans hadded, ?_⟩
  have hvalue : (u.extend added.1 added.2).unmarked = (v.extend added.1 added.2).unmarked :=
    congrArg (·.extend added.1 added.2) hsame
  rw [hname] at hset
  exact (h.set hset hclosed hvalue rfl).scanLoose hscan

/-- An emptied builder ends as it is. -/
theorem Holds.reset (h : Holds s₀ s v) {line : Nat} (hreset : cx.reset s v.name line = .ok s') :
    s₀.closed.length ≤ s'.closed.length ∧ ∃ w, w.unmarked = v.unmarked ∧
      (s'.closed.drop s₀.closed.length).find? (·.name == v.name) = some w := by
  obtain ⟨u, hu, hsame⟩ := h.exists_get?
  rw [FlowContext.reset, hu] at hreset
  obtain ⟨s₁, hs₁, rfl⟩ := ok_of_map_eq_ok hreset
  obtain ⟨found, -, rfl⟩ := ok_of_map_eq_ok hs₁
  have hname : u.markReported.name = v.name := name_of_unmarked hsame
  dsimp only [FlowState.bind]
  rw [h.closed, List.drop_left]
  refine ⟨(List.prefix_append _ _).length_le, u.markReported, hsame, ?_⟩
  exact List.find?_cons_of_pos (beq_iff_eq.2 hname)

theorem isWord_of_fetch {t : Token} (ht : cx.fetch i = .ok t) (hident : cx.scope.isIdent i = true)
    (text : String) : cx.scope.isWord i text = (t.text == text) := by
  rw [Brackets.isIdent, token?_of_fetch ht, Option.any_some] at hident
  rw [Brackets.isWord, token?_of_fetch ht, Option.any_some, hident, Bool.true_and]

/-- Reading the rest of a statement adds nothing. -/
theorem Holds.endChain (h : Holds s₀ s v) {r : FlowState × Nat}
    (hend : cx.endChain s stops i = .ok r) :
    ∃ w, s₀.fate? r.1 v.name = some w ∧ w.unmarked = v.unmarked := by
  obtain ⟨s₁, hs₁, rfl⟩ := ok_of_map_eq_ok hend
  exact (h.scanLoose hs₁).exists_fate?

/-- A chain of calls makes of its builder what its calls make of it, one after the other. -/
theorem applyChain_accumulates (hbalanced : Balanced cx.scope.tokens.toList) {s : FlowState}
    {v : Variable} {i : Nat} {r : FlowState × Nat} (h : Holds s₀ s v)
    (hchain : cx.applyChain s v.name stops i = .ok r) :
    ∃ u w, cx.Accumulates s₀.arena v i u ∧ s₀.fate? r.1 v.name = some w ∧
      w.unmarked = u.unmarked := by
  have hdone : (∀ closing, ¬ cx.CallAt i closing) → cx.endChain s stops i = .ok r →
      ∃ u w, cx.Accumulates s₀.arena v i u ∧ s₀.fate? r.1 v.name = some w ∧
        w.unmarked = u.unmarked := by
    intro hnone hend
    obtain ⟨w, hw, hsame⟩ := h.endChain hend
    exact ⟨v, w, .done hnone, hw, hsame⟩
  rw [applyChain] at hchain
  split at hchain
  · next hdot =>
      have hi : i < cx.scope.size := Brackets.lt_size_of_any hdot
      split at hchain
      · next hcall =>
          rw [Bool.and_eq_true] at hcall
          obtain ⟨closing, hclosing⟩ := Brackets.exists_closer?_of_paren hbalanced hcall.2
          have hat : cx.CallAt i closing := ⟨hdot, hcall.1, hcall.2, hclosing⟩
          split at hchain
          · next hnone =>
              rw [hclosing] at hnone
              cases hnone
          · next closing' hclosing' =>
              obtain rfl : closing = closing' := Option.some.inj (hclosing.symm.trans hclosing')
              have hlt : i + 2 < closing := Brackets.lt_of_closer? hclosing
              obtain ⟨s₁, hs₁, hchain⟩ := ok_of_bind_eq_ok hchain
              rw [applyCall] at hs₁
              obtain ⟨method, hmethod, hs₁⟩ := ok_of_bind_eq_ok hs₁
              have hword := isWord_of_fetch hmethod hcall.1
              split at hs₁
              · next happend =>
                  obtain ⟨added, hadded, hholds⟩ := h.append hs₁
                  obtain ⟨u, w, hu, hw, hsame⟩ := applyChain_accumulates hbalanced hholds hchain
                  exact ⟨u, w, .append hat ((hword _).trans happend) hadded hu, hw, hsame⟩
              · next hnoAppend =>
                  rw [Bool.not_eq_true] at hnoAppend
                  have hother : cx.scope.isWord (i + 1) "append" = false :=
                    (hword _).trans hnoAppend
                  split at hs₁
                  · next hempties =>
                      rw [Bool.and_eq_true, beq_iff_eq (a := cx.scope.sourceText _ _)] at hempties
                      obtain ⟨hle, w, hsame, hended⟩ := h.reset hs₁
                      have hrest : cx.Follows s₁ r.1 := applyChain_moves s₁ trivial _ _ r hchain
                      refine ⟨v, w, .empty hat ⟨(hword _).trans hempties.1, hempties.2⟩, ?_, hsame⟩
                      exact FlowState.fate?_of_ended hle (Moves.closed_prefix hrest) hended
                  · next hkeeps =>
                      have hstays : ¬ cx.Empties i closing := by
                        rintro ⟨hset, hzero⟩
                        refine hkeeps ?_
                        rw [← hword, hset, beq_iff_eq.2 hzero]
                        rfl
                      have hholds : Holds s₀ s₁ v := by
                        split at hs₁
                        · cases hs₁
                          exact h
                        · exact h.scanLoose hs₁
                      obtain ⟨u, w, hu, hw, hsame⟩ := applyChain_accumulates hbalanced hholds hchain
                      exact ⟨u, w, .other hat hother hstays hu, hw, hsame⟩
      · next hnone =>
          refine hdone (fun closing hat => hnone ?_) hchain
          rw [hat.method, hat.opening]
          rfl
  · next hnone => exact hdone (fun closing hat => hnone hat.dot) hchain
termination_by cx.scope.size - i

/-! ## Steps -/

/-- Neither a declaration nor an assignment begins at a name before a dot. -/
theorem declaration?_of_dot (hdot : cx.scope.isPunct (i + 1) "." = true) :
    cx.declaration? s i = .ok none := by
  have hident : cx.scope.isIdent (i + 1) = false := Brackets.not_isIdent_of_isPunct hdot
  rw [declaration?]
  split
  · rfl
  · rw [hident]
    simp

theorem assignment?_of_dot (hdot : cx.scope.isPunct (i + 1) "." = true) :
    cx.assignment? s i = .ok none := by
  rw [assignment?]
  split
  · rfl
  · split
    · rfl
    · rw [Brackets.not_isOp_of_isPunct hdot, Brackets.not_isOp_of_isPunct hdot]
      simp

/-- A step that begins with a chain of calls on a builder makes of it what the calls make of it. -/
theorem step_accumulates (hbalanced : Balanced cx.scope.tokens.toList) {r : FlowState × Nat}
    (hv : s.arena.get? v.name = some v) (hkind : v.kind = .builder) (hchain : cx.ChainsAt v.name i)
    (hstep : cx.step s i = .ok r) :
    ∃ u w, cx.Accumulates s.arena v (i + 1) u ∧ s.fate? r.1 v.name = some w ∧
      w.unmarked = u.unmarked := by
  obtain ⟨hname, hdot, hpunct, hword, hopen⟩ := hchain
  obtain ⟨t, ht, hident⟩ := Brackets.exists_token_of_any hname
  rw [Bool.and_eq_true, beq_iff_eq] at hident
  rw [step, declaration?_of_dot hpunct, assignment?_of_dot hpunct] at hstep
  obtain ⟨_, hnone, hstep⟩ := ok_of_bind_eq_ok hstep
  cases hnone
  obtain ⟨_, hnone, hstep⟩ := ok_of_bind_eq_ok hstep
  cases hnone
  obtain ⟨b, hb, hstep⟩ := ok_of_bind_eq_ok hstep
  rw [builderStatement?, ht] at hb
  dsimp only at hb
  rw [hident.2, hident.1, hdot, hv, Option.any_some, hkind, hpunct, hword, hopen] at hb
  have happlies : (true && !false && VariableKind.builder == .builder && true && true && true) =
      true := rfl
  rw [if_pos happlies] at hb
  obtain ⟨r₁, hr₁, hb⟩ := ok_of_bind_eq_ok hb
  obtain ⟨u, w, hu, hw, hsame⟩ := applyChain_accumulates hbalanced ⟨rfl, Arena.put_like hv⟩ hr₁
  have hmoves : cx.Follows s r₁.1 := applyChain_moves s trivial _ _ r₁ hr₁
  split at hb
  · obtain ⟨s₂, hs₂, hb⟩ := ok_of_bind_eq_ok hb
    cases hb
    cases hstep
    -- reporting marks the builder and changes nothing else
    have hreport : cx.Moves (· ≠ u.name) r₁.1 s₂ := reportNamed_moves r₁.1 v.name s₂ hs₂
    rw [← hu.growsInto.name] at hw ⊢
    obtain ⟨w', hw', hsame'⟩ := hreport.exists_fate? (lasts_unmarked fun hne => hne rfl)
      (Moves.closed_prefix hmoves).length_le ⟨w, hw, hsame⟩
    exact ⟨u, w', hu, hw', hsame'⟩
  · cases hb
    cases hstep
    exact ⟨u, w, hu, hw, hsame⟩

/-! ## Runs -/

/-- One step of the run goes over the place. -/
structure StepOver (cx : FlowContext) (k : Nat) (s s' : FlowState) (i next : Nat) : Prop where
  comes : cx.Comes s i
  step : cx.step s i = .ok (s', next)
  le : i ≤ k
  lt : k < max next (i + 1)

/-- Every place is gone over by a step. -/
theorem exists_stepOver {k : Nat} (hk : k < cx.scope.size) {s s' : FlowState} {i : Nat}
    (hcomes : cx.Comes s i) (hi : i ≤ k) (h : cx.steps s i = .ok s') :
    ∃ s₁ s₂ i₁ next, cx.StepOver k s₁ s₂ i₁ next ∧ i₁ < cx.scope.size := by
  have hsize : i < cx.scope.size := Nat.lt_of_le_of_lt hi hk
  rw [steps, dif_pos hsize] at h
  obtain ⟨⟨s₁, next⟩, hstep, h⟩ := ok_of_bind_eq_ok h
  rcases Nat.lt_or_ge k (max next (i + 1)) with hlt | hge
  · exact ⟨s, s₁, i, next, ⟨hcomes, hstep, hi, hlt⟩, hsize⟩
  · exact exists_stepOver hk (hcomes.step hsize hstep) hge h
termination_by cx.scope.size - i

/-- An append to the name stands at place `i`, wherever that is. -/
def AppendsAt (cx : FlowContext) (name : String) (i : Nat) : Prop :=
  cx.scope.isWord i name = true ∧ cx.scope.afterDot i = false ∧
    cx.scope.isPunct (i + 1) "." = true ∧ cx.scope.isWord (i + 2) "append" = true ∧
    cx.scope.isPunct (i + 3) "(" = true

theorem AppendsAt.chainsAt {name : String} : cx.AppendsAt name i → cx.ChainsAt name i := by
  rintro ⟨hname, hdot, hpunct, hword, hopen⟩
  refine ⟨hname, hdot, hpunct, ?_, hopen⟩
  obtain ⟨t, ht, hmethod⟩ := Brackets.exists_token_of_any hword
  rw [Bool.and_eq_true, beq_iff_eq] at hmethod
  rw [Brackets.isWordIn, ht, Option.any_some, hmethod.1, hmethod.2]
  rfl

/-- The first call of the chain is the append. -/
theorem Accumulates.append_first {name : String} (hk : cx.AppendsAt name i)
    (hbalanced : Balanced cx.scope.tokens.toList) (h : cx.Accumulates arena v (i + 1) w) :
    ∃ closing added, cx.scope.closer? (i + 3) = some closing ∧
      cx.argument (arena.put v) (i + 3) closing = .ok added ∧
      (v.extend added.1 added.2).GrowsInto w := by
  obtain ⟨-, -, hpunct, hword, hopen⟩ := hk
  obtain ⟨closing, hclosing⟩ := Brackets.exists_closer?_of_paren hbalanced hopen
  have hident : cx.scope.isIdent (i + 2) = true := by
    obtain ⟨t, ht, hmethod⟩ := Brackets.exists_token_of_any hword
    rw [Brackets.isIdent, ht]
    exact (Bool.and_eq_true_iff.1 hmethod).1
  have hat : cx.CallAt (i + 1) closing := ⟨hpunct, hident, hopen, hclosing⟩
  cases h with
  | done hnone => exact absurd hat (hnone closing)
  | append hat' _ hadded hrest =>
      obtain rfl := hat.unique hat'
      exact ⟨closing, _, hclosing, hadded, hrest.growsInto⟩
  | empty _ hempties =>
      obtain ⟨t, ht, hmethod⟩ := Brackets.exists_token_of_any hword
      obtain ⟨t', ht', hmethod'⟩ := Brackets.exists_token_of_any hempties.1
      obtain rfl : t = t' := Option.some.inj (ht.symm.trans ht')
      rw [Bool.and_eq_true, beq_iff_eq] at hmethod hmethod'
      rw [hmethod.2] at hmethod'
      exact absurd hmethod'.2 (by decide)
  | other _ hother _ _ =>
      rw [hword] at hother
      cases hother

/-- What a step has added to a builder stays added. -/
theorem exists_fate?_later {later : FlowState} (hkind : v.kind = .builder)
    (hstep : cx.Follows s s') (hlater : cx.Follows s' later)
    (h : ∃ w, s.fate? s' v.name = some w ∧ v.GrowsInto w) :
    ∃ w, s.fate? later v.name = some w ∧ v.GrowsInto w := by
  have honly : v.OnlyGrows := fun hplain => by
    rw [hkind] at hplain
    cases hplain
  exact hlater.exists_fate? (lasts_growsInto honly) (Moves.closed_prefix hstep).length_le h

end FlowContext

/-- Which appends are kept.  Each place where an append to a name stands is gone over by one step of the
run.  If the name holds a builder there, then

* where the step begins at the append, the fragments of the argument are added, and in every later state
  they are part of the accumulation, or of what it was when it ended;
* where it begins elsewhere, the append is lost: the step leaves the builder as it is, or makes of it
  what the chain of calls makes of it with which the step begins. -/
theorem run_keeps_appends (rules : RuleSet) (classifier : Classifier) (placeholder : Template)
    {tokens : List Token} (hbalanced : Balanced tokens) :
    let cx := FlowContext.ofTokens rules classifier placeholder tokens
    ∀ last, cx.run = .ok last → ∀ name k, cx.AppendsAt name k →
      ∃ s s' i next, cx.StepOver k s s' i next ∧ cx.Follows s' last ∧
        ∀ v, s.arena.get? name = some v → v.kind = .builder →
          (i = k → ∃ closing added, cx.scope.closer? (k + 3) = some closing ∧
            cx.argument s.arena (k + 3) closing = .ok added ∧
            ∀ later, cx.Follows s' later → ∃ w, s.fate? later name = some w ∧
              (v.extend added.1 added.2).GrowsInto w) ∧
          (i ≠ k → ∃ u w, s.fate? s' name = some w ∧ w.unmarked = u.unmarked ∧
            (u = v ∨ cx.ChainsAt name i ∧ cx.Accumulates s.arena v (i + 1) u)) := by
  intro cx last hrun name k hk
  have hbalanced' : Balanced cx.scope.tokens.toList := hbalanced
  obtain ⟨s₁, hsteps, -⟩ := ok_of_bind_eq_ok hrun
  have hsize : k < cx.scope.size := Brackets.lt_size_of_any hk.1
  obtain ⟨s, s', i, next, hover, hi⟩ :=
    FlowContext.exists_stepOver hsize .start k.zero_le hsteps
  have hlast : cx.Follows s' last := (hover.comes.step hi hover.step).follows_last hrun
  refine ⟨s, s', i, next, hover, hlast, ?_⟩
  intro v hv hkind
  obtain rfl := Arena.name_of_get? hv
  have hstep : cx.Follows s s' := FlowContext.step_moves s i (fun _ => trivial) _ hover.step
  constructor
  · rintro rfl
    obtain ⟨u, w, hu, hw, hsame⟩ :=
      FlowContext.step_accumulates hbalanced' hv hkind hk.chainsAt hover.step
    obtain ⟨closing, added, hclosing, hadded, hgrows⟩ := hu.append_first hk hbalanced'
    rw [← FlowContext.argument_eq_of_like (Arena.put_like hv)] at hadded
    refine ⟨closing, added, hclosing, hadded, fun later hlater => ?_⟩
    have hgrown : (v.extend added.1 added.2).GrowsInto w := hgrows.of_unmarked hsame
    exact FlowContext.exists_fate?_later (v := v.extend added.1 added.2) hkind hstep hlater
      ⟨w, hw, hgrown⟩
  · intro hne
    by_cases hchain : cx.ChainsAt v.name i
    · obtain ⟨u, w, hu, hw, hsame⟩ :=
        FlowContext.step_accumulates hbalanced' hv hkind hchain hover.step
      exact ⟨u, w, hw, hsame, .inr ⟨hchain, hu⟩⟩
    · have hkeeps : cx.Keeps v.name s s' := FlowContext.step_keeping s hv hkind hchain _ hover.step
      obtain ⟨w, hw, hsame⟩ := hkeeps.exists_fate? hv
      exact ⟨v, w, hw, hsame, .inl rfl⟩

/-- A builder that is appended to in a call argument and in the value of a declaration. -/
def twoAppends : List Token :=
  significant ((tokenize "StringBuilder sb = new StringBuilder(\"SELECT a\");
f(sb.append(\" FROM t\"));
String s = sb.append(\" WHERE x\").toString();").toOption.getD [])

/-- The first of the two is kept.  The second is gone over by the step of the declaration, and lost. -/
theorem run_keeps_appends_twoAppends :
    let cx := FlowContext.ofTokens .standard RuleSet.standard.classifier standardPlaceholder twoAppends
    ∃ last, cx.run = .ok last ∧
      (last.arena.get? "sb").map (·.fragments) =
        some [.literal (Text.ofString "SELECT a") 1, .literal (Text.ofString " FROM t") 2] ∧
      cx.AppendsAt "sb" 22 ∧
      ∃ s s' i next, cx.StepOver 22 s s' i next ∧ cx.Follows s' last ∧
        ∀ v, s.arena.get? "sb" = some v → v.kind = .builder → i ≠ 22 →
          ∃ u w, s.fate? s' "sb" = some w ∧ w.unmarked = u.unmarked ∧
            (u = v ∨ cx.ChainsAt "sb" i ∧ cx.Accumulates s.arena v (i + 1) u) := by
  intro cx
  have hread : cx.run.toOption.map (fun s => (s.arena.get? "sb").map (·.fragments)) =
      some (some [.literal (Text.ofString "SELECT a") 1, .literal (Text.ofString " FROM t") 2]) := by
    decide +kernel
  obtain ⟨last, hlast, hread⟩ := Option.map_eq_some_iff.1 hread
  have hlast := toOption_eq_some.1 hlast
  have hbalanced : Balanced twoAppends := by decide +kernel
  have hat : cx.AppendsAt "sb" 22 := by
    rw [FlowContext.AppendsAt]
    decide +kernel
  obtain ⟨s, s', i, next, hover, hrest, hall⟩ :=
    run_keeps_appends .standard RuleSet.standard.classifier standardPlaceholder hbalanced last hlast
      "sb" 22 hat
  exact ⟨last, hlast, hread, hat, s, s', i, next, hover, hrest,
    fun v hv hkind hne => (hall v hv hkind).2 hne⟩

end EmbeddedSql
