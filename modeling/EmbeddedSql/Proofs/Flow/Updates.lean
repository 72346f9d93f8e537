/-
# A statement changes its variable before it reads its own code again

An assignment, an addition and an appending call read the new value of their variable first, with the
variables as they are before the statement.  Then the variable is changed, and only after that the same
tokens are read loosely, for the free-standing expressions and the names under executing calls in them.
These see the variable as the statement leaves it (`Rereads`).

| | | |
| :-- | :-- | :-- |
| `x = E` | `RereadsValue` | `x` is bound to `E`, or to the builder that `E` constructs, or is lost |
| `x += E` | `RereadsSum` | `x` has been extended by `E` |
| `x.append(E)` | `RereadsArgument` | `x` has been extended by `E` |

So an expression inside of `E` that names `x` is shown with the text of `E` in it, and `x` under an
executing call inside of `E` is reported with `E`.  All other variables are as before the statement, and
so are the readings that do not name `x`.
-/
import EmbeddedSql.Flow.Run
import EmbeddedSql.Proofs.Flow.Readings
import EmbeddedSql.Scope.Basic
import EmbeddedSql.Token.Lexer

namespace EmbeddedSql

namespace FlowContext

/-- The first state becomes the second when the variable `name` gets its new value, or none, and the
literals `known` have been read. -/
structure Sets (s s' : FlowState) (name : String) (value : Option Variable) (known : List Nat) :
    Prop where
  others : ∀ x, x ≠ name → s'.arena.get? x = s.arena.get? x
  value : s'.arena.get? name = value
  committed : s'.committed = known
  reported : ∃ reported, s'.candidates = s.candidates ++ reported

/-- From the first state to the second a statement sets the variable `name`, and then reads the tokens
from `start` up to `stop` loosely: `after` is what it reads there, and `before` is what it would read
with the variables as they were. -/
def Rereads (cx : FlowContext) (s s' : FlowState) (name : String) (value : Option Variable)
    (known : List Nat) (start stop : Nat) : Prop :=
  ∃ s₁ before after, Sets s s₁ name value known ∧
    cx.readings s.arena known start stop = .ok before ∧
    cx.readings s₁.arena known start stop = .ok after ∧
    List.Forall₂ (cx.SameBut name) before after ∧ cx.Records s₁ s' after

/-- The value at `rhs` is bound and read again: up to its end, or the arguments of a construction, after
which the calls chained to it are applied. -/
def RereadsValue (cx : FlowContext) (s : FlowState) (binding : Binding) (rhs : Nat)
    (r : FlowState × Nat) : Prop :=
  if cx.constructsBuilder binding rhs then
    let closing := (cx.scope.closer? (rhs + 2)).getD (cx.scope.size - 1)
    ∃ s₀ w s₁, cx.initialFragments s (rhs + 2) closing = .ok (s₀, w.fragments) ∧
      cx.Rereads s s₁ binding.name (some w) s₀.committed (rhs + 3) closing ∧
      cx.applyChain s₁ binding.name [";", ","] (closing + 1) = .ok r
  else if cx.losesTarget s binding rhs then
    cx.Rereads s r.1 binding.name none s.committed rhs (cx.scope.skipToStop [";", ","] rhs)
  else
    ∃ e w, cx.scope.expression s.arena rhs = .ok e ∧ w.fragments = e.fragments ∧
      cx.Rereads s r.1 binding.name (some w) (s.committed ++ e.literals) rhs
        (cx.scope.skipToStop [";", ","] e.stop)

/-- The expression at `rhs` is added and read again.  Nothing is added to a builder in this way. -/
def RereadsSum (cx : FlowContext) (s : FlowState) (v : Variable) (rhs : Nat) (s' : FlowState) : Prop :=
  ∃ e, cx.scope.expression s.arena rhs = .ok e ∧
    if v.kind = .plain then
      ∃ line, cx.Rereads s s' v.name (some (v.extend e.fragments line))
        (s.committed ++ e.literals) rhs (cx.scope.skipToStop [";"] e.stop)
    else cx.Rereads s s' v.name (some v) s.committed rhs (cx.scope.skipToStop [";"] e.stop)

/-- The argument list is appended and read again.  One that is no expression as a whole counts as one
unknown value. -/
def RereadsArgument (cx : FlowContext) (s : FlowState) (v : Variable) (opening closing : Nat)
    (s' : FlowState) : Prop :=
  ∃ e, cx.scope.expression s.arena (opening + 1) = .ok e ∧
    if e.stop = closing then
      ∃ line, cx.Rereads s s' v.name (some (v.extend e.fragments line))
        (s.committed ++ e.literals) (opening + 1) closing
    else
      ∃ first line, cx.Rereads s s' v.name
        (some (v.extend [.unknown (cx.scope.sourceText (opening + 1) closing) first] line))
        s.committed (opening + 1) closing

variable {cx : FlowContext} {s s₀ s₁ s' : FlowState} {name : String} {value : Option Variable}
  {known : List Nat} {start stop : Nat}

/-- Reading loosely, after one variable has been changed. -/
theorem Sets.rereads (hset : Sets s s₁ name value known)
    (h : cx.scanLoose s₁ start stop = .ok s') :
    cx.Rereads s s' name value known start stop := by
  obtain ⟨after, hafter, hrecords⟩ := scanLoose_records h
  rw [hset.committed] at hafter
  have hlike : ∀ x, x ≠ name → s.arena.LikeAt s₁.arena x :=
    fun x hx => congrArg (Option.map Variable.unmarked) (hset.others x hx)
  obtain ⟨before, hbefore, hsame⟩ :=
    (readings_sameBut hlike known start stop).exists_ok hafter
  exact ⟨s₁, before, after, hset, hbefore, hafter, hsame, hrecords⟩

/-! ## Setting a variable -/

/-- The literals that have been read before make no difference. -/
theorem Sets.of_eq (h : Sets s₀ s₁ name value known) (ha : s₀.arena = s.arena)
    (hc : s₀.candidates = s.candidates) : Sets s s₁ name value known :=
  ⟨fun x hx => (h.others x hx).trans (congrArg (·.get? x) ha), h.value, h.committed,
    h.reported.imp fun _ hr => hr.trans (congrArg (· ++ _) hc)⟩

theorem Sets.rfl : Sets s s name (s.arena.get? name) s.committed :=
  ⟨fun _ _ => Eq.refl _, Eq.refl _, Eq.refl _, [], (List.append_nil _).symm⟩

theorem bind_sets (s : FlowState) (v : Variable) :
    Sets s (s.bind v) v.name (some v) s.committed :=
  ⟨fun _ hx => Arena.get?_put_of_ne _ hx, Arena.get?_put_self _ _, rfl, [],
    (List.append_nil _).symm⟩

theorem modify_sets {v : Variable} (hv : s.arena.get? v.name = some v)
    (change : Variable → Variable) (hname : (change v).name = v.name) :
    Sets s (s.modify v.name change) v.name (some (change v)) s.committed := by
  unfold FlowState.modify
  rw [hv, ← hname]
  exact bind_sets s (change v)

/-- Reading an expression leaves the variables as they are. -/
theorem commit_modify_sets {v : Variable} (hv : s.arena.get? v.name = some v) (e : Expression)
    (change : Variable → Variable) (hname : (change v).name = v.name) :
    Sets s ((s.commit e).modify v.name change) v.name (some (change v))
      (s.committed ++ e.literals) := by
  have hget : (s.commit e).arena.get? v.name = some v := hv
  exact (modify_sets hget change hname).of_eq rfl rfl

theorem discard_sets (h : cx.discard s name = .ok s') : Sets s s' name none s.committed := by
  unfold discard at h
  dsimp only at h
  split at h
  · obtain ⟨found, -, rfl⟩ := ok_of_map_eq_ok h
    exact ⟨fun x hx => Arena.get?_erase_of_ne _ hx, Arena.get?_erase_self _ _, rfl, found, rfl⟩
  · cases h
    exact ⟨fun x hx => Arena.get?_erase_of_ne _ hx, Arena.get?_erase_self _ _, rfl, [],
      (List.append_nil _).symm⟩

theorem rebind_sets {v : Variable} (h : cx.rebind s v = .ok s') :
    Sets s s' v.name (some v) s.committed := by
  obtain ⟨s₁, hs₁, rfl⟩ := ok_of_map_eq_ok h
  obtain ⟨hothers, -, hcommitted, hreported⟩ := discard_sets hs₁
  refine ⟨fun x hx => ?_, Arena.get?_put_self _ _, hcommitted, hreported⟩
  exact (Arena.get?_put_of_ne _ hx).trans (hothers x hx)

/-! ## Additions -/

variable {v : Variable}

theorem compoundAssignment_rereads (hv : s.arena.get? v.name = some v) {rhs : Nat}
    {r : FlowState × Nat} (h : cx.compoundAssignment s v.name rhs = .ok r) :
    cx.RereadsSum s v rhs r.1 := by
  unfold compoundAssignment at h
  obtain ⟨e, he, h⟩ := ok_of_expression_bind h
  refine ⟨e, he, ?_⟩
  dsimp only at h
  rw [hv, Option.any_some] at h
  split
  · next hkind =>
      rw [if_pos (beq_iff_eq.2 hkind)] at h
      obtain ⟨line, -, h⟩ := ok_of_bind_eq_ok h
      obtain ⟨s₂, hs₂, rfl⟩ := ok_of_map_eq_ok h
      exact ⟨line, (commit_modify_sets hv e _ rfl).rereads hs₂⟩
  · next hkind =>
      rw [if_neg fun hk => hkind (beq_iff_eq.1 hk)] at h
      obtain ⟨s₂, hs₂, rfl⟩ := ok_of_map_eq_ok h
      rw [← hv]
      exact Sets.rfl.rereads hs₂

theorem append_rereads (hv : s.arena.get? v.name = some v) {opening closing : Nat}
    (hne : closing ≠ opening + 1) (h : cx.append s v.name opening closing = .ok s') :
    cx.RereadsArgument s v opening closing s' := by
  unfold append at h
  rw [if_neg hne] at h
  obtain ⟨e, he, h⟩ := ok_of_expression_bind h
  obtain ⟨last, -, h⟩ := ok_of_bind_eq_ok h
  refine ⟨e, he, ?_⟩
  dsimp only at h
  split
  · next hstop =>
      rw [if_pos hstop] at h
      obtain ⟨s₂, hs₂, h⟩ := ok_of_bind_eq_ok h
      cases hs₂
      exact ⟨last.endLine, (commit_modify_sets hv e _ rfl).rereads h⟩
  · next hstop =>
      rw [if_neg hstop] at h
      obtain ⟨first, -, h⟩ := ok_of_bind_eq_ok h
      obtain ⟨s₂, hs₂, h⟩ := ok_of_bind_eq_ok h
      cases hs₂
      exact ⟨first.startLine, last.endLine, (modify_sets hv _ rfl).rereads h⟩

/-! ## Assignments -/

/-- The content that a builder is constructed with is read with the variables as they are. -/
theorem initialFragments_arena {opening closing : Nat} {p : FlowState × List Fragment}
    (h : cx.initialFragments s opening closing = .ok p) :
    p.1.arena = s.arena ∧ p.1.candidates = s.candidates := by
  unfold initialFragments at h
  split at h
  · cases h
    exact ⟨rfl, rfl⟩
  · split at h
    · cases h
      exact ⟨rfl, rfl⟩
    · obtain ⟨e, -, h⟩ := ok_of_bind_eq_ok h
      split at h
      · cases h
        exact ⟨rfl, rfl⟩
      · cases h
        exact ⟨rfl, rfl⟩

/-- The arguments of the construction are read loosely with the builder it gives. -/
theorem bindBuilder_rereads {line i : Nat} {r : FlowState × Nat}
    (h : cx.bindBuilder s name line i = .ok r) :
    let closing := (cx.scope.closer? (i + 2)).getD (cx.scope.size - 1)
    ∃ s₀ w s₁, cx.initialFragments s (i + 2) closing = .ok (s₀, w.fragments) ∧
      cx.Rereads s s₁ name (some w) s₀.committed (i + 3) closing ∧
      cx.applyChain s₁ name [";", ","] (closing + 1) = .ok r := by
  unfold bindBuilder at h
  obtain ⟨⟨s₀, fragments⟩, hfragments, h⟩ := ok_of_bind_eq_ok h
  obtain ⟨last, -, h⟩ := ok_of_bind_eq_ok h
  obtain ⟨s₂, hs₂, h⟩ := ok_of_bind_eq_ok h
  obtain ⟨s₁, hs₁, h⟩ := ok_of_bind_eq_ok h
  obtain ⟨harena, hcandidates⟩ := initialFragments_arena hfragments
  exact ⟨s₀, ⟨name, .builder, line, max line last.endLine, fragments, none⟩, s₁, hfragments,
    ((rebind_sets hs₂).of_eq harena hcandidates).rereads hs₁, h⟩

theorem bindPlain_rereads {binding : Binding} {rhs : Nat} {r : FlowState × Nat}
    (h : cx.bindPlain s binding rhs = .ok r) :
    ∃ e w, cx.scope.expression s.arena rhs = .ok e ∧ w.fragments = e.fragments ∧
      cx.Rereads s r.1 binding.name (some w) (s.committed ++ e.literals) rhs
        (cx.scope.skipToStop [";", ","] e.stop) := by
  unfold bindPlain at h
  obtain ⟨e, he, h⟩ := ok_of_expression_bind h
  obtain ⟨line, -, h⟩ := ok_of_bind_eq_ok h
  dsimp only at h
  split at h
  · next hcontinues =>
      simp only [Bool.and_eq_true, Option.any_eq_true] at hcontinues
      obtain ⟨⟨⟨-, v, hv, -⟩, -⟩, -⟩ := hcontinues
      obtain ⟨s₂, hs₂, h⟩ := ok_of_bind_eq_ok h
      obtain ⟨s₁, hs₁, rfl⟩ := ok_of_map_eq_ok h
      cases hs₂
      obtain hname := Arena.name_of_get? hv
      rw [← hname] at hv hs₁ ⊢
      exact ⟨e, v.regrow e.fragments line, he, rfl, (commit_modify_sets hv e _ rfl).rereads hs₁⟩
  · obtain ⟨s₂, hs₂, h⟩ := ok_of_bind_eq_ok h
    obtain ⟨s₁, hs₁, rfl⟩ := ok_of_map_eq_ok h
    have hset : Sets s s₂ binding.name _ (s.committed ++ e.literals) :=
      (rebind_sets hs₂).of_eq rfl rfl
    exact ⟨e, _, he, rfl, hset.rereads hs₁⟩

theorem bindValue_rereads {binding : Binding} {rhs : Nat} {r : FlowState × Nat}
    (h : cx.bindValue s binding rhs = .ok r) : cx.RereadsValue s binding rhs r := by
  unfold bindValue at h
  unfold RereadsValue
  split
  · next hconstructs =>
      rw [if_pos hconstructs] at h
      exact bindBuilder_rereads h
  · next hconstructs =>
      rw [if_neg hconstructs] at h
      split
      · next hloses =>
          rw [if_pos hloses] at h
          obtain ⟨s₁, hs₁, h⟩ := ok_of_bind_eq_ok h
          obtain ⟨s₂, hs₂, rfl⟩ := ok_of_map_eq_ok h
          exact (discard_sets hs₁).rereads hs₂
      · next hloses =>
          rw [if_neg hloses] at h
          exact bindPlain_rereads h

/-- An assignment to a tracked name binds a value or adds one, as its operator says. -/
theorem assignment_rereads (hv : s.arena.get? v.name = some v) {i : Nat} {r : FlowState × Nat}
    (hname : cx.scope.isWord i v.name = true) (h : cx.assignment? s i = .ok (some r)) :
    if cx.scope.isOp (i + 1) "=" = true then
      ∃ line stop, cx.RereadsValue s
        (cx.assignmentTo v.name line ((s.declaredKind? v.name).getD v.kind)) (i + 2) (r.1, stop)
    else cx.RereadsSum s v (i + 2) r.1 := by
  obtain ⟨t, ht, hword⟩ := Option.any_eq_true _ _ |>.1 hname
  obtain ⟨-, htext⟩ := Bool.and_eq_true_iff.1 hword
  unfold assignment? at h
  rw [ht] at h
  dsimp only at h
  rw [beq_iff_eq.1 htext, hv, Option.map_some, Option.or_some] at h
  dsimp only at h
  split at h
  · cases h
  · split at h
    · next hassigns =>
        rw [if_pos hassigns]
        obtain ⟨⟨s₁, stop⟩, hs₁, h⟩ := ok_of_map_eq_ok h
        cases h
        exact ⟨t.startLine, stop, bindValue_rereads hs₁⟩
    · next hadds =>
        rw [if_neg hadds]
        split at h
        · obtain ⟨r', hr', h⟩ := ok_of_map_eq_ok h
          cases h
          exact compoundAssignment_rereads hv hr'
        · cases h

/-- Only `append` reads its argument list as content of the builder. -/
theorem applyCall_rereads (hv : s.arena.get? v.name = some v) {i opening closing : Nat}
    (hmethod : cx.scope.isWord i "append" = true) (hne : closing ≠ opening + 1)
    (h : cx.applyCall s v.name i opening closing = .ok s') :
    cx.RereadsArgument s v opening closing s' := by
  obtain ⟨t, ht, hword⟩ := Option.any_eq_true _ _ |>.1 hmethod
  obtain ⟨-, htext⟩ := Bool.and_eq_true_iff.1 hword
  have hfetch : cx.fetch i = .ok t := by
    unfold fetch
    rw [ht]
  unfold applyCall at h
  rw [hfetch] at h
  obtain ⟨_, hmethod, h⟩ := ok_of_bind_eq_ok h
  cases hmethod
  rw [if_pos htext] at h
  exact append_rereads hv hne h

end FlowContext

/-- A statement that changes a tracked variable reads its own code again after the change: the
expressions in there that name the variable, and its name under an executing call, show the variable as
the statement leaves it. -/
theorem update_precedes_rereading (cx : FlowContext) {s : FlowState} {v : Variable}
    (hv : s.arena.get? v.name = some v) :
    (∀ i r, cx.scope.isWord i v.name = true → cx.assignment? s i = .ok (some r) →
      if cx.scope.isOp (i + 1) "=" = true then
        ∃ line stop, cx.RereadsValue s
          (cx.assignmentTo v.name line ((s.declaredKind? v.name).getD v.kind)) (i + 2) (r.1, stop)
      else cx.RereadsSum s v (i + 2) r.1) ∧
    ∀ i opening closing s', cx.scope.isWord i "append" = true → closing ≠ opening + 1 →
      cx.applyCall s v.name i opening closing = .ok s' →
      cx.RereadsArgument s v opening closing s' :=
  ⟨fun _ _ hname h => FlowContext.assignment_rereads hv hname h,
    fun _ _ _ _ hmethod hne h => FlowContext.applyCall_rereads hv hmethod hne h⟩

/-- Something is added to a variable by a call that has the variable in its argument. -/
def selfReference : List Token :=
  significant ((tokenize "String q = \"SELECT a\";\nq += f(q + \" FROM t\");").toOption.getD [])

/-- The argument is shown with the call around it in the place of the variable, where it should show what
the variable held before. -/
theorem update_precedes_rereading_selfReference :
    let cx := FlowContext.ofTokens .standard RuleSet.standard.classifier standardPlaceholder
      selfReference
    let q : Variable := ⟨"q", .plain, 1, 1, [.literal (Text.ofString "SELECT a") 1], none⟩
    ∃ s r, cx.step .start 0 = .ok (s, 5) ∧ s.arena.get? "q" = some q ∧
      cx.assignment? s 5 = .ok (some r) ∧
      r.1.candidates.map (·.text) =
        [Text.ofString "SELECT a$\x7bf(q+\" FROM t\")\x7d FROM t"] ∧
      cx.RereadsSum s q 7 r.1 := by
  intro cx q
  have hrun : ((cx.step .start 0).toOption.bind fun p =>
      (cx.assignment? p.1 5).toOption.map fun found =>
        (p.2, p.1.arena.get? "q", found.map fun r => r.1.candidates.map (·.text))) =
      some (5, some q, some [Text.ofString "SELECT a$\x7bf(q+\" FROM t\")\x7d FROM t"]) := by
    decide +kernel
  obtain ⟨⟨s, next⟩, hstep, hrun⟩ := Option.bind_eq_some_iff.1 hrun
  obtain ⟨found, hassign, hrun⟩ := Option.map_eq_some_iff.1 hrun
  obtain ⟨hnext, hq, hfound⟩ : next = 5 ∧ s.arena.get? q.name = some q ∧ _ = _ := by
    simpa only [Prod.mk.injEq] using hrun
  obtain ⟨r, rfl, htext⟩ := Option.map_eq_some_iff.1 hfound
  subst hnext
  have hname : cx.scope.isWord 5 q.name = true := by decide +kernel
  have hadds : cx.scope.isOp 6 "=" = false := by decide +kernel
  have hassign := toOption_eq_some.1 hassign
  have hreads := (update_precedes_rereading cx hq).1 5 r hname hassign
  rw [hadds, if_neg Bool.false_ne_true] at hreads
  exact ⟨s, r, toOption_eq_some.1 hstep, hq, hassign, htext, hreads⟩

end EmbeddedSql
