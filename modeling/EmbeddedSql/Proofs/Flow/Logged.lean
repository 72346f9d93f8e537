/-
# What the log tells

The log of a run lists the expressions that have been read for good, and the state has nothing that it
does not tell (`Logged`):

| in the state | in the log |
| :-- | :-- |
| the committed literals | the literals of its entries, in order |
| the candidates that were found where they stand | those that its free-standing expressions gave, in order |
| the literal pieces of a variable | pieces of values that have been read |

An entry itself consists of its literals, of other constants and of values that were read before it.  This
is true of any code, balanced or not.  What is done to variables adds nothing to the log, and leaves what
it tells as it is (`Preserves`).
-/
import EmbeddedSql.Proofs.Flow.Passing

namespace EmbeddedSql

namespace FlowState

/-- The candidates that were found where they stand. -/
def detected (s : FlowState) : List Candidate := s.candidates.filter (·.disposition == .detected)

/-- Candidates that variables give are none of them. -/
theorem filter_detected {found : List Candidate} (h : ∀ c ∈ found, c.disposition = .assigned) :
    found.filter (·.disposition == .detected) = [] := by
  refine List.filter_eq_nil_iff.2 fun c hc => ?_
  simp [h c hc]

end FlowState

namespace FlowContext

/-- An expression was read where the entry says, with the variables as they were then. -/
inductive IsRead (cx : FlowContext) : Uptake → Prop
  | value {arena : Arena} {start : Nat} {e : Expression} : cx.scope.expression arena start = .ok e →
      IsRead cx (.value start e)
  | loose {arena : Arena} {lower anchor : Nat} {e : Expression} {found : List Candidate} :
      cx.scope.isString anchor = true →
      cx.scope.expression arena (cx.scope.pullIn lower anchor) = .ok e →
      cx.Gives anchor (cx.scope.pullIn lower anchor) e found →
      IsRead cx (.loose anchor (cx.scope.pullIn lower anchor) e found)

/-- The fragment is from a value that has been read. -/
def IsFromValue (log : List Uptake) (f : Fragment) : Prop :=
  ∃ start e, Uptake.value start e ∈ log ∧ f ∈ e.fragments

/-- The log tells what the state has. -/
structure Logged (cx : FlowContext) (s : FlowState) (log : List Uptake) : Prop where
  isRead : ∀ u ∈ log, cx.IsRead u
  consists : ∀ before u, before ++ [u] <+: log →
    cx.scope.Consists (IsFromValue before) u.literals u.expression.fragments
  committed : s.committed = log.flatMap Uptake.literals
  detected : s.detected = log.flatMap Uptake.found
  recorded : ∀ v ∈ s.arena ++ s.closed, Recorded log v.fragments

/-- Nothing is committed or found, and the literal pieces of variables are still from values that have
been read. -/
structure Preserves (log : List Uptake) (s s' : FlowState) : Prop where
  committed : s'.committed = s.committed
  detected : s'.detected = s.detected
  recorded : (∀ v ∈ s.arena ++ s.closed, Recorded log v.fragments) →
    ∀ v ∈ s'.arena ++ s'.closed, Recorded log v.fragments

variable {cx : FlowContext} {s s₁ s' : FlowState} {log log' : List Uptake} {v : Variable}
  {found : List Candidate} {fragments : List Fragment}

/-! ## Candidates -/

theorem disposition_of_mem_reportOf (h : cx.reportOf v = .ok found) :
    ∀ c ∈ found, c.disposition = .assigned := by
  intro c hc
  obtain ⟨text, -, rfl⟩ := exists_of_mem_reportOf h c hc
  rfl

theorem disposition_of_mem_lastReport (h : cx.lastReport v = .ok found) :
    ∀ c ∈ found, c.disposition = .assigned := by
  intro c hc
  obtain ⟨text, -, rfl⟩ := exists_of_mem_lastReport h c hc
  rfl

theorem Gives.disposition {anchor start : Nat} {e : Expression} (h : cx.Gives anchor start e found) :
    ∀ c ∈ found, c.disposition = .detected := by
  cases h with
  | ignored _ => exact nofun
  | heeded _ hfound =>
      intro c hc
      obtain ⟨text, first, last, -, -, -, rfl⟩ := exists_of_mem_looseCandidates hfound c hc
      rfl

/-! ## What is done to variables -/

namespace Preserves

theorem rfl : Preserves log s s := ⟨Eq.refl _, Eq.refl _, id⟩

theorem trans (h : Preserves log s s₁) (h' : Preserves log s₁ s') : Preserves log s s' :=
  ⟨h'.committed.trans h.committed, h'.detected.trans h.detected, h'.recorded ∘ h.recorded⟩

theorem bind (s : FlowState) (h : Recorded log v.fragments) : Preserves log s (s.bind v) := by
  refine ⟨Eq.refl _, Eq.refl _, fun hs w hw => ?_⟩
  rcases List.mem_append.1 hw with hw | hw
  · rcases Arena.mem_or_eq_of_mem_put hw with rfl | hw
    · exact h
    · exact hs w (List.mem_append_left _ hw)
  · exact hs w (List.mem_append_right _ hw)

theorem declareKind (s : FlowState) (name : String) (kind : VariableKind) :
    Preserves log s (s.declareKind name kind) := ⟨Eq.refl _, Eq.refl _, id⟩

/-- Candidates are added that variables give. -/
theorem detected_append (h : ∀ c ∈ found, c.disposition = .assigned)
    (hs : s'.candidates = s.candidates ++ found) : s'.detected = s.detected := by
  rw [FlowState.detected, hs, List.filter_append, FlowState.filter_detected h, List.append_nil]
  exact Eq.refl _

theorem reportNamed {name : String} (h : cx.reportNamed s name = .ok s') : Preserves log s s' := by
  rw [FlowContext.reportNamed] at h
  split at h
  · next v hv =>
      obtain ⟨found, hfound, rfl⟩ := ok_of_map_eq_ok h
      have hassigned := disposition_of_mem_reportOf hfound
      refine ⟨Eq.refl _, detected_append hassigned (Eq.refl _), fun hs => ?_⟩
      have hmem : v ∈ s.arena ++ s.closed := List.mem_append_left _ (List.mem_of_find?_eq_some hv)
      exact (bind (v := v.markReported) s (hs v hmem)).recorded hs
  · cases h
    exact .rfl

/-- A variable comes to an end. -/
theorem close (hv : v ∈ s.arena) (h : cx.close s₁ v = .ok s') (hcommitted : s₁.committed = s.committed)
    (hcandidates : s₁.candidates = s.candidates) (hclosed : s₁.closed = s.closed)
    (harena : s₁.arena ⊆ s.arena) : Preserves log s s' := by
  obtain ⟨found, hfound, rfl⟩ := ok_of_map_eq_ok h
  have hassigned := disposition_of_mem_lastReport hfound
  refine ⟨hcommitted, detected_append hassigned (congrArg (· ++ found) hcandidates),
    fun hs w hw => ?_⟩
  dsimp only at hw
  rw [hclosed] at hw
  rcases List.mem_append.1 hw with hw | hw
  · exact hs w (List.mem_append_left _ (harena hw))
  · rcases List.mem_append.1 hw with hw | hw
    · exact hs w (List.mem_append_right _ hw)
    · obtain rfl := List.mem_singleton.1 hw
      exact hs v (List.mem_append_left _ hv)

theorem discard {name : String} (h : cx.discard s name = .ok s') : Preserves log s s' := by
  rw [FlowContext.discard] at h
  have herase : s.arena.erase name ⊆ s.arena := List.filter_sublist.subset
  split at h
  · next v hv =>
      exact close (List.mem_of_find?_eq_some hv) h (Eq.refl _) (Eq.refl _) (Eq.refl _) herase
  · cases h
    refine ⟨Eq.refl _, Eq.refl _, fun hs w hw => hs w ?_⟩
    exact List.mem_append.2 ((List.mem_append.1 hw).imp_left fun hw => herase hw)

theorem modify {change : Variable → Variable} (s : FlowState) (name : String)
    (h : ∀ v ∈ s.arena, Recorded log v.fragments → Recorded log (change v).fragments) :
    Preserves log s (s.modify name change) := by
  rw [FlowState.modify]
  split
  · next v hv =>
      have hmem : v ∈ s.arena := List.mem_of_find?_eq_some hv
      refine ⟨Eq.refl _, Eq.refl _, fun hs => ?_⟩
      exact (bind s (h v hmem (hs v (List.mem_append_left _ hmem)))).recorded hs
  · exact .rfl

theorem reset {name : String} {line : Nat} (h : cx.reset s name line = .ok s') :
    Preserves log s s' := by
  rw [FlowContext.reset] at h
  split at h
  · cases h
    exact .rfl
  · next v hv =>
      obtain ⟨s₁, hs₁, rfl⟩ := ok_of_map_eq_ok h
      have hclose : Preserves log s s₁ :=
        close (List.mem_of_find?_eq_some hv) hs₁ (Eq.refl _) (Eq.refl _) (Eq.refl _)
          (List.Subset.refl _)
      exact hclose.trans (bind s₁ fun _ hf => absurd hf List.not_mem_nil)

end Preserves

theorem Recorded.concat (h : Recorded log fragments) {more : List Fragment} (h' : Recorded log more) :
    Recorded log (fragments ++ more) :=
  fun f hf => (List.mem_append.1 hf).elim (h f) (h' f)

/-- What is done to variables preserves what the log tells. -/
theorem Operation.preserves (h : cx.Operation log s s') : Preserves log s s' := by
  cases h with
  | report name h => exact .reportNamed h
  | discard name h => exact .discard h
  | declare name kind h =>
      obtain ⟨s₁, hs₁, rfl⟩ := ok_of_map_eq_ok h
      exact (Preserves.discard hs₁).trans (.declareKind s₁ name kind)
  | rebind _ _ _ hrecorded h =>
      obtain ⟨s₁, hs₁, rfl⟩ := ok_of_map_eq_ok h
      exact (Preserves.discard hs₁).trans ((Preserves.bind s₁ hrecorded).trans (.declareKind _ _ _))
  | extend name _ _ hrecorded => exact .modify s name fun v _ hv => hv.concat hrecorded
  | @regrow name _ _ _ _ _ _ _ _ _ hrecorded => exact .modify s name fun _ _ _ => hrecorded
  | reset _ _ h => exact .reset h

/-! ## Steps -/

theorem Logged.preserve (h : cx.Logged s log) (hs : Preserves log s s') : cx.Logged s' log where
  isRead := h.isRead
  consists := h.consists
  committed := hs.committed.trans h.committed
  detected := hs.detected.trans h.detected
  recorded := hs.recorded h.recorded

/-- An expression consists of its literals, of other constants and of values that have been read. -/
theorem Logged.consists_expression (h : cx.Logged s log) {i : Nat} {e : Expression}
    (he : cx.scope.expression s.arena i = .ok e) :
    cx.scope.Consists (IsFromValue log) e.literals e.fragments := by
  refine (Brackets.expression_consists _ _ i he).weaken fun f hf hliteral => ?_
  obtain ⟨v, hv, hfv⟩ := hf
  exact h.recorded v (List.mem_append_left _ (List.mem_of_find?_eq_some hv)) f hfv hliteral

/-- An expression has been read, and its literals are committed. -/
theorem Logged.commit (h : cx.Logged s log) {u : Uptake} (hu : cx.IsRead u)
    (hconsists : cx.scope.Consists (IsFromValue log) u.literals u.expression.fragments)
    (hfound : ∀ c ∈ u.found, c.disposition = .detected) :
    cx.Logged { s.commit u.expression with candidates := s.candidates ++ u.found } (log ++ [u]) where
  isRead := by
    intro w hw
    rcases List.mem_append.1 hw with hw | hw
    · exact h.isRead w hw
    · rwa [List.mem_singleton.1 hw]
  consists := by
    intro before w hw
    rcases List.prefix_concat_iff.1 hw with heq | hbefore
    · obtain ⟨rfl, hlast⟩ := List.append_inj' heq rfl
      obtain rfl : w = u := List.cons.inj hlast |>.1
      exact hconsists
    · exact h.consists before w hbefore
  committed := by
    rw [List.flatMap_append, List.flatMap_singleton, ← h.committed]
    rfl
  detected := by
    have hall : u.found.filter (·.disposition == .detected) = u.found :=
      List.filter_eq_self.2 fun c hc => by simp [hfound c hc]
    rw [List.flatMap_append, List.flatMap_singleton, ← h.detected, FlowState.detected,
      List.filter_append, hall]
    rfl
  recorded := fun v hv => (h.recorded v hv).append [u]

theorem ReadsLoosely.logged {lower i next : Nat} (h : cx.ReadsLoosely s log lower i s' log' next)
    (hs : cx.Logged s log) : cx.Logged s' log' := by
  cases h with
  | @expression e found hstring _ he hgives =>
      have hread : cx.IsRead (.loose i (cx.scope.pullIn lower i) e found) := .loose hstring he hgives
      exact hs.commit hread (hs.consists_expression he) hgives.disposition
  | mention name h => exact hs.preserve (.reportNamed h)
  | nothing => exact hs

theorem Passes.logged {m m' : Juncture} (h : cx.Passes m m') (hm : cx.Logged m.state m.log) :
    cx.Logged m'.state m'.log := by
  cases h with
  | forward _ => exact hm
  | @value s i e log he =>
      have hlogged := hm.commit (.value he) (hm.consists_expression he) nofun
      dsimp only [Uptake.found] at hlogged
      rwa [List.append_nil] at hlogged
  | operate h => exact hm.preserve h.preserves
  | scan _ => exact hm
  | rescan _ _ => exact hm
  | read _ h => exact h.logged hm
  | leave _ => exact hm
  | loose h => exact h.logged hm

/-- The log tells what the state has at every juncture of a run. -/
theorem Occurs.logged {m : Juncture} (h : cx.Occurs m) : cx.Logged m.state m.log := by
  refine h.invariant ⟨nofun, fun before u hprefix => ?_, rfl, rfl, nofun⟩ fun _ _ hm hpass =>
    hpass.logged hm
  have hnil : before ++ [u] = [] := List.prefix_nil.1 hprefix
  simp at hnil

end FlowContext

end EmbeddedSql
