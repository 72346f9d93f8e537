/-
# What becomes of an accumulation

A name stands for one accumulation after the other.  An accumulation begins when its name is bound or
emptied, and from then on it is the variable of this name until it comes to an end, by which it goes to
the closed ones.  The closed accumulations are only ever added to.  So what became of the accumulation
that a state holds under a name is seen from any later state (`FlowState.fate?`):

| | |
| :-- | :-- |
| the first of the name among those closed since | it has come to an end |
| the variable of the name, if there is no such | it is still there |

On the way nothing is taken from it (`Moves.fate?_growsInto`): the fragments that it has stay where they
are, its first line stays and its last line does not go back.  For plain variables this needs that the
name is read as the variable where it begins the value assigned to it, see `Move.regrow`.
-/
import EmbeddedSql.Proofs.Flow.Moves
import EmbeddedSql.Proofs.Flow.Readings

namespace EmbeddedSql

namespace Variable

/-- The second is the first after more has been added to it, or nothing. -/
structure GrowsInto (v w : Variable) : Prop where
  name : w.name = v.name
  kind : w.kind = v.kind
  firstLine : w.firstLine = v.firstLine
  fragments : v.fragments <+: w.fragments
  lastLine : v.lastLine ≤ w.lastLine

/-- No assignment replaces what the variable holds and keeps it as the same accumulation. -/
def OnlyGrows (v : Variable) : Prop := v.kind = .plain → v.name ∉ Brackets.nonReferenceWords

variable {u v w : Variable}

theorem growsInto_self (v : Variable) : v.GrowsInto v :=
  ⟨rfl, rfl, rfl, List.prefix_refl _, Nat.le_refl _⟩

theorem GrowsInto.trans (h : u.GrowsInto v) (h' : v.GrowsInto w) : u.GrowsInto w where
  name := h'.name.trans h.name
  kind := h'.kind.trans h.kind
  firstLine := h'.firstLine.trans h.firstLine
  fragments := h.fragments.trans h'.fragments
  lastLine := Nat.le_trans h.lastLine h'.lastLine

theorem growsInto_markReported (v : Variable) : v.GrowsInto v.markReported :=
  ⟨rfl, rfl, rfl, List.prefix_refl _, Nat.le_refl _⟩

theorem growsInto_extend (v : Variable) (fragments : List Fragment) (line : Nat) :
    v.GrowsInto (v.extend fragments line) :=
  ⟨rfl, rfl, rfl, List.prefix_append _ _, Nat.le_max_left _ _⟩

theorem OnlyGrows.growsInto (h : v.OnlyGrows) (hw : v.GrowsInto w) : w.OnlyGrows := by
  intro hkind
  rw [hw.name]
  exact h (hw.kind.symm.trans hkind)

/-- Marks are of no account. -/
theorem GrowsInto.of_unmarked (h : v.GrowsInto w) (hsame : u.unmarked = w.unmarked) :
    v.GrowsInto u := by
  have hw : v.GrowsInto w.unmarked := ⟨h.name, h.kind, h.firstLine, h.fragments, h.lastLine⟩
  rw [← hsame] at hw
  exact ⟨hw.name, hw.kind, hw.firstLine, hw.fragments, hw.lastLine⟩

/-- How far an accumulation has grown tells one of its stages from the others. -/
theorem GrowsInto.same (h : v.GrowsInto w) (hextent : v.extent = w.extent) :
    w.fragments = v.fragments ∧ w.lastLine = v.lastLine := by
  obtain ⟨hlength, hline⟩ := Prod.mk.inj hextent
  exact ⟨(h.fragments.eq_of_length hlength).symm, hline.symm⟩

theorem GrowsInto.extent_eq (h : u.GrowsInto v) (h' : v.GrowsInto w)
    (hextent : u.extent = w.extent) : v.extent = w.extent := by
  obtain ⟨hfragments, hline⟩ := (h.trans h').same hextent
  have hlength : v.fragments.length = w.fragments.length :=
    Nat.le_antisymm h'.fragments.length_le (hfragments ▸ h.fragments.length_le)
  have hlast : v.lastLine = w.lastLine := Nat.le_antisymm h'.lastLine (hline ▸ h.lastLine)
  exact Prod.ext hlength hlast

end Variable

namespace FlowState

/-- What the accumulation that stands under a name in the first state has come to in the second. -/
def fate? (s s' : FlowState) (name : String) : Option Variable :=
  ((s'.closed.drop s.closed.length).find? (·.name == name)).or (s'.arena.get? name)

variable {s₀ : FlowState} {name : String} {u v w : Variable}

theorem fate?_self (s : FlowState) (name : String) : s.fate? s name = s.arena.get? name := by
  rw [fate?, List.drop_length]
  rfl

theorem name_of_fate? {s : FlowState} (h : s₀.fate? s name = some w) : w.name = name := by
  rcases Option.or_eq_some_iff.1 h with h | ⟨-, h⟩
  · have hname := List.find?_some h
    exact beq_iff_eq.1 hname
  · exact Arena.name_of_get? h

/-- Nothing comes to an end, and the name has the variable that it had. -/
theorem fate?_eq (s s' : FlowState) (hclosed : s'.closed = s.closed)
    (hget : s'.arena.get? name = s.arena.get? name) : s₀.fate? s' name = s₀.fate? s name := by
  rw [fate?, fate?, hclosed, hget]

/-- Nothing comes to an end, and one variable takes the place of its namesake. -/
theorem fate?_put (s s' : FlowState) (hclosed : s'.closed = s.closed)
    (harena : s'.arena = s.arena.put v) (hu : s.arena.get? v.name = some u) (h : s₀.fate? s name = some w) :
    s₀.fate? s' name = some w ∨ w = u ∧ s₀.fate? s' name = some v := by
  by_cases hname : name = v.name
  · subst hname
    rw [fate?, hclosed, harena, Arena.get?_put_self]
    rcases Option.or_eq_some_iff.1 h with h | ⟨hnone, h⟩
    · rw [h]
      exact .inl rfl
    · rw [hnone]
      exact .inr ⟨Option.some.inj (h.symm.trans hu), rfl⟩
  · left
    rw [← h]
    exact fate?_eq s s' hclosed (harena ▸ Arena.get?_put_of_ne _ hname)

/-- One variable comes to an end. -/
theorem fate?_close (s s' : FlowState) (hclosed : s'.closed = s.closed ++ [v.markReported])
    (hle : s₀.closed.length ≤ s.closed.length) (hv : s.arena.get? v.name = some v)
    (hothers : ∀ x, x ≠ v.name → s'.arena.get? x = s.arena.get? x)
    (h : s₀.fate? s name = some w) :
    s₀.fate? s' name = some w ∨ w = v ∧ s₀.fate? s' name = some v.markReported := by
  rw [fate?, hclosed, List.drop_append_of_le_length hle, List.find?_append]
  rcases Option.or_eq_some_iff.1 h with h | ⟨hnone, h⟩
  · rw [h]
    exact .inl rfl
  · rw [hnone, Option.none_or]
    by_cases hname : v.name = name
    · subst hname
      have hfind : [v.markReported].find? (·.name == v.name) = some v.markReported :=
        List.find?_cons_of_pos (beq_self_eq_true v.name)
      rw [hfind]
      exact .inr ⟨Option.some.inj (h.symm.trans hv), rfl⟩
    · have hfind : [v.markReported].find? (·.name == name) = none :=
        List.find?_cons_of_neg fun hn => hname (beq_iff_eq.1 hn)
      rw [hfind, Option.none_or, hothers name (Ne.symm hname)]
      exact .inl h

/-- An accumulation that has come to an end stays what it is. -/
theorem fate?_of_ended {s s' : FlowState} (hle : s₀.closed.length ≤ s.closed.length)
    (hclosed : s.closed <+: s'.closed)
    (h : (s.closed.drop s₀.closed.length).find? (·.name == name) = some w) :
    s₀.fate? s' name = some w := by
  obtain ⟨ended, hended⟩ := hclosed
  rw [fate?, ← hended, List.drop_append_of_le_length hle, List.find?_append, h]
  rfl

/-- The accumulation under a name that is free has come to an end. -/
theorem ended_of_free {s : FlowState} (hnone : s.arena.get? name = none)
    (h : s₀.fate? s name = some w) :
    (s.closed.drop s₀.closed.length).find? (·.name == name) = some w := by
  rwa [fate?, hnone, Option.or_none] at h

end FlowState

namespace FlowContext

/-- The second state follows the first by moves, whatever grows on the way. -/
abbrev Follows (cx : FlowContext) : FlowState → FlowState → Prop := cx.Moves fun _ => True

variable {cx : FlowContext} {grows : String → Prop} {s₀ s s' : FlowState} {name : String}

theorem Moves.follows (h : cx.Moves grows s s') : cx.Follows s s' := by
  refine h.lift id fun _ _ hm => ?_
  cases hm with
  | commit he => exact .commit he
  | found hlt hf hfound => exact .found hlt hf hfound
  | begin kind fragments hfree hf hfirst hlast => exact .begin kind fragments hfree hf hfirst hlast
  | extend fragments hv _ hf hline => exact .extend fragments hv trivial hf hline
  | regrow fragments hv _ hkind hword hf hline =>
      exact .regrow fragments hv trivial hkind hword hf hline
  | report hv hfound => exact .report hv hfound
  | finish hv hfound => exact .finish hv hfound
  | empty hv hfound hline => exact .empty hv hfound hline
  | declare declared => exact .declare declared

theorem Move.closed_prefix (h : cx.Move grows s s') : s.closed <+: s'.closed := by
  cases h with
  | finish _ _ => exact List.prefix_append _ _
  | empty _ _ _ => exact List.prefix_append _ _
  | _ => exact List.prefix_refl _

/-- The closed accumulations are only added to. -/
theorem Moves.closed_prefix (h : cx.Moves grows s s') : s.closed <+: s'.closed := by
  induction h with
  | refl => exact List.prefix_refl _
  | tail _ hm ih => exact ih.trans hm.closed_prefix

/-! ## What is kept of an accumulation -/

/-- What adding to a variable keeps, as far as the name may grow, and what marking it keeps. -/
structure Lasts (grows : String → Prop) (name : String) (R : Variable → Prop) : Prop where
  extend : ∀ w fragments line, w.name = name → grows name → R w → R (w.extend fragments line)
  regrow : ∀ w fragments line, w.name = name → grows name → w.kind = .plain →
    name ∈ Brackets.nonReferenceWords → R w → R (w.regrow fragments line)
  markReported : ∀ w, R w → R w.markReported

variable {R : Variable → Prop}

/-- One move keeps it. -/
theorem Move.exists_fate? (hR : Lasts grows name R) (hm : cx.Move grows s s')
    (hle : s₀.closed.length ≤ s.closed.length) (h : ∃ w, s₀.fate? s name = some w ∧ R w) :
    ∃ w, s₀.fate? s' name = some w ∧ R w := by
  obtain ⟨w, hw, hr⟩ := h
  have hname : w.name = name := FlowState.name_of_fate? hw
  cases hm with
  | commit _ => exact ⟨w, hw, hr⟩
  | found _ _ => exact ⟨w, hw, hr⟩
  | declare _ => exact ⟨w, hw, hr⟩
  | @begin new kind first last fragments hfree _ _ =>
      by_cases hnew : name = new
      · subst hnew
        -- the name has no variable, so its accumulation has come to an end before
        rcases Option.or_eq_some_iff.1 hw with hended | ⟨-, hget⟩
        · exact ⟨w, Option.or_eq_some_iff.2 (.inl hended), hr⟩
        · rw [hfree] at hget
          cases hget
      · have hother : s₀.fate? (s.bind ⟨new, kind, first, max first last, fragments, none⟩) name =
            s₀.fate? s name :=
          FlowState.fate?_eq s _ rfl (Arena.get?_put_of_ne _ hnew)
        exact ⟨w, hother.trans hw, hr⟩
  | @extend v fragments line hv hgrows _ =>
      have hput := FlowState.fate?_put s (s.bind (v.extend fragments line)) rfl rfl hv hw
      rcases hput with h | ⟨rfl, h⟩
      · exact ⟨w, h, hr⟩
      · exact ⟨_, h, hR.extend w fragments line hname (hname ▸ hgrows) hr⟩
  | @regrow v fragments line hv hgrows hkind hword _ =>
      have hput := FlowState.fate?_put s (s.bind (v.regrow fragments line)) rfl rfl hv hw
      rcases hput with h | ⟨rfl, h⟩
      · exact ⟨w, h, hr⟩
      · exact ⟨_, h, hR.regrow w fragments line hname (hname ▸ hgrows) hkind (hname ▸ hword) hr⟩
  | @report v found hv _ =>
      have hput := FlowState.fate?_put s
        { s with arena := s.arena.put v.markReported, candidates := s.candidates ++ found }
        rfl rfl hv hw
      rcases hput with h | ⟨rfl, h⟩
      · exact ⟨w, h, hr⟩
      · exact ⟨_, h, hR.markReported w hr⟩
  | @finish v found hv _ =>
      have hclose := FlowState.fate?_close s
        { s with
          arena := s.arena.erase v.name
          candidates := s.candidates ++ found
          closed := s.closed ++ [v.markReported] }
        rfl hle hv (fun _ hx => Arena.get?_erase_of_ne _ hx) hw
      rcases hclose with h | ⟨rfl, h⟩
      · exact ⟨w, h, hr⟩
      · exact ⟨_, h, hR.markReported w hr⟩
  | @empty v line found hv _ _ =>
      have hclose := FlowState.fate?_close s
        { s with
          arena := s.arena.put ⟨v.name, .builder, line, line, [], none⟩
          candidates := s.candidates ++ found
          closed := s.closed ++ [v.markReported] }
        rfl hle hv (fun _ hx => Arena.get?_put_of_ne _ hx) hw
      rcases hclose with h | ⟨rfl, h⟩
      · exact ⟨w, h, hr⟩
      · exact ⟨_, h, hR.markReported w hr⟩

/-- So do all moves of a sequence. -/
theorem Moves.exists_fate? (hR : Lasts grows name R) (hm : cx.Moves grows s s')
    (hle : s₀.closed.length ≤ s.closed.length) (h : ∃ w, s₀.fate? s name = some w ∧ R w) :
    ∃ w, s₀.fate? s' name = some w ∧ R w := by
  induction hm with
  | refl => exact h
  | tail hms hm ih =>
      have hlonger := (Moves.closed_prefix hms).length_le
      exact hm.exists_fate? hR (Nat.le_trans hle hlonger) ih

/-- Nothing is taken from an accumulation. -/
theorem lasts_growsInto {v : Variable} (hv : v.OnlyGrows) :
    Lasts grows v.name fun w => v.GrowsInto w where
  extend w fragments line _ _ h := h.trans (w.growsInto_extend fragments line)
  regrow _ _ _ _ _ hkind hword h := absurd hword (hv (h.kind.symm.trans hkind))
  markReported w h := h.trans w.growsInto_markReported

/-- Where the name may not grow, not even its lines change. -/
theorem lasts_unmarked {v : Variable} (hgrows : ¬ grows v.name) :
    Lasts grows v.name fun w => w.unmarked = v.unmarked where
  extend _ _ _ _ h _ := absurd h hgrows
  regrow _ _ _ _ h _ _ _ := absurd h hgrows
  markReported _ h := h

theorem Moves.fate?_growsInto {v : Variable} (hm : cx.Moves grows s s') (hv : v.OnlyGrows)
    (hle : s₀.closed.length ≤ s.closed.length) (h : s₀.fate? s v.name = some v) :
    ∃ w, s₀.fate? s' v.name = some w ∧ v.GrowsInto w :=
  hm.exists_fate? (lasts_growsInto hv) hle ⟨v, h, v.growsInto_self⟩

/-! ## The way of a run -/

/-- The run comes to place `i` in this state, and a step begins there. -/
inductive Comes (cx : FlowContext) : FlowState → Nat → Prop
  | start : Comes cx .start 0
  | step {s s' : FlowState} {i next : Nat} : Comes cx s i → i < cx.scope.size →
      cx.step s i = .ok (s', next) → Comes cx s' (max next (i + 1))

theorem Comes.follows {i : Nat} : cx.Comes s i → cx.Follows .start s := by
  intro h
  induction h with
  | start => exact .refl
  | step _ _ hstep ih => exact ih.trans (step_moves _ _ (fun _ => trivial) _ hstep)

/-- The run goes on from there. -/
theorem Comes.steps_eq {i : Nat} : cx.Comes s i → cx.steps .start 0 = cx.steps s i := by
  intro h
  induction h with
  | start => rfl
  | @step s s' i next _ hi hstep ih =>
      rw [ih, steps, dif_pos hi, hstep]
      rfl

theorem Comes.follows_last {i : Nat} {last : FlowState} (h : cx.Comes s i)
    (hrun : cx.run = .ok last) : cx.Follows s last := by
  obtain ⟨s₁, hsteps, hflush⟩ := ok_of_bind_eq_ok hrun
  have hbefore : cx.Follows .start s₁ := steps_moves _ _ (fun _ => trivial) s₁ hsteps
  rw [h.steps_eq] at hsteps
  have hrest : cx.Follows s s₁ := steps_moves _ _ (fun _ => trivial) s₁ hsteps
  exact hrest.trans (flush_arena_moves hbefore.changes last hflush)

end FlowContext

end EmbeddedSql
