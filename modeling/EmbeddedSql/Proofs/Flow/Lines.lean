/-
# What is followed stays on the lines of the tokens

The tokens of a scope stand on the lines of its source in order.  So do the variables and the candidates
of every state of a run: they begin on the first line of some token, never before the first line of the
source, and end on the same line or a later one, never after the last.  A variable keeps its first line
while it grows, and its last line never goes back; a free-standing expression takes its two lines from
two tokens, the second of which stands no earlier than the first.
-/
import EmbeddedSql.Proofs.Candidate.Merging
import EmbeddedSql.Proofs.Flow.Moves
import EmbeddedSql.Proofs.Token.Cutting

namespace EmbeddedSql

/-- The variable has accumulated on some of the first `height` lines. -/
structure Variable.StandsWithin (height : Nat) (v : Variable) : Prop where
  one_le : 1 ≤ v.firstLine
  first_le_last : v.firstLine ≤ v.lastLine
  last_le : v.lastLine ≤ height

namespace Variable.StandsWithin

variable {height : Nat} {v : Variable}

theorem markReported (h : v.StandsWithin height) : v.markReported.StandsWithin height :=
  ⟨h.one_le, h.first_le_last, h.last_le⟩

theorem regrow (h : v.StandsWithin height) (fragments : List Fragment) {line : Nat}
    (hl : line ≤ height) : (v.regrow fragments line).StandsWithin height :=
  ⟨h.one_le, Nat.le_trans h.first_le_last (Nat.le_max_left _ _), Nat.max_le.2 ⟨h.last_le, hl⟩⟩

/-- What is reported of a variable stands where it has accumulated. -/
theorem fresh (h : v.StandsWithin height) (text : Text) (origin : Origin)
    (disposition : Disposition) :
    (Candidate.fresh text v.firstLine v.lastLine origin disposition).StandsWithin height :=
  ⟨Int.ofNat_le.2 h.one_le, Int.ofNat_le.2 h.first_le_last, Int.ofNat_le.2 h.last_le⟩

end Variable.StandsWithin

/-- All variables and candidates of the state stand on some of the first `height` lines. -/
structure FlowState.StandsWithin (height : Nat) (s : FlowState) : Prop where
  arena : ∀ v ∈ s.arena, v.StandsWithin height
  candidates : ∀ c ∈ s.candidates, c.StandsWithin height

namespace FlowContext

variable {cx : FlowContext} {height : Nat}

/-- The tokens of the scope stand on the first `height` lines, in order. -/
abbrev Ordered (cx : FlowContext) (height : Nat) : Prop :=
  OrderedTokens 1 height cx.scope.tokens.toList

namespace Ordered

theorem startsOn (h : cx.Ordered height) {line : Nat} (hl : cx.StartsOn line) :
    1 ≤ line ∧ line ≤ height := by
  obtain ⟨t, ht, rfl⟩ := hl
  obtain ⟨hone, hse, he⟩ := h.within t (Array.mem_toList_iff.2 ht)
  exact ⟨hone, Nat.le_trans hse he⟩

theorem endsOn (h : cx.Ordered height) {line : Nat} (hl : cx.EndsOn line) : line ≤ height := by
  obtain ⟨t, ht, rfl⟩ := hl
  exact (h.within t (Array.mem_toList_iff.2 ht)).2.2

/-- A token ends no earlier than one that stands before it begins. -/
theorem startLine_le_endLine (h : cx.Ordered height) {i j : Nat} {t u : Token} (hij : i ≤ j)
    (ht : cx.scope.token? i = some t) (hu : cx.scope.token? j = some u) :
    t.startLine ≤ u.endLine := by
  obtain ⟨hi, rfl⟩ := Array.getElem?_eq_some_iff.1 ht
  obtain ⟨hj, rfl⟩ := Array.getElem?_eq_some_iff.1 hu
  have hti := (h.within _ (Array.getElem_mem_toList hi)).2.1
  have huj := (h.within _ (Array.getElem_mem_toList hj)).2.1
  rcases Nat.eq_or_lt_of_le hij with rfl | hlt
  · exact hti
  · have horder := List.pairwise_iff_getElem.1 h.order i j (by simpa using hi) (by simpa using hj) hlt
    rw [Array.getElem_toList, Array.getElem_toList] at horder
    exact Nat.le_trans hti (Nat.le_trans horder huj)

end Ordered

/-! ## Candidates -/

theorem standsWithin_of_mem_reportOf {v : Variable} (hv : v.StandsWithin height)
    {found : List Candidate} (h : cx.reportOf v = .ok found) :
    ∀ c ∈ found, c.StandsWithin height := by
  intro c hc
  obtain ⟨text, -, rfl⟩ := exists_of_mem_reportOf h c hc
  exact hv.fresh _ _ _

theorem standsWithin_of_mem_lastReport {v : Variable} (hv : v.StandsWithin height)
    {found : List Candidate} (h : cx.lastReport v = .ok found) :
    ∀ c ∈ found, c.StandsWithin height := by
  intro c hc
  obtain ⟨text, -, rfl⟩ := exists_of_mem_lastReport h c hc
  exact hv.fresh _ _ _

theorem standsWithin_of_mem_looseCandidates (ht : cx.Ordered height) {start i stop : Nat}
    (hlt : start < stop) {fragments : List Fragment} {found : List Candidate}
    (h : cx.looseCandidates start i stop fragments = .ok found) :
    ∀ c ∈ found, c.StandsWithin height := by
  intro c hc
  obtain ⟨text, first, line, -, hfirst, hline, rfl⟩ := exists_of_mem_looseCandidates h c hc
  have hone := (ht.startsOn (startsOn_of_fetch hfirst)).1
  have hend := ht.endsOn (endsOn_of_lastLine hline)
  unfold lastLine at hline
  rw [if_pos hlt] at hline
  obtain ⟨last, hlast, rfl⟩ := ok_of_map_eq_ok hline
  have hle := ht.startLine_le_endLine (Nat.le_sub_one_of_lt hlt) (token?_of_fetch hfirst)
    (token?_of_fetch hlast)
  exact ⟨Int.ofNat_le.2 hone, Int.ofNat_le.2 hle, Int.ofNat_le.2 hend⟩

/-! ## Runs -/

/-- Every change keeps variables and candidates on the lines. -/
theorem Ordered.change (ht : cx.Ordered height) {s s' : FlowState} (h : s.StandsWithin height)
    (hc : cx.Change s s') : s'.StandsWithin height := by
  have hget : ∀ {v : Variable}, s.arena.get? v.name = some v → v.StandsWithin height :=
    fun hv => h.arena _ (List.mem_of_find?_eq_some hv)
  have hput : ∀ {v : Variable}, v.StandsWithin height →
      ∀ w ∈ s.arena.put v, w.StandsWithin height := fun hv w hw => by
    rcases Arena.mem_or_eq_of_mem_put hw with rfl | hw
    · exact hv
    · exact h.arena w hw
  have happend : ∀ {found : List Candidate}, (∀ c ∈ found, c.StandsWithin height) →
      ∀ c ∈ s.candidates ++ found, c.StandsWithin height := fun hf c hm =>
    (List.mem_append.1 hm).elim (h.candidates c) (hf c)
  cases hc with
  | commit _ => exact ⟨h.arena, h.candidates⟩
  | found hlt hf => exact ⟨h.arena, happend (standsWithin_of_mem_looseCandidates ht hlt hf)⟩
  | begin kind fragments _ hfirst hlast =>
      obtain ⟨hone, hle⟩ := ht.startsOn hfirst
      have hend := Nat.max_le.2 ⟨hle, ht.endsOn hlast⟩
      exact ⟨hput ⟨hone, Nat.le_max_left _ _, hend⟩, h.candidates⟩
  | grow fragments hv hline =>
      exact ⟨hput ((hget hv).regrow fragments (ht.endsOn hline)), h.candidates⟩
  | report hv hf =>
      exact ⟨hput (hget hv).markReported, happend (standsWithin_of_mem_reportOf (hget hv) hf)⟩
  | finish hv hf =>
      refine ⟨fun w hw => h.arena w (List.mem_filter.1 hw).1, ?_⟩
      exact happend (standsWithin_of_mem_lastReport (hget hv) hf)
  | empty hv hf hline =>
      obtain ⟨hone, hle⟩ := ht.startsOn hline
      refine ⟨hput ⟨hone, Nat.le_refl _, hle⟩, ?_⟩
      exact happend (standsWithin_of_mem_lastReport (hget hv) hf)
  | declare _ => exact ⟨h.arena, h.candidates⟩

/-- A run keeps to the lines of its tokens. -/
theorem Ordered.run (ht : cx.Ordered height) {s : FlowState} (h : cx.run = .ok s) :
    s.StandsWithin height := by
  refine run_invariant ⟨?_, ?_⟩ (fun _ _ hs hc => ht.change hs hc) h
  · exact fun v hv => nomatch hv
  · exact fun c hc => nomatch hc

end FlowContext

end EmbeddedSql
