/-
# How the state changes

Following a scope changes the state in these ways and no others: the literals of an expression are
committed, a free-standing expression gives its candidates, a variable begins, grows, is reported or
comes to an end, a builder is emptied, and names are declared.  `Change` says for each of them what
the state is afterwards.  Every handler leads from its state to the next by a sequence of changes
(`Changes`, `Leads`), and so does a whole run: the traversal of the handlers is in `Moves`, where more
is known of each change.  An invariant of the state is therefore proved change by change, and never
handler by handler.

The lines that enter the state are lines of tokens: what begins does so on the first line of one
(`StartsOn`), and what grows does so up to the last line of one (`EndsOn`).
-/
import Mathlib.Logic.Relation
import EmbeddedSql.Proofs.Fallible
import EmbeddedSql.Proofs.Flow.Failure

namespace EmbeddedSql

/-! ## Names of variables -/

namespace Arena

theorem mem_names_put {arena : Arena} {v : Variable} {name : String} :
    name ∈ (arena.put v).map (·.name) ↔ name = v.name ∨ name ∈ arena.map (·.name) := by
  induction arena with
  | nil => simp [put]
  | cons w rest ih =>
      rw [put]
      by_cases hw : w.name = v.name
      · simp [hw]
      · rw [if_neg (by simpa using hw), List.map_cons, List.mem_cons, ih, List.map_cons,
          List.mem_cons]
        exact or_left_comm

/-- Names stay distinct when a variable is put in. -/
theorem nodup_put {arena : Arena} (h : (arena.map (·.name)).Nodup) (v : Variable) :
    ((arena.put v).map (·.name)).Nodup := by
  induction arena with
  | nil => simp [put]
  | cons w rest ih =>
      obtain ⟨hw, hrest⟩ := List.nodup_cons.1 h
      rw [put]
      by_cases hv : w.name = v.name
      · rw [if_pos (by simpa using hv), List.map_cons, ← hv]
        exact h
      · rw [if_neg (by simpa using hv), List.map_cons]
        refine List.nodup_cons.2 ⟨fun hm => ?_, ih hrest⟩
        rcases mem_names_put.1 hm with hm | hm
        · exact hv hm
        · exact hw hm

theorem nodup_erase {arena : Arena} (h : (arena.map (·.name)).Nodup) (name : String) :
    ((arena.erase name).map (·.name)).Nodup :=
  h.sublist (List.filter_sublist.map _)

theorem get?_of_mem {arena : Arena} (h : (arena.map (·.name)).Nodup) {v : Variable}
    (hv : v ∈ arena) : arena.get? v.name = some v := by
  have hm : v ∈ arena.filter (·.name == v.name) := List.mem_filter.2 ⟨hv, beq_self_eq_true _⟩
  rw [filter_name h] at hm
  exact Option.mem_toList.1 hm

/-- What is put in may be new; the rest was there. -/
theorem mem_or_eq_of_mem_put {arena : Arena} {v w : Variable} (h : w ∈ arena.put v) :
    w = v ∨ w ∈ arena := by
  induction arena with
  | nil => exact .inl (List.mem_singleton.1 h)
  | cons u rest ih =>
      rw [put] at h
      split at h
      · rcases List.mem_cons.1 h with rfl | h
        · exact .inl rfl
        · exact .inr (List.mem_cons_of_mem u h)
      · rcases List.mem_cons.1 h with rfl | h
        · exact .inr List.mem_cons_self
        · exact (ih h).imp_right (List.mem_cons_of_mem u)

end Arena

namespace FlowContext

/-! ## Changes -/

/-- A token begins on the line. -/
def StartsOn (cx : FlowContext) (line : Nat) : Prop := ∃ t ∈ cx.scope.tokens, t.startLine = line

/-- A token ends on the line. -/
def EndsOn (cx : FlowContext) (line : Nat) : Prop := ∃ t ∈ cx.scope.tokens, t.endLine = line

/-- The candidates that are due when a variable comes to an end. -/
def lastReport (cx : FlowContext) (v : Variable) : Except FlowError (List Candidate) :=
  if v.isUnreported then cx.reportOf v else .ok []

/-- One change of the state. -/
inductive Change (cx : FlowContext) (s : FlowState) : FlowState → Prop
  | commit {start : Nat} {e : Expression} : cx.scope.expression s.arena start = .ok e →
      Change cx s (s.commit e)
  | found {start i stop : Nat} {fragments : List Fragment} {found : List Candidate} :
      start < stop → cx.looseCandidates start i stop fragments = .ok found →
      Change cx s { s with candidates := s.candidates ++ found }
  | begin {name : String} (kind : VariableKind) {first last : Nat} (fragments : List Fragment) :
      s.arena.get? name = none → cx.StartsOn first → cx.EndsOn last →
      Change cx s (s.bind ⟨name, kind, first, max first last, fragments, none⟩)
  | grow {v : Variable} (fragments : List Fragment) {line : Nat} :
      s.arena.get? v.name = some v → cx.EndsOn line →
      Change cx s (s.bind (v.regrow fragments line))
  | report {v : Variable} {found : List Candidate} :
      s.arena.get? v.name = some v → cx.reportOf v = .ok found →
      Change cx s
        { s with arena := s.arena.put v.markReported, candidates := s.candidates ++ found }
  | finish {v : Variable} {found : List Candidate} :
      s.arena.get? v.name = some v → cx.lastReport v = .ok found →
      Change cx s
        { s with
          arena := s.arena.erase v.name
          candidates := s.candidates ++ found
          closed := s.closed ++ [v.markReported] }
  | empty {v : Variable} {line : Nat} {found : List Candidate} :
      s.arena.get? v.name = some v → cx.lastReport v = .ok found → cx.StartsOn line →
      Change cx s
        { s with
          arena := s.arena.put ⟨v.name, .builder, line, line, [], none⟩
          candidates := s.candidates ++ found
          closed := s.closed ++ [v.markReported] }
  | declare (declared : List (String × VariableKind)) : Change cx s { s with declared }

/-- A sequence of changes. -/
abbrev Changes (cx : FlowContext) : FlowState → FlowState → Prop := Relation.ReflTransGen cx.Change

variable {cx : FlowContext} {s s' : FlowState}

/-- A name stands for one variable. -/
theorem Changes.nodup (h : cx.Changes s s') (hs : (s.arena.map (·.name)).Nodup) :
    (s'.arena.map (·.name)).Nodup := by
  induction h with
  | refl => exact hs
  | tail _ hc ih =>
      cases hc with
      | commit _ => exact ih
      | found _ _ => exact ih
      | begin _ _ _ _ _ => exact Arena.nodup_put ih _
      | grow _ _ _ => exact Arena.nodup_put ih _
      | report _ _ => exact Arena.nodup_put ih _
      | finish _ _ => exact Arena.nodup_erase ih _
      | empty _ _ _ => exact Arena.nodup_put ih _
      | declare _ => exact ih

/-! ## Computations that lead to a state -/

/-- A computation that gives a result leads to its state, which `view` shows, by changes. -/
def Leads {α : Type} (cx : FlowContext) (s : FlowState) (view : α → FlowState)
    (o : Except FlowError α) : Prop :=
  ∀ a, o = .ok a → cx.Changes s (view a)

/-- The state after a handler, which is the one before it if the handler does not apply. -/
abbrev handled (s : FlowState) (r : Option (FlowState × Nat)) : FlowState := (r.map Prod.fst).getD s

/-! ## Lines of tokens -/

theorem mem_tokens_of_token? {i : Nat} {t : Token} (h : cx.scope.token? i = some t) :
    t ∈ cx.scope.tokens :=
  Array.mem_of_getElem? h

theorem token?_of_fetch {i : Nat} {t : Token} (h : cx.fetch i = .ok t) :
    cx.scope.token? i = some t := by
  unfold fetch at h
  split at h
  · next u hu =>
      obtain rfl := Except.ok.inj h
      exact hu
  · cases h

theorem startsOn_of_fetch {i : Nat} {t : Token} (h : cx.fetch i = .ok t) :
    cx.StartsOn t.startLine :=
  ⟨t, mem_tokens_of_token? (token?_of_fetch h), rfl⟩

theorem endsOn_of_fetch {i : Nat} {t : Token} (h : cx.fetch i = .ok t) : cx.EndsOn t.endLine :=
  ⟨t, mem_tokens_of_token? (token?_of_fetch h), rfl⟩

theorem endsOn_of_lastLine {start stop line : Nat} (h : cx.lastLine start stop = .ok line) :
    cx.EndsOn line := by
  obtain ⟨t, ht, rfl⟩ := ok_of_map_eq_ok h
  exact endsOn_of_fetch ht

/-! ## Candidates -/

/-- A variable gives a candidate that shows its fragments, on its lines. -/
theorem exists_of_mem_reportOf {v : Variable} {found : List Candidate}
    (h : cx.reportOf v = .ok found) : ∀ c ∈ found, ∃ text, cx.render v.fragments = .ok text ∧
      c = .fresh text v.firstLine v.lastLine v.origin .assigned := by
  rw [reportOf] at h
  split at h
  · split at h
    · cases h
    · next text htext =>
        cases h
        intro c hc
        exact ⟨text, htext, List.mem_singleton.1 hc⟩
  · cases h
    exact nofun

/-- What is due at the end of an accumulation is a report like any other. -/
theorem exists_of_mem_lastReport {v : Variable} {found : List Candidate}
    (h : cx.lastReport v = .ok found) : ∀ c ∈ found, ∃ text, cx.render v.fragments = .ok text ∧
      c = .fresh text v.firstLine v.lastLine v.origin .assigned := by
  rw [lastReport] at h
  split at h
  · exact exists_of_mem_reportOf h
  · cases h
    exact nofun

/-- A free-standing expression gives a candidate that shows its fragments, on the lines of its tokens. -/
theorem exists_of_mem_looseCandidates {start i stop : Nat} {fragments : List Fragment}
    {found : List Candidate} (h : cx.looseCandidates start i stop fragments = .ok found) :
    ∀ c ∈ found, ∃ text first last, cx.render fragments = .ok text ∧ cx.fetch start = .ok first ∧
      cx.lastLine start stop = .ok last ∧
      c = .fresh text first.startLine last (cx.looseOrigin i fragments) .detected := by
  rw [looseCandidates] at h
  split at h
  · obtain ⟨text, htext, h⟩ := ok_of_bind_eq_ok h
    obtain ⟨first, hfirst, h⟩ := ok_of_bind_eq_ok h
    obtain ⟨last, hlast, h⟩ := ok_of_bind_eq_ok h
    cases h
    intro c hc
    exact ⟨text, first, last, htext, hfirst, hlast, List.mem_singleton.1 hc⟩
  · cases h
    exact nofun

/-! ## Variables -/

theorem modify_changes {change : Variable → Variable}
    (name : String) (h : ∀ v, s.arena.get? v.name = some v → cx.Change s (s.bind (change v))) :
    cx.Changes s (s.modify name change) := by
  unfold FlowState.modify
  split
  · next v hv =>
      obtain rfl := Arena.name_of_get? hv
      exact .single (h v hv)
  · exact .refl

/-- A variable that is extended grows by the fragments after its own. -/
theorem extend_changes (s : FlowState) (name : String) (fragments : List Fragment) {line : Nat}
    (h : cx.EndsOn line) : cx.Changes s (s.modify name (·.extend fragments line)) :=
  modify_changes name fun v hv => .grow (v.fragments ++ fragments) hv h

theorem regrow_changes (s : FlowState) (name : String) (fragments : List Fragment) {line : Nat}
    (h : cx.EndsOn line) : cx.Changes s (s.modify name (·.regrow fragments line)) :=
  modify_changes name fun _ hv => .grow fragments hv h

theorem get?_of_discard {name : String} (h : cx.discard s name = .ok s') :
    s'.arena.get? name = none := by
  unfold discard at h
  dsimp only at h
  split at h
  · obtain ⟨found, -, rfl⟩ := ok_of_map_eq_ok h
    exact Arena.get?_erase_self _ _
  · cases h
    exact Arena.get?_erase_self _ _

end FlowContext

end EmbeddedSql
