/-
# No accumulation is dropped

Whether a variable is reported once more when its accumulation ends is decided by how far it had grown
when it was last reported: by the number of its fragments and its last line, and by nothing else.  This
is enough.  A variable that only grows can come back to neither of the two, so as long as they are the
same nothing was added, and the report that was made shows what the variable holds (`Faithful`).

| | |
| :-- | :-- |
| every accumulation that ended | has been reported as it ended |
| every variable that was reported | was reported as it is, or has grown since |

Both hold in every state of a run, the first of them from the moment at which an accumulation ends.  At
the end of the scope the variables that are left are reported in the same way, and after that none of
them has grown since.
-/
import EmbeddedSql.Proofs.Flow.Accumulations
import EmbeddedSql.Rules.Classify
import EmbeddedSql.Token.Lexer

namespace EmbeddedSql

namespace FlowContext

/-- If the variable looks like a statement, then there is a candidate with its text and its lines. -/
def IsReported (cx : FlowContext) (s : FlowState) (v : Variable) : Prop :=
  cx.rules.isStatement v.fragments = true →
    ∃ text, cx.render v.fragments = .ok text ∧
      Candidate.fresh text v.firstLine v.lastLine v.origin .assigned ∈ s.candidates

/-- Each closed accumulation has been reported as it was at its end, and each variable that has been
reported as it was when it had grown that far. -/
structure Faithful (cx : FlowContext) (s : FlowState) : Prop where
  closed : ∀ v ∈ s.closed, v.OnlyGrows → cx.IsReported s v
  current : ∀ v ∈ s.arena, v.OnlyGrows → ∀ extent, v.reportedAt = some extent →
    ∃ u, u.GrowsInto v ∧ u.extent = extent ∧ cx.IsReported s u

variable {cx : FlowContext} {grows : String → Prop} {s s' : FlowState} {u v w : Variable}
  {found : List Candidate}

/-! ## Reports -/

theorem IsReported.mono : cx.IsReported s v → s.candidates ⊆ s'.candidates → cx.IsReported s' v := by
  intro h hsub hstatement
  obtain ⟨text, htext, hmem⟩ := h hstatement
  exact ⟨text, htext, hsub hmem⟩

/-- Reporting a variable gives its candidate. -/
theorem isReported_of_reportOf :
    cx.reportOf v = .ok found → found ⊆ s.candidates → cx.IsReported s v := by
  intro hfound hsub hstatement
  rw [reportOf, if_pos hstatement] at hfound
  split at hfound
  · cases hfound
  · next text htext =>
      cases hfound
      exact ⟨text, htext, hsub List.mem_cons_self⟩

/-- A report shows the fragments, the kind and the lines. -/
theorem IsReported.same : cx.IsReported s u → u.GrowsInto v → u.extent = v.extent →
    cx.IsReported s v := by
  intro h hgrows hextent hstatement
  obtain ⟨hfragments, hlast⟩ := hgrows.same hextent
  have horigin : v.origin = u.origin := by
    rw [Variable.origin, Variable.origin, hgrows.kind, hfragments]
  rw [hfragments] at hstatement
  rw [hfragments, hlast, hgrows.firstLine, horigin]
  exact h hstatement

theorem reportedAt_of_isUnreported (h : v.isUnreported = false) : v.reportedAt = some v.extent := by
  rw [Variable.isUnreported, decide_eq_false_iff_not] at h
  exact Decidable.not_not.1 h

/-- The last report of an accumulation leaves nothing out: either it is made as it ends, or it was made
before and nothing has been added since. -/
theorem Faithful.isReported (h : cx.Faithful s) (hv : s.arena.get? v.name = some v)
    (honly : v.OnlyGrows) : cx.lastReport v = .ok found →
      s'.candidates = s.candidates ++ found → cx.IsReported s' v := by
  intro hfound hcandidates
  have hsub : s.candidates ⊆ s'.candidates := hcandidates ▸ List.subset_append_left _ _
  have hnew : found ⊆ s'.candidates := hcandidates ▸ List.subset_append_right _ _
  rw [lastReport] at hfound
  split at hfound
  · exact isReported_of_reportOf hfound hnew
  · next hreported =>
      have hat := reportedAt_of_isUnreported (Bool.not_eq_true _ ▸ hreported)
      have hmem : v ∈ s.arena := List.mem_of_find?_eq_some hv
      obtain ⟨u, hgrows, hextent, hu⟩ := h.current v hmem honly v.extent hat
      exact (hu.same hgrows hextent).mono hsub

/-! ## Every state of a run -/

/-- A variable that takes a place in the arena. -/
theorem Faithful.put (h : cx.Faithful s)
    (hw : w.OnlyGrows → ∀ extent, w.reportedAt = some extent →
      ∃ u, u.GrowsInto w ∧ u.extent = extent ∧ cx.IsReported s u) :
    cx.Faithful (s.bind w) where
  closed := h.closed
  current v hv honly extent hat := by
    rcases Arena.mem_or_eq_of_mem_put hv with rfl | hv
    · exact hw honly extent hat
    · exact h.current v hv honly extent hat

/-- An accumulation that comes to an end. -/
theorem Faithful.close (h : cx.Faithful s) (hv : s.arena.get? v.name = some v)
    (hfound : cx.lastReport v = .ok found) {arena : Arena}
    (harena : ∀ w ∈ arena, w ∈ s.arena ∨ w.reportedAt = none) :
    cx.Faithful
      { s with
        arena
        candidates := s.candidates ++ found
        closed := s.closed ++ [v.markReported] } where
  closed u hu honly := by
    rcases List.mem_append.1 hu with hu | hu
    · exact (h.closed u hu honly).mono (List.subset_append_left _ _)
    · obtain rfl := List.mem_singleton.1 hu
      -- the mark is of no account
      change cx.IsReported _ v
      exact h.isReported hv honly hfound rfl
  current u hu honly extent hat := by
    rcases harena u hu with hu | hnew
    · obtain ⟨u', hgrows, hextent, hu'⟩ := h.current u hu honly extent hat
      exact ⟨u', hgrows, hextent, hu'.mono (List.subset_append_left _ _)⟩
    · rw [hnew] at hat
      cases hat

theorem Faithful.candidates (h : cx.Faithful s) (found : List Candidate) :
    cx.Faithful { s with candidates := s.candidates ++ found } where
  closed v hv honly := (h.closed v hv honly).mono (List.subset_append_left _ _)
  current v hv honly extent hat := by
    obtain ⟨u, hgrows, hextent, hu⟩ := h.current v hv honly extent hat
    exact ⟨u, hgrows, hextent, hu.mono (List.subset_append_left _ _)⟩

/-- Every move keeps the reports faithful. -/
theorem Faithful.move (h : cx.Faithful s) (hm : cx.Move grows s s') : cx.Faithful s' := by
  cases hm with
  | commit _ => exact ⟨h.closed, h.current⟩
  | found _ _ => exact h.candidates _
  | declare _ => exact ⟨h.closed, h.current⟩
  | begin kind fragments _ _ _ => exact h.put fun _ extent hat => by cases hat
  | @extend v fragments line hv _ _ =>
      refine h.put fun honly extent hat => ?_
      have hmem : v ∈ s.arena := List.mem_of_find?_eq_some hv
      obtain ⟨u, hgrows, hextent, hu⟩ := h.current v hmem honly extent hat
      exact ⟨u, hgrows.trans (v.growsInto_extend fragments line), hextent, hu⟩
  | regrow fragments _ _ hkind hword _ =>
      refine h.put fun honly _ _ => ?_
      exact absurd hword (honly hkind)
  | @report v found _ hfound =>
      refine (h.candidates found).put fun _ extent hat => ?_
      cases hat
      refine ⟨v, v.growsInto_markReported, rfl, ?_⟩
      exact isReported_of_reportOf hfound (List.subset_append_right _ _)
  | finish hv hfound => exact h.close hv hfound fun w hw => .inl (List.mem_filter.1 hw).1
  | empty hv hfound _ =>
      refine h.close hv hfound fun w hw => ?_
      rcases Arena.mem_or_eq_of_mem_put hw with rfl | hw
      · exact .inr rfl
      · exact .inl hw

theorem faithful_start (cx : FlowContext) : cx.Faithful .start :=
  ⟨fun _ hv _ => absurd hv List.not_mem_nil, fun _ hv _ => absurd hv List.not_mem_nil⟩

/-- So in every state the reports are faithful. -/
theorem Moves.faithful (hm : cx.Moves grows s s') (h : cx.Faithful s) : cx.Faithful s' := by
  induction hm with
  | refl => exact h
  | tail _ hm ih => exact ih.move hm

/-! ## Reported and not changed since -/

/-- What was reported once is not reported again as long as nothing is added, whatever happens around
it. -/
theorem close_of_same {s₁ s₂ : FlowState} (honly : u.OnlyGrows)
    (hreport : cx.report s u = .ok s₁)
    (hm : cx.Follows s₁ s₂) (hfate : s₁.fate? s₂ u.name = some v)
    (hfragments : v.fragments = u.fragments) (hlast : v.lastLine = u.lastLine) :
    cx.close s₂ v = .ok { s₂ with closed := s₂.closed ++ [v.markReported] } := by
  obtain ⟨found, -, rfl⟩ := ok_of_map_eq_ok hreport
  let R : Variable → Prop := fun w =>
    ∃ x, u.GrowsInto x ∧ x.GrowsInto w ∧ w.reportedAt = some x.extent
  have hR : Lasts (fun _ => True) u.name R :=
    { extend := fun w fragments line _ _ ⟨x, hux, hxw, hat⟩ =>
        ⟨x, hux, hxw.trans (w.growsInto_extend fragments line), hat⟩
      regrow := fun w _ _ _ _ hkind hword ⟨x, hux, hxw, _⟩ =>
        absurd hword (honly (((hux.trans hxw).kind).symm.trans hkind))
      markReported := fun w ⟨x, hux, hxw, _⟩ =>
        ⟨w, hux.trans hxw, w.growsInto_markReported, rfl⟩ }
  have hput : (s.arena.put u.markReported).get? u.name = some u.markReported :=
    Arena.get?_put_self _ u.markReported
  have hmarked : R u.markReported := ⟨u, u.growsInto_self, u.growsInto_markReported, rfl⟩
  obtain ⟨w, hw, x, hux, hxw, hat⟩ := hm.exists_fate? hR (Nat.le_refl _)
    ⟨u.markReported, (FlowState.fate?_self _ _).trans hput, hmarked⟩
  obtain rfl : w = v := Option.some.inj (hw.symm.trans hfate)
  have hextent : u.extent = w.extent := by
    rw [Variable.extent, Variable.extent, hfragments, hlast]
  have hreported : w.isUnreported = false := by
    rw [Variable.isUnreported, hat, hux.extent_eq hxw hextent]
    exact decide_eq_false fun hne => hne rfl
  have hnone : s₂.candidates ++ [] = s₂.candidates := List.append_nil _
  rw [close, hreported, if_neg Bool.false_ne_true, Except.map, hnone]

/-! ## The end of the scope -/

/-- What is still to be reported after the last reports was there before and not among the variables
that they are made of. -/
theorem flush_reports {vs : List Variable} (h : cx.flush s vs = .ok s') {name : String}
    (hw : s'.arena.get? name = some w) (hunreported : w.isUnreported = true) :
    s.arena.get? name = some w ∧ w ∉ vs := by
  induction vs generalizing s with
  | nil =>
      cases h
      exact ⟨hw, List.not_mem_nil⟩
  | cons v rest ih =>
      rw [flush] at h
      split at h
      · obtain ⟨s₁, hs₁, h⟩ := ok_of_bind_eq_ok h
        obtain ⟨found, -, rfl⟩ := ok_of_map_eq_ok hs₁
        obtain ⟨hget, hrest⟩ := ih h
        by_cases hname : name = v.name
        · have hself : (s.arena.put v.markReported).get? v.name = some v.markReported :=
            Arena.get?_put_self _ v.markReported
          rw [hname] at hget
          obtain rfl : v.markReported = w := Option.some.inj (hself.symm.trans hget)
          rw [Variable.isUnreported_markReported] at hunreported
          cases hunreported
        · have hother : (s.arena.put v.markReported).get? name = s.arena.get? name :=
            Arena.get?_put_of_ne _ hname
          refine ⟨hother.symm.trans hget, fun hmem => ?_⟩
          rcases List.mem_cons.1 hmem with rfl | hmem
          · exact hname (Arena.name_of_get? hget).symm
          · exact hrest hmem
      · next hreported =>
          obtain ⟨hget, hrest⟩ := ih h
          refine ⟨hget, fun hmem => ?_⟩
          rcases List.mem_cons.1 hmem with rfl | hmem
          · exact hreported hunreported
          · exact hrest hmem

/-- A run leaves no variable that has grown since it was last reported. -/
theorem isUnreported_of_run (h : cx.run = .ok s) (hv : v ∈ s.arena) : v.isUnreported = false := by
  have hdistinct : (s.arena.map (·.name)).Nodup :=
    ((run_moves fun _ => trivial).leads s h).nodup List.nodup_nil
  have hget := Arena.get?_of_mem hdistinct hv
  obtain ⟨s₁, -, hflush⟩ := ok_of_bind_eq_ok h
  rw [← Bool.not_eq_true]
  intro hunreported
  obtain ⟨hbefore, hnot⟩ := flush_reports hflush hget hunreported
  exact hnot (List.mem_of_find?_eq_some hbefore)

/-- What the last state holds is reported. -/
theorem isReported_of_run (h : cx.run = .ok s) (hv : v ∈ s.closed ++ s.arena)
    (honly : v.OnlyGrows) : cx.IsReported s v := by
  have hfaithful : cx.Faithful s :=
    Moves.faithful (run_moves (fun _ => trivial) s h : cx.Follows .start s) cx.faithful_start
  rcases List.mem_append.1 hv with hv | hv
  · exact hfaithful.closed v hv honly
  · have hat := reportedAt_of_isUnreported (isUnreported_of_run h hv)
    obtain ⟨u, hgrows, hextent, hu⟩ := hfaithful.current v hv honly v.extent hat
    exact hu.same hgrows hextent

/-- Whatever becomes of an accumulation is among the closed ones or in the arena. -/
theorem mem_of_fate? {name : String} (h : s.fate? s' name = some w) :
    w ∈ s'.closed ++ s'.arena := by
  rcases Option.or_eq_some_iff.1 h with h | ⟨-, h⟩
  · exact List.mem_append_left _ (List.mem_of_mem_drop (List.mem_of_find?_eq_some h))
  · exact List.mem_append_right _ (List.mem_of_find?_eq_some h)

/-- A run over literals that denote something comes to its end, if every source text can be shown. -/
theorem exists_run (rules : RuleSet) (classifier : Classifier) {tokens : List Token}
    (hliterals : ∀ t ∈ tokens, (t.isString || t.isCharLiteral) = true →
      (Literal.value t.text).isOk = true) :
    ∃ s, (ofTokens rules classifier standardPlaceholder tokens).run = .ok s := by
  have hsound := (ofTokens rules classifier standardPlaceholder tokens).run_sound
  cases hr : (ofTokens rules classifier standardPlaceholder tokens).run with
  | ok s => exact ⟨s, rfl⟩
  | error e =>
      rw [hr] at hsound
      cases hsound with
      | template he =>
          obtain ⟨hrender⟩ := he
          rw [Placeholder.render_standard rfl] at hrender
          cases hrender
      | room he =>
          obtain ⟨hroom, -⟩ := he
          cases hroom
      | literal he =>
          obtain ⟨ht, hkind, hvalue⟩ := he
          have hok := hliterals _ (List.mem_toArray.1 ht) hkind
          rw [hvalue] at hok
          cases hok

end FlowContext

/-- No accumulation is dropped.  A run over literals that denote something leaves every variable
reported, and in every state on the way, those included in which its steps begin:

* what has ended has been reported as it ended;
* what has begun ends as itself with more added to it, or is left, and then it is reported;
* what was reported before and is the same still gives no candidate when it ends. -/
theorem run_reports_accumulations (rules : RuleSet) (classifier : Classifier) {tokens : List Token}
    (hliterals : ∀ t ∈ tokens, (t.isString || t.isCharLiteral) = true →
      (Literal.value t.text).isOk = true) :
    let cx := FlowContext.ofTokens rules classifier standardPlaceholder tokens
    ∃ s, cx.run = .ok s ∧ (∀ v ∈ s.arena, v.isFinalized = true) ∧
      (∀ s₁ i, cx.Comes s₁ i → cx.Follows .start s₁ ∧ cx.Follows s₁ s) ∧
      ∀ s₁, cx.Follows .start s₁ → cx.Follows s₁ s →
        (∀ v ∈ s₁.closed, v.OnlyGrows → cx.IsReported s₁ v) ∧
        (∀ v, s₁.arena.get? v.name = some v → v.OnlyGrows →
          ∃ w, s₁.fate? s v.name = some w ∧ v.GrowsInto w ∧ cx.IsReported s w) ∧
        ∀ u v s₂ s₃ s₄, u.OnlyGrows → cx.report s₁ u = .ok s₂ → cx.Follows s₂ s₃ →
          s₂.fate? s₃ u.name = some v → v.fragments = u.fragments → v.lastLine = u.lastLine →
          cx.close s₃ v = .ok s₄ → s₄.candidates = s₃.candidates := by
  intro cx
  obtain ⟨s, hs⟩ := FlowContext.exists_run rules classifier hliterals
  refine ⟨s, hs, fun v hv => ?_, fun s₁ i hcomes => ?_, fun s₁ hbefore hafter => ⟨?_, ?_, ?_⟩⟩
  · have hat := FlowContext.reportedAt_of_isUnreported (FlowContext.isUnreported_of_run hs hv)
    rw [Variable.isFinalized, hat]
    rfl
  · exact ⟨hcomes.follows, hcomes.follows_last hs⟩
  · exact (hbefore.faithful cx.faithful_start).closed
  · intro v hv honly
    have hself : s₁.fate? s₁ v.name = some v := (FlowState.fate?_self _ _).trans hv
    obtain ⟨w, hw, hgrows⟩ := hafter.fate?_growsInto honly (Nat.le_refl _) hself
    have hreported := FlowContext.isReported_of_run hs (FlowContext.mem_of_fate? hw)
      (honly.growsInto hgrows)
    exact ⟨w, hw, hgrows, hreported⟩
  · intro u v s₂ s₃ s₄ honly hreport hm hfate hfragments hlast hclose
    have hsame := FlowContext.close_of_same honly hreport hm hfate hfragments hlast
    rw [hsame] at hclose
    cases hclose
    rfl

/-- A variable that is used by an executing call, grows, and is assigned anew. -/
def replacedValue : List Token :=
  significant ((tokenize "String q = \"SELECT a\";
stmt.execute(q);
q = q + \" FROM t\";
q = \"DELETE FROM t\";").toOption.getD [])

/-- It is reported where it is used, as it has grown where it is replaced, and at the end. -/
theorem run_reports_replacedValue :
    let cx := FlowContext.ofTokens .standard RuleSet.standard.classifier standardPlaceholder
      replacedValue
    ∃ s, cx.run = .ok s ∧
      s.candidates.map (fun c => (c.text, c.startLine, c.endLine)) =
        [(Text.ofString "SELECT a", 1, 1), (Text.ofString "SELECT a FROM t", 1, 3),
          (Text.ofString "DELETE FROM t", 4, 4)] ∧
      s.closed.map (·.name) = ["q"] ∧ ∀ v ∈ s.closed, v.OnlyGrows → cx.IsReported s v := by
  intro cx
  have hrun : cx.run.toOption.map (fun s =>
      (s.candidates.map fun c => (c.text, c.startLine, c.endLine), s.closed.map (·.name))) =
      some ([(Text.ofString "SELECT a", 1, 1), (Text.ofString "SELECT a FROM t", 1, 3),
        (Text.ofString "DELETE FROM t", 4, 4)], ["q"]) := by
    decide +kernel
  have hliterals : ∀ t ∈ replacedValue, (t.isString || t.isCharLiteral) = true →
      (Literal.value t.text).isOk = true := by
    decide +kernel
  obtain ⟨s, hs, -, -, hstates⟩ :=
    run_reports_accumulations .standard RuleSet.standard.classifier hliterals
  rw [show cx.run = .ok s from hs] at hrun
  obtain ⟨hcandidates, hclosed⟩ := Prod.mk.inj (Option.some.inj hrun)
  have hbefore : cx.Follows .start s := FlowContext.run_moves (fun _ => trivial) s hs
  exact ⟨s, hs, hcandidates, hclosed, (hstates s hbefore .refl).1⟩

end EmbeddedSql
