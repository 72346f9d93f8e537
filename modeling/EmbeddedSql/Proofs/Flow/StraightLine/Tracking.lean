/-
# Tracking what memory holds

The state of the analysis and the memory of straight-line code hold the same accumulations, and what
has been reported so far are the accumulations that came to an end (`Agrees`).  Binding, emptying and
going on under a name keep this.  Nothing else happens: all string literals belong to values, and no
call executes anything, so reading code loosely finds nothing.
-/
import EmbeddedSql.Proofs.Flow.StraightLine.Values

namespace EmbeddedSql.StraightLine

/-- The analysis runs under the standard rules, and no token stands under an executing call. -/
structure Standard (cx : FlowContext) : Prop where
  rules : cx.rules = .standard
  placeholder : cx.placeholder.text = standardPlaceholder
  room : cx.room = none
  quiet : ∀ j, cx.scope.underSink j = false

/-- Tracked variables are declared, hold what is live, and wait to be reported; the others have been
reported. -/
structure Agrees (kinds : Kinds) (m : Memory) (s : FlowState) : Prop where
  live : s.arena.map accumulation = m.live
  unreported : ∀ v ∈ s.arena, v.reportedAt = none
  nodup : (s.arena.map (·.name)).Nodup
  tracked : ∀ x, (s.arena.get? x).map (·.kind) = kinds x
  declared : ∀ x, s.declaredKind? x = kinds x
  reported : s.candidates = m.closed.filterMap Accumulation.candidate?

variable {cx : FlowContext} {kinds : Kinds} {m : Memory} {s : FlowState}

namespace Agrees

theorem any_kind (h : Agrees kinds m s) {x : String} {k : VariableKind} (hk : kinds x = some k)
    (k' : VariableKind) : (s.arena.get? x).any (·.kind == k') = (k == k') := by
  obtain ⟨v, hv, rfl⟩ := Option.map_eq_some_iff.1 ((h.tracked x).trans hk)
  rw [hv, Option.any_some]

/-- Reading values changes neither variables nor reports. -/
theorem commit (h : Agrees kinds m s) (e : Expression) : Agrees kinds m (s.commit e) :=
  ⟨h.live, h.unreported, h.nodup, h.tracked, h.declared, h.reported⟩

end Agrees

/-! ## Reports -/

theorem renderAll_standard {template : Template} (h : template.text = standardPlaceholder)
    (fragments : List Fragment) :
    Fragment.renderAll template fragments =
      .ok ((fragments.map part).flatMap Part.shown) := by
  induction fragments with
  | nil => rfl
  | cons f rest ih =>
      rw [Fragment.renderAll, ih]
      cases f with
      | literal text line => rfl
      | unknown source line =>
          rw [Fragment.render, Placeholder.render_standard h]
          rfl

theorem literalText_part (f : Fragment) : (part f).literalText = f.literalText := by
  cases f <;> rfl

theorem isStatement_standard (fragments : List Fragment) :
    RuleSet.standard.isStatement fragments =
      RuleSet.standard.isSql ((fragments.map part).flatMap Part.literalText) := by
  simp only [List.flatMap_map, literalText_part]
  rfl

theorem origin_accumulation (v : Variable) : (accumulation v).origin = v.origin := by
  obtain ⟨name, kind, first, last, fragments, reported⟩ := v
  cases kind <;> simp [Variable.origin, Accumulation.origin, accumulation]

/-- A variable is reported by the candidate of its accumulation. -/
theorem reportOf_eq (hcx : Standard cx) (v : Variable) :
    cx.reportOf v = .ok (accumulation v).candidate?.toList := by
  rw [FlowContext.reportOf, hcx.rules, isStatement_standard, FlowContext.render,
    renderAll_standard hcx.placeholder, Accumulation.candidate?, origin_accumulation]
  by_cases h : RuleSet.standard.isSql ((v.fragments.map part).flatMap Part.literalText) = true
  · rw [if_pos h]
    simp [accumulation, h]
  · rw [if_neg h]
    simp [accumulation, h]

theorem isUnreported_eq_true {v : Variable} (h : v.reportedAt = none) : v.isUnreported = true := by
  simp [Variable.isUnreported, h]

/-- An accumulation that comes to an end is reported. -/
theorem close_eq (hcx : Standard cx) {v : Variable} (h : v.reportedAt = none) :
    cx.close s v = .ok { s with
      candidates := s.candidates ++ (accumulation v).candidate?.toList
      closed := s.closed ++ [v.markReported] } := by
  rw [FlowContext.close, if_pos (isUnreported_eq_true h), reportOf_eq hcx]
  rfl

/-! ## Changes of the arena -/

theorem find?_filter_ne {x y : String} (h : x ≠ y) (l : List (String × VariableKind)) :
    (l.filter (·.1 != y)).find? (·.1 == x) = l.find? (·.1 == x) := by
  rw [List.find?_filter]
  congr 1
  funext a
  by_cases ha : a.1 = x
  · simp [ha, h]
  · simp [ha]

theorem live_filter (h : Agrees kinds m s) (x : String) :
    m.live.filter (·.name == x) = (s.arena.get? x).toList.map accumulation := by
  rw [← h.live, List.filter_map, ← Arena.filter_name h.nodup]
  rfl

/-- The candidates once the accumulation of a variable has come to an end. -/
theorem reported_append (h : Agrees kinds m s) {x : String} {v : Variable}
    (hv : s.arena.get? x = some v) :
    s.candidates ++ (accumulation v).candidate?.toList =
      (m.closed ++ m.live.filter (·.name == x)).filterMap Accumulation.candidate? := by
  rw [live_filter h, hv, List.filterMap_append, ← h.reported]
  cases ha : (accumulation v).candidate? <;> simp [ha]

/-- What a name is bound to comes to an end. -/
theorem discard_eq (hcx : Standard cx) (h : Agrees kinds m s) (x : String) :
    ∃ closed, cx.discard s x = .ok { s with
      arena := s.arena.erase x
      declared := s.declared.filter (·.1 != x)
      candidates := (m.closed ++ m.live.filter (·.name == x)).filterMap Accumulation.candidate?
      closed } := by
  rw [FlowContext.discard]
  cases hv : s.arena.get? x with
  | none =>
      refine ⟨s.closed, ?_⟩
      rw [live_filter h, hv, h.reported]
      simp
  | some v =>
      refine ⟨s.closed ++ [v.markReported], ?_⟩
      dsimp only
      rw [close_eq hcx (h.unreported v (List.mem_of_find?_eq_some hv)), ← reported_append h hv]

/-- A new accumulation begins under a name, and the one before comes to an end. -/
theorem rebind_agrees (hcx : Standard cx) (h : Agrees kinds m s) (v : Variable)
    (hv : v.reportedAt = none) :
    ∃ s', cx.rebind s v = .ok s' ∧ s'.committed = s.committed ∧
      Agrees (kinds.set v.name v.kind) (m.bind (accumulation v)) s' := by
  obtain ⟨closed, hd⟩ := discard_eq hcx h v.name
  rw [FlowContext.rebind, hd]
  refine ⟨_, rfl, rfl, ?_⟩
  have hput : (s.arena.erase v.name).put v = s.arena.erase v.name ++ [v] :=
    Arena.put_of_get?_eq_none (Arena.get?_erase_self _ _)
  refine ⟨?_, fun w hw => ?_, ?_, fun x => ?_, fun x => ?_, rfl⟩
  · show ((s.arena.erase v.name).put v).map accumulation = _
    rw [hput, List.map_append, Memory.bind, ← h.live, List.filter_map]
    rfl
  · have hw : w ∈ s.arena.erase v.name ++ [v] := hput ▸ hw
    rcases List.mem_append.1 hw with hw | hw
    · exact h.unreported w (List.mem_filter.1 hw).1
    · rwa [List.mem_singleton.1 hw]
  · show (((s.arena.erase v.name).put v).map (·.name)).Nodup
    rw [hput, List.map_append]
    refine List.nodup_append.2 ⟨?_, by simp, ?_⟩
    · exact h.nodup.sublist (List.filter_sublist.map _)
    · intro x hx y hy
      obtain ⟨w, hw, rfl⟩ := List.mem_map.1 hx
      obtain rfl := List.mem_singleton.1 hy
      simpa using (List.mem_filter.1 hw).2
  · show (((s.arena.erase v.name).put v).get? x).map (·.kind) = _
    by_cases hx : x = v.name
    · rw [hx, Arena.get?_put_self, Kinds.set, if_pos rfl]
      rfl
    · rw [Arena.get?_put_of_ne _ hx, Arena.get?_erase_of_ne _ hx, h.tracked, Kinds.set, if_neg hx]
  · rw [Kinds.set, ← h.declared]
    by_cases hx : x = v.name
    · simp [FlowState.declareKind, FlowState.declaredKind?, hx]
    · have hne : (v.name == x) = false := beq_false_of_ne (Ne.symm hx)
      simp only [FlowState.declareKind, FlowState.declaredKind?, FlowState.bind, List.find?_cons,
        hne, find?_filter_ne hx, if_neg hx]

/-- A variable is changed where it stands, and its accumulation with it. -/
theorem agrees_put (h : Agrees kinds m s) {x : String} {v : Variable}
    (hv : s.arena.get? x = some v) (change : Variable → Variable) (f : Accumulation → Accumulation)
    (hf : ∀ w, w.name = x → accumulation (change w) = f (accumulation w))
    (hname : ∀ a, a.name = x → (f a).name = x) (hkind : (change v).kind = v.kind)
    (hrep : ∀ w, w.reportedAt = none → (change w).reportedAt = none)
    {closed : List Accumulation} {s' : FlowState} (ha : s'.arena = s.arena.put (change v))
    (hd : s'.declared = s.declared)
    (hc : s'.candidates = closed.filterMap Accumulation.candidate?) :
    Agrees kinds ⟨m.live.map fun a => if a.name = x then f a else a, closed⟩ s' := by
  have hchange : ∀ w, w.name = x → (change w).name = x := fun w hw =>
    (congrArg Accumulation.name (hf w hw)).trans (hname _ hw)
  have hvx : v.name = x := Arena.name_of_get? hv
  have hmap := Arena.put_change h.nodup hv (hchange v hvx)
  rw [hmap] at ha
  refine ⟨?_, fun w hw => ?_, ?_, fun y => ?_, fun y => ?_, hc⟩
  · rw [ha, ← h.live, List.map_map, List.map_map]
    refine List.map_congr_left fun w _ => ?_
    by_cases hw : w.name = x
    · simp only [Function.comp_apply, if_pos hw, hf w hw]
      exact (if_pos hw).symm
    · simp only [Function.comp_apply, if_neg hw]
      exact (if_neg hw).symm
  · rw [ha] at hw
    obtain ⟨u, hu, rfl⟩ := List.mem_map.1 hw
    by_cases hux : u.name = x
    · rw [if_pos hux]
      exact hrep u (h.unreported u hu)
    · rw [if_neg hux]
      exact h.unreported u hu
  · have hnames : s'.arena.map (·.name) = s.arena.map (·.name) := by
      rw [ha, List.map_map]
      refine List.map_congr_left fun w _ => ?_
      by_cases hw : w.name = x
      · rw [Function.comp_apply, if_pos hw, hchange w hw, hw]
      · rw [Function.comp_apply, if_neg hw]
    rw [hnames]
    exact h.nodup
  · rw [ha, ← hmap, ← h.tracked]
    by_cases hy : y = x
    · rw [hy, hv, ← hchange v hvx, Arena.get?_put_self, Option.map_some, hkind]
      rfl
    · rw [Arena.get?_put_of_ne _ (by rwa [hchange v hvx])]
  · rw [FlowState.declaredKind?, hd]
    exact h.declared y

@[simp]
theorem committed_modify (s : FlowState) (x : String) (change : Variable → Variable) :
    (s.modify x change).committed = s.committed := by
  rw [FlowState.modify]
  cases s.arena.get? x <;> rfl

/-- An accumulation goes on. -/
theorem modify_agrees (h : Agrees kinds m s) {x : String} {k : VariableKind} (hx : kinds x = some k)
    (parts : List Part → List Part) (line : Nat) {change : Variable → Variable}
    (hf : ∀ w, accumulation (change w) =
      { accumulation w with
        parts := parts (w.fragments.map part), lastLine := max w.lastLine line })
    (hrep : ∀ w, (change w).reportedAt = w.reportedAt) :
    Agrees kinds (m.advance x parts line) (s.modify x change) := by
  obtain ⟨v, hv, -⟩ := Option.map_eq_some_iff.1 ((h.tracked x).trans hx)
  rw [FlowState.modify, hv]
  refine agrees_put h hv change
    (fun a => { a with parts := parts a.parts, lastLine := max a.lastLine line })
    (fun w _ => hf w) (fun a ha => ha) ?_ (fun w hw => (hrep w).trans hw) rfl rfl h.reported
  exact congrArg Accumulation.kind (hf v)

/-- A builder is emptied, and what it held comes to an end. -/
theorem reset_agrees (hcx : Standard cx) (h : Agrees kinds m s) {x : String}
    (hx : kinds x = some .builder) (line : Nat) :
    ∃ s', cx.reset s x line = .ok s' ∧ s'.committed = s.committed ∧
      Agrees kinds (m.restart ⟨x, .builder, [], line, line⟩) s' := by
  obtain ⟨v, hv, hk⟩ := Option.map_eq_some_iff.1 ((h.tracked x).trans hx)
  rw [FlowContext.reset, hv]
  dsimp only
  rw [close_eq hcx (h.unreported v (List.mem_of_find?_eq_some hv))]
  refine ⟨_, rfl, rfl, ?_⟩
  exact agrees_put h hv (fun _ => ⟨x, .builder, line, line, [], none⟩)
    (fun _ => ⟨x, .builder, [], line, line⟩) (fun w _ => rfl) (fun a ha => rfl) hk.symm
    (fun w _ => rfl) rfl rfl (reported_append h hv)

/-! ## Reading loosely -/

theorem looseToken_eq (hcx : Standard cx) {lower i : Nat} (hi : i < cx.scope.size)
    (hs : (cx.scope.token? i).any (·.isString) = true → i ∈ s.committed) :
    cx.looseToken s lower i = .ok (s, i + 1) := by
  obtain ⟨t, ht⟩ : ∃ t, cx.scope.token? i = some t := ⟨_, Array.getElem?_eq_getElem hi⟩
  rw [ht, Option.any_some] at hs
  have hread : (t.isString && !s.committed.contains i) = false := by
    cases hstr : t.isString with
    | false => rfl
    | true => simp [hs hstr]
  rw [FlowContext.looseToken, ht]
  dsimp only
  rw [hread, if_neg Bool.false_ne_true, hcx.quiet, Bool.and_false, if_neg Bool.false_ne_true]

/-- Where every string literal has been read, reading loosely finds nothing. -/
theorem scanFrom_eq (hcx : Standard cx) (s : FlowState) (lower i stop : Nat)
    (hs : ∀ j, i ≤ j → j < stop → (cx.scope.token? j).any (·.isString) = true →
      j ∈ s.committed) :
    cx.scanFrom s lower i stop = .ok s := by
  rw [FlowContext.scanFrom]
  by_cases hi : i < min stop cx.scope.size
  · obtain ⟨hlt, hsize⟩ := Nat.lt_min.1 hi
    rw [dif_pos hi, looseToken_eq hcx hsize (hs i (Nat.le_refl i) hlt)]
    show cx.scanFrom s lower (max (i + 1) (i + 1)) stop = .ok s
    rw [Nat.max_self]
    exact scanFrom_eq hcx s lower (i + 1) stop fun j hj => hs j (Nat.le_of_succ_le hj)
  · rw [dif_neg hi]
    rfl
termination_by min stop cx.scope.size - i

/-- Values that have been read leave nothing to be found. -/
theorem scanLoose_eq (hcx : Standard cx) {start stop : Nat} {parts : List Part}
    {fragments : List Fragment} {literals : List Nat}
    (hc : Covers cx.scope.toBrackets start stop parts fragments literals)
    (hs : ∀ j ∈ literals, j ∈ s.committed) : cx.scanLoose s start stop = .ok s :=
  scanFrom_eq hcx s start start stop fun _ hj hj' hstr => hs _ (hc.literal_mem hj hj' hstr)

/-! ## Last reports -/

/-- Each variable that waits is reported, and nothing else changes. -/
theorem flush_eq (hcx : Standard cx) {vs : List Variable} (hnodup : (vs.map (·.name)).Nodup)
    (hwait : ∀ v ∈ vs, v.reportedAt = none) {s : FlowState}
    (hn : (s.arena.map (·.name)).Nodup) (hget : ∀ v ∈ vs, s.arena.get? v.name = some v) :
    ∃ s', cx.flush s vs = .ok s' ∧ s'.arena.map accumulation = s.arena.map accumulation ∧
      s'.candidates = s.candidates ++ (vs.map accumulation).filterMap Accumulation.candidate? := by
  induction vs generalizing s with
  | nil => exact ⟨s, rfl, rfl, by simp⟩
  | cons v rest ih =>
      have hv := hget v List.mem_cons_self
      have hput : s.arena.put v.markReported =
          s.arena.map fun w => if w.name = v.name then w.markReported else w :=
        Arena.put_change hn hv rfl
      have hacc : (s.arena.put v.markReported).map accumulation = s.arena.map accumulation := by
        rw [hput, List.map_map]
        refine List.map_congr_left fun w _ => ?_
        by_cases hw : w.name = v.name
        · rw [Function.comp_apply, if_pos hw]
          rfl
        · rw [Function.comp_apply, if_neg hw]
      have hnames : ((s.arena.put v.markReported).map (·.name)).Nodup := by
        have hname : ((·.name) : Variable → String) = Accumulation.name ∘ accumulation := rfl
        rw [hname, ← List.map_map, hacc, List.map_map]
        exact hn
      have hrest : ∀ w ∈ rest, (s.arena.put v.markReported).get? w.name = some w := by
        intro w hw
        have hne : w.name ≠ v.markReported.name := Arena.name_ne hnodup w hw
        rw [Arena.get?_put_of_ne _ hne]
        exact hget w (List.mem_cons_of_mem _ hw)
      obtain ⟨s', hf, ha, hc⟩ := ih (List.nodup_cons.1 hnodup).2
        (fun w hw => hwait w (List.mem_cons_of_mem _ hw))
        (s := { s with
          arena := s.arena.put v.markReported
          candidates := s.candidates ++ (accumulation v).candidate?.toList }) hnames hrest
      refine ⟨s', ?_, ha.trans hacc, ?_⟩
      · rw [FlowContext.flush, if_pos (isUnreported_eq_true (hwait v List.mem_cons_self)),
          FlowContext.report, reportOf_eq hcx]
        exact hf
      · rw [hc]
        cases hcand : (accumulation v).candidate? <;> simp [hcand]

end EmbeddedSql.StraightLine
