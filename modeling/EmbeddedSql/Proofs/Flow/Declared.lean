/-
# Variables are declared, and only grow

Whatever is done to variables, the arena keeps in order (`Orderly`):

| | |
| :-- | :-- |
| names | a variable stands under its own name, and under no other |
| kinds | its name is declared, with its kind |
| lines | it does not end before it begins |

An operation changes a variable together with what is declared under its name, so this is shown operation
by operation.  The only one that says nothing about the kind is the emptying of a builder, which is done to
builders only.

From one juncture of a run to a later one, an accumulation keeps its first line, its last line does not go
back, and fragments are put after the ones it has (`Variable.GrowsInto`), unless an assignment replaces
what it holds because the name is one that expressions do not read.  So of two texts that are reported for it,
the earlier one is the beginning of the later one.
-/
import EmbeddedSql.Proofs.Flow.Passing
import EmbeddedSql.Token.Lexer

namespace EmbeddedSql

theorem Fragment.renderAll_append (template : Template) (fragments more : List Fragment) :
    renderAll template (fragments ++ more) =
      renderAll template fragments >>= fun t => (renderAll template more).map (t ++ ·) := by
  induction fragments with
  | nil =>
      rw [List.nil_append]
      cases renderAll template more <;> rfl
  | cons f rest ih =>
      rw [List.cons_append, renderAll, renderAll, ih]
      cases f.render template with
      | error e => rfl
      | ok t =>
          cases renderAll template rest with
          | error e => rfl
          | ok u =>
              cases renderAll template more with
              | error e => rfl
              | ok w => exact congrArg Except.ok (List.append_assoc t u w).symm

/-- More fragments show the same text and more. -/
theorem Fragment.renderAll_prefix {template : Template} {fragments more : List Fragment} {t u : Text}
    (ht : renderAll template fragments = .ok t) (hu : renderAll template (fragments ++ more) = .ok u) :
    t <+: u := by
  rw [renderAll_append, ht] at hu
  obtain ⟨w, -, rfl⟩ := ok_of_map_eq_ok hu
  exact List.prefix_append t w

namespace FlowState

/-- The variables are in order. -/
structure Orderly (s : FlowState) : Prop where
  nodup : (s.arena.map (·.name)).Nodup
  name : ∀ name v, s.arena.get? name = some v → v.name = name
  declared : ∀ v ∈ s.arena, s.declaredKind? v.name = some v.kind
  lines : ∀ v ∈ s.arena, v.firstLine ≤ v.lastLine

variable {s s' : FlowState} {name : String} {v w : Variable}

/-! ## What is declared -/

theorem declaredKind?_declareKind_self (s : FlowState) (name : String) (kind : VariableKind) :
    (s.declareKind name kind).declaredKind? name = some kind := by
  simp [declareKind, declaredKind?]

theorem find?_filter_of_ne (declared : List (String × VariableKind)) {other : String}
    (h : other ≠ name) :
    (declared.filter (·.1 != name)).find? (·.1 == other) = declared.find? (·.1 == other) := by
  rw [List.find?_filter]
  congr 1
  funext d
  by_cases hd : d.1 = other
  · simp [hd, h]
  · simp [hd]

theorem declaredKind?_declareKind_of_ne (s : FlowState) (kind : VariableKind) {other : String}
    (h : other ≠ name) : (s.declareKind name kind).declaredKind? other = s.declaredKind? other := by
  have hne : (name == other) = false := by simpa using Ne.symm h
  rw [declaredKind?, declareKind]
  dsimp only
  rw [List.find?_cons, hne, find?_filter_of_ne _ h, declaredKind?]

namespace Orderly

/-- A variable is changed, but not its name and kind. -/
theorem put (h : s.Orderly) (hv : v ∈ s.arena) (harena : s'.arena = s.arena.put w)
    (hdeclared : s'.declared = s.declared) (hname : w.name = v.name) (hkind : w.kind = v.kind)
    (hlines : w.firstLine ≤ w.lastLine) : s'.Orderly where
  nodup := by
    rw [harena]
    exact Arena.nodup_put h.nodup w
  name _ _ := Arena.name_of_get?
  declared u hu := by
    rw [harena] at hu
    rw [declaredKind?, hdeclared]
    rcases Arena.mem_or_eq_of_mem_put hu with rfl | hu
    · rw [hname, hkind]
      exact h.declared v hv
    · exact h.declared u hu
  lines u hu := by
    rw [harena] at hu
    rcases Arena.mem_or_eq_of_mem_put hu with rfl | hu
    · exact hlines
    · exact h.lines u hu

/-- A name is no longer declared, and no variable stands under it. -/
theorem erase (h : s.Orderly) (harena : s'.arena = s.arena.erase name)
    (hdeclared : s'.declared = s.declared.filter (·.1 != name)) : s'.Orderly := by
  have hmem : ∀ u ∈ s'.arena, u ∈ s.arena ∧ u.name ≠ name := by
    intro u hu
    rw [harena] at hu
    simpa using List.mem_filter.1 hu
  refine ⟨?_, fun _ _ => Arena.name_of_get?, fun u hu => ?_, fun u hu => h.lines u (hmem u hu).1⟩
  · rw [harena]
    exact Arena.nodup_erase h.nodup name
  · obtain ⟨hu, hne⟩ := hmem u hu
    rw [declaredKind?, hdeclared, find?_filter_of_ne _ hne]
    exact h.declared u hu

/-- A name under which no variable stands is declared. -/
theorem declareKind (h : s.Orderly) (hfree : s.arena.get? name = none) (kind : VariableKind) :
    (s.declareKind name kind).Orderly where
  nodup := h.nodup
  name := h.name
  declared u hu := by
    have hne : u.name ≠ name := by
      rintro rfl
      have hget := Arena.get?_of_mem h.nodup hu
      rw [hfree] at hget
      cases hget
    rw [declaredKind?_declareKind_of_ne s kind hne]
    exact h.declared u hu
  lines := h.lines

/-- A variable is bound to such a name, and the name is declared with its kind. -/
theorem bind_declareKind (h : s.Orderly) (hfree : s.arena.get? v.name = none)
    (hlines : v.firstLine ≤ v.lastLine) : ((s.bind v).declareKind v.name v.kind).Orderly where
  nodup := Arena.nodup_put h.nodup v
  name _ _ := Arena.name_of_get?
  declared u hu := by
    rcases Arena.mem_or_eq_of_mem_put hu with rfl | hu
    · exact declaredKind?_declareKind_self _ _ _
    · exact (h.declareKind hfree v.kind).declared u hu
  lines u hu := by
    rcases Arena.mem_or_eq_of_mem_put hu with rfl | hu
    · exact hlines
    · exact h.lines u hu

theorem modify (h : s.Orderly) {change : Variable → Variable} (hname : ∀ v, (change v).name = v.name)
    (hkind : ∀ v, (change v).kind = v.kind)
    (hlines : ∀ v, v.firstLine ≤ v.lastLine → (change v).firstLine ≤ (change v).lastLine) :
    (s.modify name change).Orderly := by
  rw [FlowState.modify]
  split
  · next v hv =>
      have hmem : v ∈ s.arena := List.mem_of_find?_eq_some hv
      exact h.put hmem rfl rfl (hname v) (hkind v) (hlines v (h.lines v hmem))
  · exact h

end Orderly

end FlowState

namespace FlowContext

variable {cx : FlowContext} {s s' : FlowState} {log : List Uptake} {m m' : Juncture} {name : String}
  {v w : Variable}

/-! ## What is done to variables -/

theorem orderly_of_discard (hs : s.Orderly) (h : cx.discard s name = .ok s') : s'.Orderly := by
  rw [discard] at h
  split at h
  · obtain ⟨found, -, rfl⟩ := ok_of_map_eq_ok h
    exact hs.erase rfl rfl
  · cases h
    exact hs.erase rfl rfl

theorem Operation.orderly (h : cx.Operation log s s') (hs : s.Orderly) : s'.Orderly := by
  cases h with
  | report name h =>
      rw [reportNamed] at h
      split at h
      · next v hv =>
          obtain ⟨found, -, rfl⟩ := ok_of_map_eq_ok h
          have hmem : v ∈ s.arena := List.mem_of_find?_eq_some hv
          exact hs.put hmem rfl rfl rfl rfl (hs.lines v hmem)
      · cases h
        exact hs
  | discard name h => exact orderly_of_discard hs h
  | declare name kind h =>
      obtain ⟨s₁, hs₁, rfl⟩ := ok_of_map_eq_ok h
      exact (orderly_of_discard hs hs₁).declareKind (get?_of_discard hs₁) kind
  | rebind _ _ _ _ h =>
      obtain ⟨s₁, hs₁, rfl⟩ := ok_of_map_eq_ok h
      exact (orderly_of_discard hs hs₁).bind_declareKind (get?_of_discard hs₁) (Nat.le_max_left _ _)
  | extend name _ _ _ =>
      exact hs.modify (fun _ => rfl) (fun _ => rfl) fun _ hv => Nat.le_trans hv (Nat.le_max_left _ _)
  | regrow _ _ _ _ _ _ _ =>
      exact hs.modify (fun _ => rfl) (fun _ => rfl) fun _ hv => Nat.le_trans hv (Nat.le_max_left _ _)
  | reset hbuilder _ h =>
      rw [FlowContext.reset] at h
      split at h
      · cases h
        exact hs
      · next v hv =>
          obtain ⟨s₁, hs₁, rfl⟩ := ok_of_map_eq_ok h
          obtain ⟨found, -, rfl⟩ := ok_of_map_eq_ok hs₁
          have hmem : v ∈ s.arena := List.mem_of_find?_eq_some hv
          exact hs.put hmem rfl rfl (Arena.name_of_get? hv).symm (hbuilder v hv).symm (Nat.le_refl _)

/-- Reading changes no variable but by marks. -/
theorem ReadsLoosely.orderly {log' : List Uptake} {lower i next : Nat}
    (h : cx.ReadsLoosely s log lower i s' log' next) (hs : s.Orderly) : s'.Orderly := by
  cases h with
  | expression _ _ _ _ => exact ⟨hs.nodup, hs.name, hs.declared, hs.lines⟩
  | mention name h =>
      have hreport : cx.Operation log s s' := .report name h
      exact hreport.orderly hs
  | nothing => exact hs

theorem Passes.orderly (h : cx.Passes m m') (hm : m.state.Orderly) : m'.state.Orderly := by
  cases h with
  | forward _ => exact hm
  | value _ => exact ⟨hm.nodup, hm.name, hm.declared, hm.lines⟩
  | operate h => exact h.orderly hm
  | scan _ => exact hm
  | rescan _ _ => exact hm
  | read _ h => exact h.orderly hm
  | leave _ => exact hm
  | loose h => exact h.orderly hm

theorem Occurs.orderly (h : cx.Occurs m) : m.state.Orderly :=
  h.invariant ⟨.nil, nofun, nofun, nofun⟩ fun _ _ hm hpass => hpass.orderly hm

/-! ## Reports of one accumulation -/

/-- The second candidate shows the same accumulation as the first, at a later time. -/
structure Continues (c c' : Candidate) : Prop where
  text : c.text <+: c'.text
  startLine : c'.startLine = c.startLine
  endLine : c.endLine ≤ c'.endLine

theorem renderAll_of_render {fragments : List Fragment} {t : Text} (h : cx.render fragments = .ok t) :
    Fragment.renderAll cx.placeholder fragments = .ok t := by
  rw [render] at h
  split at h
  · next hrender =>
      cases h
      exact hrender
  · cases h

/-- Reports of an accumulation continue those made of it before. -/
theorem continues_of_growsInto (hv : v.GrowsInto w) {found found' : List Candidate}
    (h : cx.reportOf v = .ok found) (h' : cx.reportOf w = .ok found') :
    ∀ c ∈ found, ∀ c' ∈ found', Continues c c' := by
  intro c hc c' hc'
  obtain ⟨text, htext, rfl⟩ := exists_of_mem_reportOf h c hc
  obtain ⟨text', htext', rfl⟩ := exists_of_mem_reportOf h' c' hc'
  obtain ⟨more, hmore⟩ := hv.fragments
  rw [← hmore] at htext'
  have hshown := Fragment.renderAll_prefix (renderAll_of_render htext) (renderAll_of_render htext')
  exact ⟨hshown, congrArg Int.ofNat hv.firstLine, Int.ofNat_le.2 hv.lastLine⟩

/-- What has become of a variable at a later time.  The accumulation is the same, it has only grown, and what
is reported of it now continues what was reported of it before. -/
def LivesOn (cx : FlowContext) (s s' : FlowState) (v : Variable) : Prop :=
  ∃ w, s.fate? s' v.name = some w ∧ v.GrowsInto w ∧
    ∀ found found', cx.reportOf v = .ok found → cx.reportOf w = .ok found' →
      ∀ c ∈ found, ∀ c' ∈ found', Continues c c'

/-- An accumulation lives on from any juncture to any later one. -/
theorem PassesOn.livesOn (h : cx.PassesOn m m') (hm : m.state.Orderly) (hv : v ∈ m.state.arena)
    (hword : v.name ∉ Brackets.nonReferenceWords) : cx.LivesOn m.state m'.state v := by
  have hget : m.state.fate? m.state v.name = some v := by
    rw [FlowState.fate?_self]
    exact Arena.get?_of_mem hm.nodup hv
  obtain ⟨w, hw, hgrows⟩ := h.follows.fate?_growsInto (fun _ => hword) (Nat.le_refl _) hget
  exact ⟨w, hw, hgrows, fun _ _ => continues_of_growsInto hgrows⟩

/-- The variables of a run are in order at every juncture, and live on from one to the next.  Every step of
the run goes from one juncture to a later one, and so does its end. -/
structure KeepsVariables (cx : FlowContext) : Prop where
  orderly : ∀ m, cx.Occurs m → m.state.Orderly
  livesOn : ∀ m m' v, cx.Occurs m → cx.PassesOn m m' → v ∈ m.state.arena →
    v.name ∉ Brackets.nonReferenceWords → cx.LivesOn m.state m'.state v
  comes : ∀ s i, cx.Comes s i → ∃ log, cx.Occurs ⟨s, .at i, log⟩
  step : ∀ s i log r, cx.step s i = .ok r →
    ∃ log', cx.PassesOn ⟨s, .at i, log⟩ ⟨r.1, .at (max r.2 (i + 1)), log'⟩
  run : ∀ s i log s', cx.Comes s i → cx.run = .ok s' →
    ∃ j log', cx.PassesOn ⟨s, .at i, log⟩ ⟨s', .at j, log'⟩

end FlowContext

/-- Whatever the code is, a run keeps its variables in order, and they only grow. -/
theorem run_keeps_variables (rules : RuleSet) (classifier : Classifier) (placeholder : Template)
    (tokens : List Token) :
    (FlowContext.ofTokens rules classifier placeholder tokens).KeepsVariables where
  orderly _ h := h.orderly
  livesOn _ _ _ h hpass hv hword := hpass.livesOn h.orderly hv hword
  comes _ _ := FlowContext.Comes.occurs
  step s i log r := FlowContext.step_passing s log i r
  run _ _ log _ h hrun := h.passesOn_run log hrun

-- a variable that is executed, added to and executed again
example :
    let tokens := significant ((tokenize ("String q = \"SELECT a\"; st.executeQuery(q);" ++
      "q += \" FROM t\"; st.executeQuery(q);")).toOption.getD [])
    let cx := FlowContext.ofTokens .standard RuleSet.standard.classifier standardPlaceholder tokens
    cx.run.toOption.map (fun s => s.candidates.map (·.text)) =
      some [Text.ofString "SELECT a", Text.ofString "SELECT a FROM t"] := by
  decide +kernel

end EmbeddedSql
