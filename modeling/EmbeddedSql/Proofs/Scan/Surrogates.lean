/-
# Surrogates come from literals

The text of a candidate may hold half of a surrogate pair.  Nothing but a literal brings one in: the source
itself is made of characters, and so are the source texts of unknown values and the template around them.
So a surrogate that a statement shows stands in the value of a literal token of the source
(`surrogate_of_mem_scanSource`).

| | |
| :-- | :-- |
| a fragment | read from a token (`Fragment.ReadFrom`), whichever variable holds it |
| a candidate of a run | renders such fragments (`Accountable`) |
| a merged candidate | holds the statements of such candidates, with the separator between them |
-/
import EmbeddedSql.Proofs.Candidate.Joined

namespace EmbeddedSql

/-- A code point in the value of a literal among the tokens. -/
def DenotedIn (tokens : List Token) (p : CodePoint) : Prop :=
  ∃ t ∈ tokens, (t.isString || t.isCharLiteral) ∧ ∃ text, t.value = .ok text ∧ p ∈ text

theorem DenotedIn.mono {tokens tokens' : List Token} {p : CodePoint} (h : DenotedIn tokens p)
    (hs : tokens ⊆ tokens') : DenotedIn tokens' p := by
  obtain ⟨t, ht, hvalue⟩ := h
  exact ⟨t, hs ht, hvalue⟩

variable {o : Fin 2048}

theorem surrogate_not_mem_chars (cs : List Char) :
    CodePoint.surrogate o ∉ (cs.map .char : Text) := by
  intro h
  obtain ⟨c, -, hc⟩ := List.mem_map.1 h
  cases hc

/-! ## Fragments -/

namespace Fragment

theorem ReadFrom.denotedIn {tokens : Array Token} {f : Fragment} (h : f.ReadFrom tokens)
    (hf : CodePoint.surrogate o ∈ f.literalText) :
    DenotedIn tokens.toList (.surrogate o) := by
  cases h with
  | value _ ht hl hv => exact ⟨_, Array.mem_toList_iff.2 ht, hl, _, hv, hf⟩
  | number _ _ => exact absurd hf (surrogate_not_mem_chars _)
  | unknown _ _ => cases hf

/-- Placeholders are made of characters. -/
theorem surrogate_of_render {template : Template} {f : Fragment} {text : Text}
    (h : f.render template = .ok text) (ho : CodePoint.surrogate o ∈ text) :
    CodePoint.surrogate o ∈ f.literalText := by
  cases f with
  | literal text' line =>
      cases h
      exact ho
  | unknown source line =>
      obtain ⟨filled, -, rfl⟩ := ok_of_map_eq_ok h
      exact absurd ho (surrogate_not_mem_chars filled.1)

theorem surrogate_of_renderAll {template : Template} {fragments : List Fragment} {text : Text}
    (h : renderAll template fragments = .ok text) (ho : CodePoint.surrogate o ∈ text) :
    ∃ f ∈ fragments, CodePoint.surrogate o ∈ f.literalText := by
  induction fragments generalizing text with
  | nil =>
      cases h
      cases ho
  | cons f fs ih =>
      rw [renderAll] at h
      cases hf : f.render template with
      | error e =>
          rw [hf] at h
          cases h
      | ok t =>
          cases hfs : renderAll template fs with
          | error e =>
              rw [hf, hfs] at h
              cases h
          | ok u =>
              rw [hf, hfs] at h
              cases h
              rcases List.mem_append.1 ho with ho | ho
              · exact ⟨f, List.mem_cons_self, surrogate_of_render hf ho⟩
              · obtain ⟨g, hg, hgo⟩ := ih hfs ho
                exact ⟨g, List.mem_cons_of_mem f hg, hgo⟩

end Fragment

/-! ## Runs -/

namespace Arena

variable {arena : Arena} {v : Variable} {f : Fragment}

theorem holds_of_put (h : (arena.put v).Holds f) : f ∈ v.fragments ∨ arena.Holds f := by
  obtain ⟨w, hw, hf⟩ := h
  by_cases hname : w.name = v.name
  · rw [hname, get?_put_self] at hw
    exact .inl (Option.some.inj hw ▸ hf)
  · rw [get?_put_of_ne arena hname] at hw
    exact .inr ⟨w, hw, hf⟩

theorem holds_of_erase {name : String} (h : (arena.erase name).Holds f) : arena.Holds f := by
  obtain ⟨w, hw, hf⟩ := h
  by_cases hname : w.name = name
  · rw [hname, get?_erase_self] at hw
    cases hw
  · exact ⟨w, (get?_erase_of_ne arena hname).symm.trans hw, hf⟩

end Arena

namespace FlowContext

variable {cx : FlowContext} {s s' : FlowState}

/-- A candidate whose text renders fragments that are read from the scope, and is its only statement. -/
def Renders (cx : FlowContext) (c : Candidate) : Prop :=
  ∃ fragments, (∀ f ∈ fragments, f.ReadFrom cx.scope.tokens) ∧
    cx.render fragments = .ok c.text ∧ c.statements = [c.text]

/-- Everything that a state holds is read from the scope. -/
structure Accountable (cx : FlowContext) (s : FlowState) : Prop where
  held : ∀ f, s.HasHeld f → f.ReadFrom cx.scope.tokens
  candidates : ∀ c ∈ s.candidates, cx.Renders c

theorem Accountable.readFrom (h : cx.Accountable s) {fragments : List Fragment}
    (hf : cx.Sourced s fragments) : ∀ f ∈ fragments, f.ReadFrom cx.scope.tokens := fun f hm =>
  (hf f hm).elim id (h.held f)

theorem Accountable.of_get? (h : cx.Accountable s) {v : Variable}
    (hv : s.arena.get? v.name = some v) : ∀ f ∈ v.fragments, f.ReadFrom cx.scope.tokens :=
  fun f hf => h.held f (.inl ⟨v, hv, hf⟩)

theorem renders_of_mem_reportOf {v : Variable} {found : List Candidate}
    (hv : ∀ f ∈ v.fragments, f.ReadFrom cx.scope.tokens) (h : cx.reportOf v = .ok found) :
    ∀ c ∈ found, cx.Renders c := by
  intro c hc
  obtain ⟨text, htext, rfl⟩ := exists_of_mem_reportOf h c hc
  exact ⟨v.fragments, hv, htext, rfl⟩

theorem renders_of_mem_lastReport {v : Variable} {found : List Candidate}
    (hv : ∀ f ∈ v.fragments, f.ReadFrom cx.scope.tokens) (h : cx.lastReport v = .ok found) :
    ∀ c ∈ found, cx.Renders c := by
  intro c hc
  obtain ⟨text, htext, rfl⟩ := exists_of_mem_lastReport h c hc
  exact ⟨v.fragments, hv, htext, rfl⟩

theorem renders_of_mem_looseCandidates {start i stop : Nat} {fragments : List Fragment}
    {found : List Candidate} (hf : ∀ f ∈ fragments, f.ReadFrom cx.scope.tokens)
    (h : cx.looseCandidates start i stop fragments = .ok found) : ∀ c ∈ found, cx.Renders c := by
  intro c hc
  obtain ⟨text, first, last, htext, -, -, rfl⟩ := exists_of_mem_looseCandidates h c hc
  exact ⟨fragments, hf, htext, rfl⟩

namespace Accountable

theorem bind (h : cx.Accountable s) {v : Variable}
    (hv : ∀ f ∈ v.fragments, f.ReadFrom cx.scope.tokens) : cx.Accountable (s.bind v) := by
  refine ⟨fun f hf => ?_, h.candidates⟩
  rcases hf with hf | hf
  · exact (Arena.holds_of_put hf).elim (hv f) fun hf => h.held f (.inl hf)
  · exact h.held f (.inr hf)

theorem erase (h : cx.Accountable s) (name : String) :
    cx.Accountable { s with arena := s.arena.erase name } :=
  ⟨fun f hf => h.held f (hf.imp_left Arena.holds_of_erase), h.candidates⟩

theorem found (h : cx.Accountable s) {found : List Candidate}
    (hfound : ∀ c ∈ found, cx.Renders c) :
    cx.Accountable { s with candidates := s.candidates ++ found } :=
  ⟨h.held, fun c hc => (List.mem_append.1 hc).elim (h.candidates c) (hfound c)⟩

theorem close (h : cx.Accountable s) {v : Variable}
    (hv : ∀ f ∈ v.fragments, f.ReadFrom cx.scope.tokens) :
    cx.Accountable { s with closed := s.closed ++ [v] } := by
  refine ⟨fun f hf => ?_, h.candidates⟩
  rcases hf with hf | ⟨w, hw, hf⟩
  · exact h.held f (.inl hf)
  · rcases List.mem_append.1 hw with hw | hw
    · exact h.held f (.inr ⟨w, hw, hf⟩)
    · rw [List.mem_singleton.1 hw] at hf
      exact hv f hf

/-- Every move keeps the state accountable. -/
theorem move {grows : String → Prop} (h : cx.Accountable s) (hm : cx.Move grows s s') :
    cx.Accountable s' := by
  cases hm with
  | commit _ => exact ⟨h.held, h.candidates⟩
  | declare _ => exact ⟨h.held, h.candidates⟩
  | found _ hf hfound => exact h.found (renders_of_mem_looseCandidates (h.readFrom hf) hfound)
  | begin _ fragments _ hf _ _ => exact h.bind (h.readFrom hf)
  | extend fragments hv _ hf _ =>
      refine h.bind fun f hm => ?_
      exact (List.mem_append.1 hm).elim (h.of_get? hv f) (h.readFrom hf f)
  | regrow fragments _ _ _ _ hf _ => exact h.bind (h.readFrom hf)
  | @report v _ hv hfound =>
      have hread := h.of_get? hv
      exact (h.found (renders_of_mem_reportOf hread hfound)).bind (v := v.markReported) hread
  | @finish v _ hv hfound =>
      have hread := h.of_get? hv
      exact ((h.found (renders_of_mem_lastReport hread hfound)).close (v := v.markReported)
        hread).erase v.name
  | @empty v _ _ hv hfound _ =>
      have hread := h.of_get? hv
      exact ((h.found (renders_of_mem_lastReport hread hfound)).close (v := v.markReported)
        hread).bind fun f hf => nomatch hf

end Accountable

theorem accountable_start (cx : FlowContext) : cx.Accountable .start := by
  refine ⟨fun f hf => ?_, fun c hc => nomatch hc⟩
  rcases hf with ⟨v, hv, -⟩ | ⟨v, hv, -⟩
  · cases hv
  · cases hv

theorem accountable_of_run (h : cx.run = .ok s) : cx.Accountable s :=
  run_invariant_of_move cx.accountable_start (fun _ _ hs hm => hs.move hm) h

/-- A surrogate that a candidate of a run shows stands in the value of a literal. -/
theorem Renders.denotedIn {c : Candidate} (h : cx.Renders c) {statement : Text}
    (hs : statement ∈ c.statements) (ho : CodePoint.surrogate o ∈ statement) :
    DenotedIn cx.scope.tokens.toList (.surrogate o) := by
  obtain ⟨fragments, hread, hrender, hstatements⟩ := h
  rw [hstatements, List.mem_singleton] at hs
  subst hs
  rw [render] at hrender
  split at hrender
  · next text htext =>
      cases hrender
      obtain ⟨f, hf, hfo⟩ := Fragment.surrogate_of_renderAll htext ho
      exact (hread f hf).denotedIn hfo
  · cases hrender

end FlowContext

/-! ## Merging -/

namespace Candidate

variable {separator : Text} {P : Text → Prop}

/-- Joined texts hold what stands in one of them or in between. -/
theorem mem_of_mem_intercalate {statements : List Text} {p : CodePoint}
    (h : p ∈ List.intercalate separator statements) :
    p ∈ separator ∨ ∃ s ∈ statements, p ∈ s := by
  obtain ⟨part, hpart, hp⟩ := List.mem_flatten.1 h
  clear h
  induction statements with
  | nil => cases hpart
  | cons s rest ih =>
      cases rest with
      | nil =>
          rw [List.intersperse_singleton, List.mem_singleton] at hpart
          exact .inr ⟨s, List.mem_cons_self, hpart ▸ hp⟩
      | cons next rest =>
          rw [List.intersperse_cons_cons] at hpart
          rcases List.mem_cons.1 hpart with rfl | hpart
          · exact .inr ⟨part, List.mem_cons_self, hp⟩
          · rcases List.mem_cons.1 hpart with rfl | hpart
            · exact .inl hp
            · refine (ih hpart).imp_right ?_
              rintro ⟨t, ht, hpt⟩
              exact ⟨t, List.mem_cons_of_mem s ht, hpt⟩

theorem forall_mem_addStatements {overlaps : Bool} {statements more : List Text}
    (h : ∀ s ∈ statements, P s) (hmore : ∀ s ∈ more, P s) :
    ∀ s ∈ addStatements overlaps statements more, P s := by
  induction more generalizing statements with
  | nil => exact h
  | cons s rest ih =>
      have hrest : ∀ t ∈ rest, P t := fun t ht => hmore t (List.mem_cons_of_mem s ht)
      rw [addStatements]
      split
      · exact ih h hrest
      · refine ih (fun t ht => ?_) hrest
        rcases List.mem_append.1 ht with ht | ht
        · exact h t ht
        · rw [List.mem_singleton.1 ht]
          exact hmore s List.mem_cons_self

/-- What is true of all statements is true of those of merged candidates. -/
theorem forall_statements_of_mem_sweep {current : Candidate} {rest : List Candidate}
    (h : ∀ c ∈ current :: rest, ∀ s ∈ c.statements, P s) :
    ∀ c ∈ sweep separator current rest, ∀ s ∈ c.statements, P s := by
  induction rest generalizing current with
  | nil => exact h
  | cons next rest ih =>
      obtain ⟨hcurrent, hnext, hrest⟩ := by
        rwa [List.forall_mem_cons, List.forall_mem_cons] at h
      rw [sweep]
      split
      · refine ih (List.forall_mem_cons.2 ⟨?_, hrest⟩)
        exact forall_mem_addStatements hcurrent hnext
      · exact List.forall_mem_cons.2 ⟨hcurrent, ih (List.forall_mem_cons.2 ⟨hnext, hrest⟩)⟩

theorem forall_statements_of_mem_mergeCandidates {candidates : List Candidate}
    (h : ∀ c ∈ candidates, ∀ s ∈ c.statements, P s) :
    ∀ c ∈ mergeCandidates separator candidates, ∀ s ∈ c.statements, P s := by
  have hsort : ∀ c ∈ sortByStart candidates, ∀ s ∈ c.statements, P s := fun c hm =>
    h c (List.mem_mergeSort.1 hm)
  rw [mergeCandidates]
  split
  · exact fun c hc => nomatch hc
  · next first rest heq =>
      rw [heq] at hsort
      exact forall_statements_of_mem_sweep hsort

end Candidate

/-! ## Scans -/

theorem denotedIn_of_mem_scopeCandidates {settings : Settings} {classifier : Classifier}
    {scopes : List (List Token)} {found : List Candidate}
    (h : scopeCandidates settings classifier scopes = .ok found) :
    ∀ c ∈ found, ∀ s ∈ c.statements, CodePoint.surrogate o ∈ s →
      ∃ scope ∈ scopes, DenotedIn scope (.surrogate o) := by
  induction scopes generalizing found with
  | nil =>
      cases h
      exact List.forall_mem_nil _
  | cons scope rest ih =>
      rw [scopeCandidates] at h
      obtain ⟨s, hrun, h⟩ := ok_of_bind_eq_ok h
      obtain ⟨others, hothers, h⟩ := ok_of_bind_eq_ok h
      cases h
      intro c hc statement hs ho
      rcases List.mem_append.1 hc with hc | hc
      · have hrenders := (FlowContext.accountable_of_run hrun).candidates c hc
        exact ⟨scope, List.mem_cons_self, hrenders.denotedIn hs ho⟩
      · obtain ⟨other, hother, hdenoted⟩ := ih hothers c hc statement hs ho
        exact ⟨other, List.mem_cons_of_mem scope hother, hdenoted⟩

/-- A scan without an error is determined by the candidates of its scopes. -/
theorem scanSource_eq_ok {settings : Settings} {source : String} {tokens : List Token}
    {found : List Candidate} (htokens : tokenize source = .ok tokens)
    (hfound : scopeCandidates settings settings.rules.classifier
      (splitScopes (significant tokens)) = .ok found) (filePath : String) :
    scanSource settings filePath source = .ok
      ⟨filePath, (mergeCandidates settings.separator found).map (.attach (sourceLines source)),
        some (contentHash source), none⟩ := by
  rw [scanSource, htokens]
  show (tokenCandidates settings tokens >>= _) = _
  rw [tokenCandidates, hfound]
  rfl

/-- The candidates of a scan are those of its scopes, merged and with their source lines. -/
theorem candidates_of_scanSource {settings : Settings} {filePath source : String}
    {tokens : List Token} {r : ScanResult} (htokens : tokenize source = .ok tokens)
    (h : scanSource settings filePath source = .ok r) :
    ∃ found, scopeCandidates settings settings.rules.classifier
        (splitScopes (significant tokens)) = .ok found ∧
      r.candidates =
        (mergeCandidates settings.separator found).map (.attach (sourceLines source)) := by
  rw [scanSource, htokens] at h
  obtain ⟨merged, hmerged, h⟩ := ok_of_bind_eq_ok h
  obtain ⟨found, hfound, hmerged⟩ := ok_of_bind_eq_ok hmerged
  cases hmerged
  cases h
  exact ⟨found, hfound, rfl⟩

/-- A surrogate in the text of a candidate stands in the value of a literal of the source, or in the
separator. -/
theorem surrogate_of_mem_scanSource {settings : Settings} {filePath source : String}
    {tokens : List Token} {r : ScanResult} (htokens : tokenize source = .ok tokens)
    (h : scanSource settings filePath source = .ok r) {c : Candidate} (hc : c ∈ r.candidates)
    (ho : CodePoint.surrogate o ∈ c.text) :
    DenotedIn tokens (.surrogate o) ∨ CodePoint.surrogate o ∈ settings.separator := by
  have hjoined : c.text = List.intercalate settings.separator c.statements :=
    isJoined_of_mem_scanSource h c hc
  rw [hjoined] at ho
  refine (Candidate.mem_of_mem_intercalate ho).symm.imp_left ?_
  rintro ⟨statement, hs, hos⟩
  obtain ⟨found, hfound, hcandidates⟩ := candidates_of_scanSource htokens h
  rw [hcandidates] at hc
  obtain ⟨d, hd, rfl⟩ := List.mem_map.1 hc
  have hdenoted : ∀ c ∈ found, ∀ s ∈ c.statements, CodePoint.surrogate o ∈ s →
      DenotedIn tokens (.surrogate o) := by
    intro c hc s hs hos
    obtain ⟨scope, hscope, hdenoted⟩ := denotedIn_of_mem_scopeCandidates hfound c hc s hs hos
    have hsub : scope.Sublist tokens :=
      (sublist_of_mem_splitScopes hscope).trans List.filter_sublist
    exact hdenoted.mono hsub.subset
  exact Candidate.forall_statements_of_mem_mergeCandidates hdenoted d hd statement hs hos

end EmbeddedSql
