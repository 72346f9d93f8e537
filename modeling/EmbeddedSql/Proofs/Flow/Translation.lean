/-
# The same scope further down

A scope that stands some lines further down is followed in the same way: its variables hold the same
texts, and what is found is the same, as many lines further down (`abreast_down`).  What stops it has no
line, so it is stopped by the same thing.

Merging looks at lines only to compare them, which is why it makes no difference either
(`mergeCandidates_down`).
-/
import EmbeddedSql.Proofs.Flow.Alongside
import EmbeddedSql.Proofs.Token.Locality

namespace EmbeddedSql

variable {n : Nat}

/-- The fragment further down by some lines. -/
def Fragment.down (n : Nat) : Fragment → Fragment
  | literal text line => literal text (line + n)
  | unknown source line => unknown source (line + n)

/-- The candidate further down by some lines. -/
def Candidate.down (n : Nat) (c : Candidate) : Candidate :=
  { c with startLine := c.startLine + n, endLine := c.endLine + n }

/-- Everything is the same, but further down. -/
def Leeway.down (n : Nat) : Leeway where
  token := Token.down n
  lines := n
  fragment f f' := f.down n = f'
  found cs cs' := cs' = cs.map (Candidate.down n)
  both e e' := e' = e
  first _ := False
  found_nil := rfl
  found_append := by
    rintro cs _ ds _ rfl rfl
    exact List.map_append.symm
  both_of_first := False.elim
  both_refl := @Eq.refl FlowError

theorem Alongside.eq_map {α β : Type} {g : α → β} {o : Except FlowError α}
    {o' : Except FlowError β} (h : Alongside (.down n) (fun a b => b = g a) o o') :
    o' = o.map g := by
  cases o <;> cases o'
  · exact congrArg Except.error h
  · exact h.elim
  · exact h.elim
  · exact congrArg Except.ok h

/-! ## Texts -/

theorem Fragment.forall₂_down {fs fs' : List Fragment} :
    fs.Forall₂ (Leeway.down n).fragment fs' ↔ fs.map (Fragment.down n) = fs' := by
  rw [← List.forall₂_eq_eq_eq, List.forall₂_map_left_iff]
  rfl

theorem RuleSet.isStatement_down (rules : RuleSet) (fs : List Fragment) :
    rules.isStatement (fs.map (Fragment.down n)) = rules.isStatement fs := by
  have hliteral (f : Fragment) : (f.down n).literalText = f.literalText := by cases f <;> rfl
  rw [isStatement, isStatement, keywordOf?, keywordOf?, List.flatMap_map]
  simp only [hliteral]

theorem Fragment.renderAll_down (template : Template) (fs : List Fragment) :
    renderAll template (fs.map (Fragment.down n)) = renderAll template fs := by
  have hrender (f : Fragment) : (f.down n).render template = f.render template := by
    cases f <;> rfl
  induction fs with
  | nil => rfl
  | cons f rest ih => rw [List.map_cons, renderAll, renderAll, hrender, ih]

theorem FlowContext.render_down {cx cx' : FlowContext} (h : cx'.placeholder = cx.placeholder)
    (fs : List Fragment) : cx'.render (fs.map (Fragment.down n)) = cx.render fs := by
  rw [render, render, h, Fragment.renderAll_down]

/-! ## Runs -/

theorem Token.retouching_down (n : Nat) : Retouching (Token.down n) where
  kind _ := rfl
  isCharLiteral _ := rfl
  text _ _ := rfl
  shown _ := .inl rfl

theorem Candidate.fresh_down (text : Text) (first last : Nat) (origin : Origin)
    (disposition : Disposition) :
    fresh text ((first + n : Nat) : Int) ((last + n : Nat) : Int) origin disposition =
      (fresh text first last origin disposition).down n := by
  rw [Int.natCast_add, Int.natCast_add]
  rfl

namespace FlowContext

variable {cx cx' : FlowContext}

/-- What a variable shows does not depend on its lines. -/
theorem reportOf_down (hrules : cx'.rules = cx.rules) (hp : cx'.placeholder = cx.placeholder)
    {v v' : Variable} (hv : v.Alike (.down n) v') :
    Alongside (.down n) (Leeway.down n).found (cx.reportOf v) (cx'.reportOf v') := by
  have hfragments : v'.fragments = v.fragments.map (Fragment.down n) :=
    (Fragment.forall₂_down.1 hv.fragments).symm
  have horigin : v'.origin = v.origin := by
    rw [Variable.origin, Variable.origin, hv.kind, hv.length]
  rw [reportOf, reportOf, hrules, hfragments, RuleSet.isStatement_down, render_down hp, horigin,
    hv.firstLine, hv.lastLine]
  split
  · cases cx.render v.fragments with
    | error e => rfl
    | ok text => exact congrArg (fun c => [c]) (Candidate.fresh_down ..)
  · rfl

/-- Neither does what a free-standing expression shows. -/
theorem looseCandidates_down
    (hcode : Brackets.Abreast (.down n) cx.scope.toBrackets cx'.scope.toBrackets)
    (hframes : cx'.scope.frames = cx.scope.frames) (hrules : cx'.rules = cx.rules)
    (hp : cx'.placeholder = cx.placeholder) (start i stop : Nat) (fs : List Fragment) :
    Alongside (.down n) (Leeway.down n).found (cx.looseCandidates start i stop fs)
      (cx'.looseCandidates start i stop (fs.map (Fragment.down n))) := by
  have horigin : cx'.looseOrigin i (fs.map (Fragment.down n)) = cx.looseOrigin i fs := by
    rw [looseOrigin, looseOrigin, Scope.framesAt, Scope.framesAt, hframes, List.length_map]
  rw [looseCandidates, looseCandidates, hrules, RuleSet.isStatement_down, render_down hp, horigin]
  split
  · refine Alongside.bind (R := Eq) (by cases cx.render fs <;> rfl) ?_
    rintro text _ rfl
    refine (hcode.fetch start).bind ?_
    rintro first _ rfl
    refine (hcode.lastLine start stop).bind ?_
    rintro last _ rfl
    exact congrArg (fun c => [c]) (Candidate.fresh_down ..)
  · rfl

theorem code_down (n : Nat) (rules : RuleSet) (classifier : Classifier) (placeholder : Template)
    (scope : List Token) :
    Brackets.Abreast (.down n) (ofTokens rules classifier placeholder scope).scope.toBrackets
      (ofTokens rules classifier placeholder (scope.map (Token.down n))).scope.toBrackets :=
  have hcode := (Token.retouching_down n).brackets scope
  { hcode with
    startLine := fun _ => rfl
    endLine := fun _ => rfl
    value := fun t line => by
      show Alongside _ _ t.value t.value
      cases t.value <;> rfl
    number := fun _ _ => rfl
    unknown := fun start stop line =>
      congrArg (Fragment.unknown · (line + n)) (hcode.sourceText (fun _ => rfl) start stop).symm }

/-- The whole of a scope. -/
theorem abreast_down (n : Nat) (rules : RuleSet) (classifier : Classifier) (placeholder : Template)
    (scope : List Token) :
    Abreast (.down n) (ofTokens rules classifier placeholder scope)
      (ofTokens rules classifier placeholder (scope.map (Token.down n))) where
  code := code_down n rules classifier placeholder scope
  frames := (Token.retouching_down n).frames classifier scope
  rules := rfl
  expression _ _ := expression_alongside (code_down n rules classifier placeholder scope) rfl rfl
  reportOf _ _ hv := reportOf_down rfl rfl hv
  looseCandidates start i stop fs fs' _ _ hf := by
    rw [← Fragment.forall₂_down.1 hf]
    exact looseCandidates_down (code_down ..) ((Token.retouching_down n).frames classifier scope)
      rfl rfl start i stop fs

end FlowContext

/-! ## Merging -/

namespace Candidate

theorem touches_down (c d : Candidate) : (c.down n).touches (d.down n) = c.touches d := by
  refine decide_eq_decide.2 ?_
  simp only [down]
  omega

theorem join_down (separator : Text) (c d : Candidate) :
    (c.down n).join separator (d.down n) = (c.join separator d).down n := by
  have hoverlaps : decide ((d.down n).startLine ≤ (c.down n).endLine) =
      decide (d.startLine ≤ c.endLine) := by
    refine decide_eq_decide.2 ?_
    simp only [down]
    omega
  have hstart : min (c.down n).startLine (d.down n).startLine = min c.startLine d.startLine + n := by
    simp only [down]
    omega
  have hend : max (c.down n).endLine (d.down n).endLine = max c.endLine d.endLine + n := by
    simp only [down]
    omega
  simp only [join, hoverlaps, hstart, hend]
  rfl

theorem sweep_down (separator : Text) (c : Candidate) (rest : List Candidate) :
    sweep separator (c.down n) (rest.map (down n)) = (sweep separator c rest).map (down n) := by
  induction rest generalizing c with
  | nil => rfl
  | cons next rest ih =>
      rw [List.map_cons, sweep, sweep, touches_down, join_down, ih, ih]
      split <;> rfl

end Candidate

theorem sortByStart_down (cs : List Candidate) :
    sortByStart (cs.map (Candidate.down n)) = (sortByStart cs).map (Candidate.down n) := by
  refine (List.map_mergeSort fun a _ b _ => decide_eq_decide.2 ?_).symm
  simp only [Candidate.down]
  omega

/-- Candidates further down are merged in the same way. -/
theorem mergeCandidates_down (separator : Text) (cs : List Candidate) :
    mergeCandidates separator (cs.map (Candidate.down n)) =
      (mergeCandidates separator cs).map (Candidate.down n) := by
  rw [mergeCandidates, mergeCandidates, sortByStart_down]
  cases sortByStart cs with
  | nil => rfl
  | cons first rest => exact Candidate.sweep_down separator first rest

/-- What is found in tokens further down. -/
theorem tokenCandidates_down (settings : Settings) (tokens : List Token) :
    tokenCandidates settings (tokens.map (Token.down n)) =
      (tokenCandidates settings tokens).map (List.map (Candidate.down n)) := by
  have hfound := scopeCandidates_alongside
    (FlowContext.abreast_down n settings.rules settings.rules.classifier settings.template)
    (splitScopes (significant tokens))
  have hchange := Token.retouching_down n
  refine Alongside.eq_map (n := n) ?_
  rw [tokenCandidates, tokenCandidates, hchange.significant, hchange.splitScopes]
  refine hfound.bind ?_
  rintro found _ rfl
  exact mergeCandidates_down settings.separator found

end EmbeddedSql
