/-
# When the scan of a source completes

A source that cannot be cut into tokens has a result that says so, and any other source has a result
without an error, unless one of its literals stops the scan.  Such a literal is *faulty*: it was
accepted when the source was cut, but denotes nothing, as a string that holds `\8`.  Not every faulty
literal stops the scan, because not every literal is looked at: one that is skipped with the code
around it does no harm.  The ones that do are told apart by mending the others: a literal *blocks* its
source if the source cannot be scanned even when every other faulty literal is replaced by an empty
one.  A scan completes exactly if no literal of the source blocks it.

All this is said of scans with room for any number of nested calls, which is a condition of it.  With room for
so many, following a scope gives the same or comes too deep, whatever its literals are
(`FlowContext.run_limits`), and then the scan stops for that.

To mend literals is to follow two scopes side by side that differ in the texts of literals only, the first
as it is and the second with some of its faulty literals mended: `Mends w` allows every change of a literal
that denotes nothing and does not read `w`.  What variables hold may differ then, and with it which of them
are reported, but never how many fragments they hold, and no decision depends on more than that.  So the two
go the same way until the first one meets a mended literal (`Mends.abreast`).  In particular the second one
fails only if the first one does, and it fails if the first one stops at a literal that reads `w`.
-/
import EmbeddedSql.Proofs.Flow.Alongside
import EmbeddedSql.Scan.Source

namespace EmbeddedSql

/-! ## The same scope with other literals -/

section Relettering

/-- A change of tokens that touches the texts of literals only. -/
structure Relettering (φ : Token → Token) : Prop extends Retouching φ where
  startLine : ∀ t, (φ t).startLine = t.startLine
  endLine : ∀ t, (φ t).endLine = t.endLine

/-- A change of literals that mends faulty ones, but not those that read `w`. -/
structure Mends (w : String) (φ : Token → Token) : Prop extends Relettering φ where
  mended : ∀ t, φ t = t ∨
    t.text ≠ w ∧ (∃ e, Literal.value t.text = .error e) ∧ ∃ v, Literal.value (φ t).text = .ok v

/-- What is read and reported may differ in any way, and both may stop for different reasons.  Literals
other than `w` may stop the first one alone. -/
def Leeway.mending (w : String) (φ : Token → Token) : Leeway where
  token := φ
  lines := 0
  fragment _ _ := True
  found _ _ := True
  both _ _ := True
  first e := ∃ l, e = .literal l ∧ l.text ≠ w
  found_nil := trivial
  found_append _ _ := trivial
  both_of_first _ _ := trivial
  both_refl _ := trivial

variable {w : String} {φ : Token → Token}

theorem Alongside.of_exists {α β : Type} {o : Except FlowError α} {o' : Except FlowError β}
    (ho : ∃ a, o = .ok a) (ho' : ∃ a, o' = .ok a) :
    Alongside (.mending w φ) (fun _ _ => True) o o' := by
  obtain ⟨a, rfl⟩ := ho
  obtain ⟨a', rfl⟩ := ho'
  trivial

theorem FlowContext.Shows.exists_ok {α : Type} {cx : FlowContext} {o : Except FlowError α}
    (h : cx.Shows o) (hp : cx.placeholder.text = standardPlaceholder) : ∃ a, o = .ok a := by
  cases o with
  | ok a => exact ⟨a, rfl⟩
  | error e =>
      obtain ⟨he⟩ : cx.Unshown e := h
      rw [Placeholder.render_standard hp] at he
      cases he

namespace Mends

variable (h : Mends w φ)
include h

theorem value (t : Token) :
    Alongside (.mending w φ) (fun _ _ => True) t.value (φ t).value := by
  rcases h.mended t with heq | ⟨hw, ⟨e, he⟩, v, hv⟩
  · rw [heq]
    cases t.value <;> trivial
  · have hfirst : (Leeway.mending w φ).first (.literal ⟨t.text, e⟩) := ⟨_, rfl, hw⟩
    rw [Token.value, he]
    exact Alongside.stopped hfirst _

theorem code (scope : List Token) :
    Brackets.Abreast (.mending w φ) (.ofTokens scope) (.ofTokens (scope.map φ)) :=
  { h.brackets scope with
    startLine := h.startLine
    endLine := h.endLine
    value := fun t _ => h.value t
    number := fun _ _ => trivial
    unknown := fun _ _ _ => trivial }

/-- With the standard placeholder reports always succeed. -/
theorem abreast (rules : RuleSet) (classifier : Classifier) (scope : List Token) :
    FlowContext.Abreast (.mending w φ) (.ofTokens rules classifier standardPlaceholder scope)
      (.ofTokens rules classifier standardPlaceholder (scope.map φ)) where
  code := h.code scope
  frames := h.frames classifier scope
  rules := rfl
  expression _ _ := FlowContext.expression_alongside (h.code scope) rfl rfl
  reportOf v v' _ := by
    have shown (scope : List Token) (v : Variable) :=
      ((FlowContext.ofTokens rules classifier standardPlaceholder scope).reportOf_shows v).exists_ok
        rfl
    exact .of_exists (shown _ v) (shown _ v')
  looseCandidates start i stop fs fs' hs hstop _ := by
    have hsize := ((h.brackets scope).size :)
    refine .of_exists ?_ ?_
    · exact (FlowContext.looseCandidates_shows hs hstop).exists_ok rfl
    · exact (FlowContext.looseCandidates_shows (hsize.symm ▸ hs) (hsize.symm ▸ hstop)).exists_ok rfl

end Mends

end Relettering

/-! ## Faulty literals -/

namespace Token

/-- Does the token denote nothing although it is a literal? -/
def isFaulty (t : Token) : Bool := t.isLiteral && !(Literal.value t.text).isOk

/-- An empty literal in the place of this one. -/
def mend (t : Token) : Token := { t with text := if t.isString then "\"\"" else "\'\'" }

/-- Faulty literals are mended, but for those that read `w`. -/
def mendBut (w : String) (t : Token) : Token :=
  if t.isFaulty && t.text != w then t.mend else t

theorem exists_of_isFaulty {t : Token} (h : t.isFaulty) :
    ∃ e, Literal.value t.text = .error e := by
  rw [isFaulty, Bool.and_eq_true] at h
  cases hv : Literal.value t.text with
  | error e => exact ⟨e, rfl⟩
  | ok v => rw [hv] at h; cases h.2

theorem text_of_isFaulty {t : Token} (h : t.isFaulty) : t.text ∉ ["", "0"] := by
  obtain ⟨e, he⟩ := exists_of_isFaulty h
  intro hm
  simp only [List.mem_cons, List.not_mem_nil, or_false] at hm
  rcases hm with ht | ht <;> rw [ht] at he <;>
    simp [Literal.value, Literal.isTextBlock, Literal.decode] at he

theorem value_mend (t : Token) : Literal.value t.mend.text = .ok [] := by
  unfold mend
  dsimp only
  split <;> simp [Literal.value, Literal.isTextBlock, Literal.decode]

theorem isCharLiteral_mend {t : Token} (h : t.isLiteral) :
    t.mend.isCharLiteral = t.isCharLiteral := by
  by_cases hs : t.isString
  · have hk : t.kind = .stringLiteral := by simpa [isString] using hs
    simp only [isCharLiteral, mend, hk]
    rfl
  · have hc : t.isCharLiteral := by simpa [isLiteral, hs] using h
    have hk : t.kind = .other := by
      rw [isCharLiteral, Bool.and_eq_true, beq_iff_eq] at hc
      exact hc.1
    rw [hc]
    simp [isCharLiteral, mend, hs, hk]

theorem mendBut_mends (w : String) : Mends w (mendBut w) where
  kind t := by unfold mendBut; split <;> rfl
  startLine t := by unfold mendBut; split <;> rfl
  endLine t := by unfold mendBut; split <;> rfl
  isCharLiteral t := by
    unfold mendBut
    split
    · next h =>
        rw [Bool.and_eq_true, isFaulty, Bool.and_eq_true] at h
        exact isCharLiteral_mend h.1.1
    · rfl
  text t ht := by
    simp only [mendBut, isFaulty, ht, Bool.false_and, Bool.false_eq_true, if_false]
  shown t := by
    unfold mendBut
    split
    · next h =>
        rw [Bool.and_eq_true] at h
        refine .inr ⟨text_of_isFaulty h.1, ?_⟩
        unfold mend
        dsimp only
        split <;> decide
    · exact .inl rfl
  mended t := by
    unfold mendBut
    split
    · next h =>
        rw [Bool.and_eq_true, bne_iff_ne] at h
        exact .inr ⟨h.2, exists_of_isFaulty h.1, [], value_mend t⟩
    · exact .inl rfl

end Token

/-! ## All scopes of a source -/

theorem tokenCandidates_alongside {w : String} {φ : Token → Token} (h : Mends w φ)
    (tokens : List Token) :
    Alongside (.mending w φ) (fun _ _ => True) (tokenCandidates .standard tokens)
      (tokenCandidates .standard (tokens.map φ)) := by
  unfold tokenCandidates
  rw [h.significant, h.splitScopes]
  exact (scopeCandidates_alongside (h.abreast _ _) _).bind fun _ _ _ => trivial

/-- A failure names a faulty literal. -/
inductive Faults (tokens : List Token) : FlowError → Prop
  | intro {t : Token} {r : LiteralError} : t ∈ tokens → t.isLiteral →
      Literal.value t.text = .error r → Faults tokens (.literal ⟨t.text, r⟩)

theorem run_faults (rules : RuleSet) (classifier : Classifier) (scope : List Token) :
    Ends (Faults scope) (fun _ => True)
      (FlowContext.ofTokens rules classifier standardPlaceholder scope).run := by
  refine (FlowContext.run_sound _).mono fun e he => ?_
  rcases he with ⟨ht, hl, hv⟩ | ⟨⟨hp⟩⟩ | ⟨⟨hroom⟩⟩
  · exact .intro (List.mem_toArray.1 ht) hl hv
  · rw [Placeholder.render_standard rfl] at hp
    cases hp
  · cases hroom

theorem scopeCandidates_faults {tokens : List Token} {scopes : List (List Token)}
    (h : ∀ scope ∈ scopes, scope ⊆ tokens) :
    Ends (Faults tokens) (fun _ => True)
      (scopeCandidates .standard Settings.standard.rules.classifier scopes) := by
  induction scopes with
  | nil => trivial
  | cons scope rest ih =>
      have hs : ∀ e, Faults scope e → Faults tokens e := by
        rintro _ ⟨ht, hl, hv⟩
        exact .intro (h scope List.mem_cons_self ht) hl hv
      rw [scopeCandidates]
      refine ((run_faults _ _ scope).mono hs).bind fun _ _ => ?_
      exact (ih fun other ho => h other (List.mem_cons_of_mem _ ho)).bind fun _ _ => trivial

theorem tokenCandidates_faults (tokens : List Token) :
    Ends (Faults tokens) (fun _ => True) (tokenCandidates .standard tokens) := by
  unfold tokenCandidates
  refine (scopeCandidates_faults fun scope hs => ?_).bind fun _ _ => trivial
  exact List.Subset.trans (subset_of_mem_splitScopes hs) List.filter_sublist.subset

/-! ## Blocking literals -/

/-- The literal is faulty, and with all other faulty ones mended the tokens still cannot be scanned. -/
def Blocks (tokens : List Token) (t : Token) : Prop :=
  t ∈ tokens ∧ t.isFaulty ∧
    ∃ e, tokenCandidates .standard (tokens.map (Token.mendBut t.text)) = .error e

/-- A literal at which the tokens cannot be scanned blocks them. -/
theorem Blocks.of_error {tokens : List Token} {e : FlowError}
    (h : tokenCandidates .standard tokens = .error e) :
    ∃ t r, Blocks tokens t ∧ Literal.value t.text = .error r ∧ e = .literal ⟨t.text, r⟩ := by
  have hc : Faults tokens e := (tokenCandidates_faults tokens).of_error h
  cases hc with
  | @intro t r ht hl hv =>
      have hf : t.isFaulty := by rw [Token.isFaulty, hl, hv]; rfl
      refine ⟨t, r, ⟨ht, hf, ?_⟩, hv, rfl⟩
      have ha := tokenCandidates_alongside (Token.mendBut_mends t.text) tokens
      rw [h] at ha
      cases hm : tokenCandidates .standard (tokens.map (Token.mendBut t.text)) with
      | error e' => exact ⟨e', rfl⟩
      | ok found =>
          rw [hm] at ha
          obtain ⟨l, hl, hne⟩ := ha
          cases hl
          exact absurd rfl hne

/-- Tokens that are blocked cannot be scanned. -/
theorem Blocks.exists_error {tokens : List Token} {t : Token} (h : Blocks tokens t) :
    ∃ e, tokenCandidates .standard tokens = .error e := by
  obtain ⟨-, -, e', he⟩ := h
  have ha := tokenCandidates_alongside (Token.mendBut_mends t.text) tokens
  rw [he] at ha
  cases ho : tokenCandidates .standard tokens with
  | error e => exact ⟨e, rfl⟩
  | ok found =>
      rw [ho] at ha
      exact ha.elim

example : tokenCandidates .standard [⟨.stringLiteral, "\"\\8\"", 1, 1⟩] =
    .error (.literal ⟨"\"\\8\"", .notOctal '8'⟩) := by
  cbv

/-- With room for any number of nested calls, a scan completes exactly if no literal of the source blocks
it, and then either the source cannot be cut into tokens, which its result says, or the result has no
error.  Otherwise it stops at a literal that blocks it. -/
theorem scanSource_completes_iff (filePath source : String) :
    ((∃ r, scanSource .standard filePath source = .ok r ∧
        (r.error = none ∨
          r.candidates = [] ∧ ∃ e, tokenize source = .error e ∧ r.error = some e.message)) ↔
      ∀ tokens, tokenize source = .ok tokens → ∀ t, ¬ Blocks tokens t) ∧
    ∀ e, scanSource .standard filePath source = .error e →
      ∃ tokens t r, tokenize source = .ok tokens ∧ Blocks tokens t ∧
        Literal.value t.text = .error r ∧ e = .literal ⟨t.text, r⟩ := by
  cases ht : tokenize source with
  | error e =>
      have hs : scanSource .standard filePath source
          = .ok ⟨filePath, [], some (contentHash source), some e.message⟩ := by
        rw [scanSource, ht]
      rw [hs]
      refine ⟨⟨fun _ => ?_, fun _ => ⟨_, rfl, .inr ⟨rfl, e, rfl, rfl⟩⟩⟩, ?_⟩
      · rintro tokens ⟨⟩
      · rintro _ ⟨⟩
  | ok tokens =>
      have hs : scanSource .standard filePath source =
          (tokenCandidates .standard tokens).map fun found =>
            ⟨filePath, found.map (Candidate.attach (sourceLines source)),
              some (contentHash source), none⟩ := by
        rw [scanSource, ht]
        rfl
      cases hc : tokenCandidates .standard tokens with
      | ok found =>
          rw [hs, hc]
          refine ⟨⟨?_, fun _ => ⟨_, rfl, .inl rfl⟩⟩, ?_⟩
          · rintro - _ ⟨⟩ t hb
            obtain ⟨e, he⟩ := hb.exists_error
            rw [hc] at he
            cases he
          · rintro _ ⟨⟩
      | error e =>
          obtain ⟨t, r, hb, hv, rfl⟩ := Blocks.of_error hc
          rw [hs, hc]
          refine ⟨⟨?_, fun h => absurd hb (h tokens rfl t)⟩, ?_⟩
          · rintro ⟨r, ⟨⟩, -⟩
          · rintro _ ⟨⟩
            exact ⟨tokens, t, r, rfl, hb, hv, rfl⟩

end EmbeddedSql
