/-
# Code on other lines and with other literals

How code is laid out does not depend on the lines it stands on, nor on what its literals say: where
groups end, how far a stretch of code goes, which calls stand around a token and whether a statement
can begin at a place are decided by the other tokens.  So all of this is the same for two codes that
differ in their lines and in the texts of literals only, as long as none of these texts is empty or a
zero, the one number that is looked for.
-/
import EmbeddedSql.Flow.Loose
import EmbeddedSql.Scope.Split

namespace EmbeddedSql

/-- Is the token one that denotes a value by its quotes? -/
def Token.isLiteral (t : Token) : Bool := t.isString || t.isCharLiteral

/-- A change of tokens that touches their lines and the texts of literals only. -/
structure Retouching (φ : Token → Token) : Prop where
  kind : ∀ t, (φ t).kind = t.kind
  isCharLiteral : ∀ t, (φ t).isCharLiteral = t.isCharLiteral
  text : ∀ t, t.isLiteral = false → (φ t).text = t.text
  shown : ∀ t, (φ t).text = t.text ∨ t.text ∉ ["", "0"] ∧ (φ t).text ∉ ["", "0"]

namespace Retouching

variable {φ : Token → Token} (h : Retouching φ) (t : Token)
include h

/-! ## Single tokens -/

theorem of_kind (hs : t.kind ≠ .stringLiteral) (ho : t.kind ≠ .other) : (φ t).text = t.text := by
  apply h.text
  simp [Token.isLiteral, Token.isString, Token.isCharLiteral, hs, ho]

/-- A test of the text that only tokens of a certain kind pass, which is not one of literals. -/
theorem test {k : TokenKind} (hs : k ≠ .stringLiteral) (ho : k ≠ .other) (p : String → Bool) :
    ((φ t).kind == k && p (φ t).text) = (t.kind == k && p t.text) := by
  rw [h.kind]
  by_cases hk : t.kind = k
  · rw [h.of_kind t (hk ▸ hs) (hk ▸ ho)]
  · rw [beq_false_of_ne hk, Bool.false_and, Bool.false_and]

@[simp]
theorem isPunct (text : String) : (φ t).isPunct text = t.isPunct text :=
  h.test t (by decide) (by decide) (· == text)

@[simp]
theorem isOp (text : String) : (φ t).isOp text = t.isOp text :=
  h.test t (by decide) (by decide) (· == text)

@[simp]
theorem isIdent : (φ t).isIdent = t.isIdent := by
  rw [Token.isIdent, Token.isIdent, h.kind]

@[simp]
theorem isString : (φ t).isString = t.isString := by
  rw [Token.isString, Token.isString, h.kind]

theorem of_isIdent {t : Token} (ht : t.isIdent) : (φ t).text = t.text := by
  have hk : t.kind = .identifier := by simpa [Token.isIdent] using ht
  exact h.of_kind t (by simp [hk]) (by simp [hk])

/-- A test of the text of a word. -/
theorem word (p : String → Bool) : ((φ t).isIdent && p (φ t).text) = (t.isIdent && p t.text) :=
  h.test t (by decide) (by decide) p

@[simp]
theorem opens? : (φ t).opens? = t.opens? := by
  simp [Token.opens?, h.isPunct]

@[simp]
theorem closes? : (φ t).closes? = t.closes? := by
  simp [Token.closes?, h.isPunct]

omit h in
theorem not_startsDigit {t : Token} (ht : t.isCharLiteral) :
    t.text.toList.head?.any isDigit = false := by
  simp only [Token.isCharLiteral, Bool.and_eq_true, beq_iff_eq] at ht
  rw [ht.2]
  decide

/-- A test for numbers. -/
theorem startsDigit : ((φ t).kind == .other && (φ t).text.toList.head?.any isDigit)
    = (t.kind == .other && t.text.toList.head?.any isDigit) := by
  by_cases hc : t.isCharLiteral
  · rw [not_startsDigit hc, not_startsDigit (h.isCharLiteral t ▸ hc), Bool.and_false,
      Bool.and_false]
  · by_cases hs : t.isString
    · have hk : t.kind = .stringLiteral := by simpa [Token.isString] using hs
      rw [h.kind, hk]
      rfl
    · rw [h.kind, h.text t (by simp [Token.isLiteral, hc, hs])]

theorem distance? (own : Bracket) (inner : List Bracket) (tokens : List Token) :
    own.distance? inner (tokens.map φ) = own.distance? inner tokens := by
  induction tokens generalizing inner with
  | nil => rfl
  | cons t rest ih =>
      rw [List.map_cons, Bracket.distance?, Bracket.distance?, h.opens?, h.closes?]
      simp only [ih]

end Retouching

/-! ## Scopes -/

namespace Retouching

variable {φ : Token → Token} (h : Retouching φ)
include h

theorem significant (tokens : List Token) :
    EmbeddedSql.significant (tokens.map φ) = (EmbeddedSql.significant tokens).map φ := by
  unfold EmbeddedSql.significant
  rw [List.filter_map]
  simp only [Function.comp_def, h.kind]

theorem endsThrows (before : List Token) :
    Scope.endsThrows (before.map φ) = Scope.endsThrows before := by
  induction before with
  | nil => rfl
  | cons t before ih =>
      rw [List.map_cons, Scope.endsThrows, Scope.endsThrows, h.isIdent, h.isPunct, h.isPunct, ih]
      by_cases ht : t.isIdent
      · rw [h.of_isIdent ht]
      · rw [if_neg ht, if_neg ht]

theorem opensBody (before : List Token) (depth : Int) :
    Scope.opensBody (before.map φ) depth = Scope.opensBody before depth := by
  cases before with
  | nil => rfl
  | cons t before =>
      have he := h.endsThrows (t :: before)
      rw [List.map_cons] at he ⊢
      rw [Scope.opensBody, Scope.opensBody, he]
      simp only [h.isPunct, h.isOp, h.isIdent]
      by_cases ht : t.isIdent
      · rw [h.of_isIdent ht]
      · simp only [ht, Bool.not_false, if_true]

theorem bodyLength (level : Nat) (tokens : List Token) :
    Scope.bodyLength level (tokens.map φ) = Scope.bodyLength level tokens := by
  induction tokens generalizing level with
  | nil => rfl
  | cons t rest ih =>
      simp only [List.map_cons, Scope.bodyLength, h.isPunct, ih]

theorem splitFrom (before : List Token) (depth : Int) (tokens : List Token) :
    Scope.splitFrom (before.map φ) depth (tokens.map φ) =
      ((Scope.splitFrom before depth tokens).1.map (List.map φ),
        (Scope.splitFrom before depth tokens).2.map φ) := by
  cases tokens with
  | nil => simp only [List.map_nil, Scope.splitFrom]
  | cons t rest =>
      have ih₁ (before depth n) := splitFrom before depth (rest.drop n)
      have ih₂ (before depth) := splitFrom before depth rest
      rw [List.map_cons, Scope.splitFrom, Scope.splitFrom]
      simp only [h.isPunct, h.opensBody, h.bodyLength, ← List.map_take, ← List.map_drop,
        ← List.map_reverse, ← List.map_cons, ← List.map_append, ih₁, ih₂]
      split <;> rfl
termination_by tokens.length
decreasing_by
  · simp only [List.length_drop, List.length_cons]; omega
  · simp

theorem splitScopes (tokens : List Token) :
    EmbeddedSql.splitScopes (tokens.map φ) = (EmbeddedSql.splitScopes tokens).map (List.map φ) := by
  have hs := h.splitFrom [] 0 tokens
  rw [List.map_nil] at hs
  unfold EmbeddedSql.splitScopes
  rw [hs]
  obtain ⟨bodies, members⟩ := Scope.splitFrom [] 0 tokens
  dsimp only
  rw [← List.map_singleton, ← List.map_append, List.filter_map]
  simp only [Function.comp_def, List.isEmpty_map]

end Retouching

/-! ## A zero on its own -/

theorem infix_joinTexts {t : Token} {tokens : List Token} (ht : t ∈ tokens)
    (last : Option Char) : t.text.toList <:+: joinTexts last tokens := by
  induction tokens generalizing last with
  | nil => cases ht
  | cons u rest ih =>
      rw [joinTexts]
      rcases List.mem_cons.1 ht with rfl | ht
      · exact ⟨_, _, rfl⟩
      · exact (ih ht _).trans (List.suffix_append _ _).isInfix

/-- Tokens that together make up a zero have no other texts. -/
theorem text_of_joinTexts {t : Token} {tokens : List Token} {last : Option Char}
    (hz : joinTexts last tokens = ['0']) (ht : t ∈ tokens) : t.text ∈ ["", "0"] := by
  have hi := infix_joinTexts ht last
  rw [hz, List.infix_cons_iff, List.infix_nil] at hi
  rcases hi with hp | hn
  · rcases List.prefix_cons_iff.1 hp with hn | ⟨l, hl, hp⟩
    · simp [← String.toList_eq_nil_iff, hn]
    · rw [List.prefix_nil.1 hp] at hl
      simp [String.ext_iff, hl]
  · simp [← String.toList_eq_nil_iff, hn]

/-- Only the texts of tokens are put together. -/
theorem joinTexts_map {φ : Token → Token} {tokens : List Token}
    (h : ∀ t ∈ tokens, (φ t).text = t.text) (last : Option Char) :
    joinTexts last (tokens.map φ) = joinTexts last tokens := by
  induction tokens generalizing last with
  | nil => rfl
  | cons t rest ih =>
      obtain ⟨ht, hrest⟩ := List.forall_mem_cons.1 h
      rw [List.map_cons, joinTexts, joinTexts, ht, ih hrest]

theorem Retouching.joinTexts_eq_zero {φ : Token → Token} (h : Retouching φ)
    {last : Option Char} {tokens : List Token} :
    joinTexts last (tokens.map φ) = ['0'] ↔ joinTexts last tokens = ['0'] := by
  by_cases hφ : ∀ t ∈ tokens, (φ t).text = t.text
  · rw [joinTexts_map hφ]
  · obtain ⟨t, ht, hne⟩ : ∃ t ∈ tokens, (φ t).text ≠ t.text := by simpa using hφ
    obtain ⟨ho, hn⟩ := (h.shown t).resolve_left hne
    refine ⟨fun hz => ?_, fun hz => ?_⟩
    · exact absurd (text_of_joinTexts hz (List.mem_map_of_mem ht)) hn
    · exact absurd (text_of_joinTexts hz ht) ho

/-- The second code is the first one on other lines and with other literals. -/
structure Brackets.Retouched (φ : Token → Token) (b b' : Brackets) : Prop where
  change : Retouching φ
  tokens : b'.tokens = b.tokens.map φ

namespace Brackets.Retouched

variable {φ : Token → Token} {b b' : Brackets} (h : Retouched φ b b')
include h

/-! ## Places -/

theorem size : b'.size = b.size := by
  simp [Brackets.size, h.tokens]

theorem token? (i : Nat) : b'.token? i = (b.token? i).map φ := by
  simp [Brackets.token?, h.tokens]

theorem tokenBefore? (i n : Nat) : b'.tokenBefore? i n = (b.tokenBefore? i n).map φ := by
  unfold Brackets.tokenBefore?
  split
  · simp [h.tokens]
  · rfl

theorem getElem {i : Nat} (hi : i < b.size) (hi' : i < b'.size) :
    b'.tokens[i] = φ b.tokens[i] := by
  simp only [h.tokens, Array.getElem_map]

theorem slice (start stop : Nat) : b'.slice start stop = (b.slice start stop).map φ := by
  simp [Brackets.slice, h.tokens]

theorem closer? (i : Nat) : b'.closer? i = b.closer? i := by
  rw [closer?_eq, closer?_eq, h.token?, h.tokens, Array.toList_map]
  cases b.token? i with
  | none => rfl
  | some t => simp only [Option.map_some, Option.bind_some, h.change.opens?, ← List.map_drop,
      h.change.distance?]

theorem opener? (j : Nat) : b'.opener? j = b.opener? j := by
  simp only [Brackets.opener?, h.closer?]

/-- A test that the change of a token does not affect. -/
theorem any_token? {p : Token → Bool} (hp : ∀ t, p (φ t) = p t) (i : Nat) :
    (b'.token? i).any p = (b.token? i).any p := by
  rw [h.token?]
  cases b.token? i with
  | none => rfl
  | some t => exact hp t

theorem any_tokenBefore? {p : Token → Bool} (hp : ∀ t, p (φ t) = p t) (i n : Nat) :
    (b'.tokenBefore? i n).any p = (b.tokenBefore? i n).any p := by
  rw [h.tokenBefore?]
  cases b.tokenBefore? i n with
  | none => rfl
  | some t => exact hp t

theorem isPunct (i : Nat) (text : String) : b'.isPunct i text = b.isPunct i text :=
  h.any_token? (fun t => h.change.isPunct t text) i

theorem isOp (i : Nat) (text : String) : b'.isOp i text = b.isOp i text :=
  h.any_token? (fun t => h.change.isOp t text) i

theorem isIdent (i : Nat) : b'.isIdent i = b.isIdent i :=
  h.any_token? h.change.isIdent i

theorem isWord (i : Nat) (text : String) : b'.isWord i text = b.isWord i text :=
  h.any_token? (fun t => h.change.word t (· == text)) i

theorem isWordIn (i : Nat) (words : List String) : b'.isWordIn i words = b.isWordIn i words :=
  h.any_token? (fun t => h.change.word t (words.contains ·)) i

theorem afterDot (i : Nat) : b'.afterDot i = b.afterDot i :=
  h.any_tokenBefore? (fun t => h.change.isPunct t ".") i 1

/-! ## Stretches of code -/

theorem skipGroup (i : Nat) : b'.skipGroup i = b.skipGroup i := by
  rw [Brackets.skipGroup, Brackets.skipGroup, h.closer?, h.size]

theorem skipPostfix (i : Nat) : b'.skipPostfix i = b.skipPostfix i := by
  rw [Brackets.skipPostfix, Brackets.skipPostfix.eq_def b]
  by_cases hi : i < b.size
  · have hg := lt_skipGroup hi
    rw [dif_pos hi, dif_pos (h.size.symm ▸ hi)]
    simp only [h.getElem hi, h.change.isPunct, h.change.isOp, h.isIdent, h.skipGroup]
    rw [skipPostfix (i + 2), skipPostfix (b.skipGroup i)]
  · rw [dif_neg hi, dif_neg (h.size.symm ▸ hi)]
termination_by b.size - i

theorem skipGroups (i : Nat) : b'.skipGroups i = b.skipGroups i := by
  rw [Brackets.skipGroups, Brackets.skipGroups.eq_def b]
  by_cases hi : i < b.size
  · have hg := lt_skipGroup hi
    rw [dif_pos hi, dif_pos (h.size.symm ▸ hi)]
    simp only [h.getElem hi, h.change.isPunct, h.skipGroup]
    rw [skipGroups (b.skipGroup i)]
  · rw [dif_neg hi, dif_neg (h.size.symm ▸ hi)]
termination_by b.size - i

theorem typeEnd (depth : Int) (i : Nat) : b'.typeEnd depth i = b.typeEnd depth i := by
  rw [Brackets.typeEnd, Brackets.typeEnd.eq_def b]
  by_cases hi : i < b.size
  · have ih := fun depth => typeEnd depth (i + 1)
    rw [dif_pos hi, dif_pos (h.size.symm ▸ hi)]
    simp only [h.getElem hi, h.change.isPunct, h.change.isOp, h.change.isIdent, ih]
  · rw [dif_neg hi, dif_neg (h.size.symm ▸ hi)]
termination_by b.size - i

theorem skipNew (i : Nat) : b'.skipNew i = b.skipNew i := by
  simp only [Brackets.skipNew, h.typeEnd, h.skipGroups, h.isPunct, h.skipGroup, h.skipPostfix]

theorem skipToStop (stops : List String) (i : Nat) :
    b'.skipToStop stops i = b.skipToStop stops i := by
  have stop : ∀ t, ((φ t).kind == .punctuation && stops.contains (φ t).text)
      = (t.kind == .punctuation && stops.contains t.text) := fun t =>
    h.change.test t (by decide) (by decide) (stops.contains ·)
  rw [Brackets.skipToStop, Brackets.skipToStop.eq_def b]
  by_cases hi : i < b.size
  · have hg := lt_skipGroup hi
    rw [dif_pos hi, dif_pos (h.size.symm ▸ hi)]
    simp only [h.getElem hi, stop, h.change.opens?, h.change.closes?, h.skipGroup]
    rw [skipToStop stops (b.skipGroup i), skipToStop stops (i + 1)]
  · rw [dif_neg hi, dif_neg (h.size.symm ▸ hi)]
termination_by b.size - i

/-! ## Calls -/

theorem receiverPath (n : Nat) (path : List String) :
    b'.receiverPath n path = b.receiverPath n path := by
  rw [Brackets.receiverPath, Brackets.receiverPath.eq_def b]
  by_cases hn : 2 ≤ n
  · rw [if_pos hn, if_pos hn, h.isPunct, h.token?]
    cases b.token? (n - 2) with
    | none => rfl
    | some link =>
        dsimp only [Option.map_some]
        rw [h.change.isIdent, h.change.isPunct, h.opener?]
        by_cases hl : link.isIdent
        · rw [if_pos hl, if_pos hl, h.change.of_isIdent hl, receiverPath (n - 2)]
        · rw [if_neg hl, if_neg hl]
          cases b.opener? (n - 2) with
          | none => rfl
          | some o =>
              have ho := o.isLt
              dsimp only
              rw [h.tokenBefore?]
              cases b.tokenBefore? o 1 with
              | none => rfl
              | some callee =>
                  dsimp only [Option.map_some]
                  rw [h.change.isIdent]
                  by_cases hc : callee.isIdent
                  · rw [if_pos hc, if_pos hc, h.change.of_isIdent hc, receiverPath (o - 1)]
                  · rw [if_neg hc, if_neg hc]
  · rw [if_neg hn, if_neg hn]
termination_by n

theorem callAt (i : Nat) : b'.callAt i = b.callAt i := by
  unfold Brackets.callAt
  rw [h.any_tokenBefore? (fun t => h.change.word t (· == "new")),
    h.any_tokenBefore? (fun t => h.change.isPunct t "@"), h.tokenBefore?, h.receiverPath]
  cases b.tokenBefore? i 1 with
  | none => rfl
  | some name =>
      dsimp only [Option.map_some]
      rw [h.change.isIdent]
      by_cases hn : name.isIdent
      · rw [h.change.of_isIdent hn]
      · simp [hn]

theorem framesFrom (classifier : Classifier) (i : Nat) (around : List Frame)
    (tokens : List Token) :
    b'.framesFrom classifier i around (tokens.map φ) = b.framesFrom classifier i around tokens := by
  have hf (i : Nat) : b'.frameAt classifier i = b.frameAt classifier i := by
    simp only [Brackets.frameAt, h.callAt, h.closer?, h.size]
  induction tokens generalizing i around with
  | nil => rfl
  | cons t rest ih =>
      rw [List.map_cons, Brackets.framesFrom, Brackets.framesFrom]
      simp only [h.change.isPunct, hf, ih]

/-! ## Statement boundaries -/

theorem dottedStart (n : Nat) : b'.dottedStart n = b.dottedStart n := by
  rw [Brackets.dottedStart, Brackets.dottedStart.eq_def b,
    h.any_tokenBefore? (fun t => h.change.isPunct t "."), h.any_tokenBefore? h.change.isIdent]
  by_cases hn : 3 ≤ n
  · rw [dif_pos hn, dif_pos hn, dottedStart (n - 2)]
  · rw [dif_neg hn, dif_neg hn]
termination_by n

theorem beforeArguments (n : Nat) : b'.beforeArguments n = b.beforeArguments n := by
  unfold Brackets.beforeArguments
  rw [h.any_tokenBefore? (fun t => h.change.isPunct t ")"), h.opener?]

theorem annotationStart (n : Nat) : b'.annotationStart n = b.annotationStart n := by
  have sign (m : Nat) : (b'.tokenBefore? m 1).any (·.isPunct "@")
      = (b.tokenBefore? m 1).any (·.isPunct "@") :=
    h.any_tokenBefore? (fun t => h.change.isPunct t "@") m 1
  rw [Brackets.annotationStart, Brackets.annotationStart.eq_def b]
  simp only [h.beforeArguments, h.dottedStart, h.any_tokenBefore? h.change.isIdent, sign]
  split
  · next hn =>
      have h₁ := b.beforeArguments_le n
      have h₂ := b.dottedStart_lt hn.2
      rw [annotationStart (b.dottedStart (b.beforeArguments n) - 1)]
  · rfl
termination_by n

theorem atBoundary (i : Nat) : b'.atBoundary i = b.atBoundary i := by
  unfold Brackets.atBoundary
  rw [h.tokenBefore?]
  cases b.tokenBefore? i 1 with
  | none => rfl
  | some t =>
      dsimp only [Option.map_some]
      rw [h.change.kind]
      cases hk : t.kind with
      | identifier | operator | punctuation =>
          rw [h.change.of_kind t (by simp [hk]) (by simp [hk])]
      | _ => rfl

theorem atDeclarationBoundary (i : Nat) :
    b'.atDeclarationBoundary i = b.atDeclarationBoundary i := by
  unfold Brackets.atDeclarationBoundary
  dsimp only
  rw [h.annotationStart, h.atBoundary,
    h.any_tokenBefore? (fun t => h.change.word t (modifierWords.contains ·))]

theorem endsDeclarator (i : Nat) : b'.endsDeclarator i = b.endsDeclarator i := by
  simp only [Brackets.endsDeclarator, h.isOp, h.isPunct]

/-! ## Expressions -/

theorem isCast (start stop : Nat) : b'.isCast start stop = b.isCast start stop := by
  have follows (t : Token) : followsCast (φ t) = followsCast t := by
    simp only [followsCast, h.change.isString, h.change.isIdent, h.change.isPunct]
  have type (t : Token) : isTypeToken (φ t) = isTypeToken t := by
    simp only [isTypeToken, h.change.isIdent, h.change.isPunct]
  unfold Brackets.isCast
  rw [h.any_token? follows, h.slice, List.all_map]
  exact congrArg (_ && List.all _ ·) (funext type)

theorem isToString (i stop : Nat) : b'.isToString i stop = b.isToString i stop := by
  simp only [Brackets.isToString, h.isPunct, h.isWord]

theorem sourceText_eq_zero (start stop : Nat) :
    (b'.sourceText start stop == "0") = (b.sourceText start stop == "0") := by
  unfold Brackets.sourceText
  rw [h.slice, Bool.eq_iff_iff, beq_iff_eq, beq_iff_eq, String.ext_iff, String.ext_iff]
  simp only [String.toList_ofList]
  exact h.change.joinTexts_eq_zero

/-- Where all texts are kept, so is the source text. -/
theorem sourceText (htext : ∀ t, (φ t).text = t.text) (start stop : Nat) :
    b'.sourceText start stop = b.sourceText start stop := by
  rw [Brackets.sourceText, Brackets.sourceText, h.slice, joinTexts_map fun t _ => htext t]

theorem pullIn (lower start : Nat) : b'.pullIn lower start = b.pullIn lower start := by
  rw [Brackets.pullIn, Brackets.pullIn.eq_def b, h.isOp, h.isIdent, h.isWordIn, h.afterDot]
  by_cases hl : lower + 2 ≤ start
  · rw [dif_pos hl, dif_pos hl, pullIn lower (start - 2)]
  · rw [dif_neg hl, dif_neg hl]
termination_by start

end Brackets.Retouched

/-! ## Code from tokens -/

namespace Retouching

variable {φ : Token → Token} (h : Retouching φ)
include h

theorem brackets (tokens : List Token) :
    Brackets.Retouched φ (.ofTokens tokens) (.ofTokens (tokens.map φ)) :=
  ⟨h, by simp [Brackets.ofTokens]⟩

/-- The calls around tokens are the same. -/
theorem frames (classifier : Classifier) (tokens : List Token) :
    (Scope.ofTokens classifier (tokens.map φ)).frames = (Scope.ofTokens classifier tokens).frames :=
  congrArg List.toArray ((h.brackets tokens).framesFrom classifier 0 [] tokens)

end Retouching

end EmbeddedSql
