/-
# Straight-line code in its place

Statements stand in a scope from a place on (`Reads`), and what the scope looks like there follows
from their lexemes alone: which token is at a place and where a group of parentheses ends.

The only parentheses are those of constructions and of calls of `append`, `setLength` and `toString`.
The rows for executing calls do not match any of these, whatever the receiver is called, so no token
stands under an executing call.
-/
import EmbeddedSql.Proofs.Flow.StraightLine.Program

namespace EmbeddedSql.StraightLine

variable {b : Brackets} {i : Nat} {l : Lexeme}

/-- The lexeme stands at a place. -/
def At (b : Brackets) (i : Nat) (l : Lexeme) : Prop := (b.token? i).map lexeme = some l

/-- The lexemes stand one after the other from a place on. -/
def Reads (b : Brackets) (i : Nat) : List Lexeme → Prop
  | [] => True
  | l :: rest => At b i l ∧ Reads b (i + 1) rest

theorem reads_append {i : Nat} {ls ls' : List Lexeme} :
    Reads b i (ls ++ ls') ↔ Reads b i ls ∧ Reads b (i + ls.length) ls' := by
  induction ls generalizing i with
  | nil => simp [Reads]
  | cons l rest ih =>
      rw [List.cons_append, Reads, Reads, ih, and_assoc, List.length_cons,
        show i + 1 + rest.length = i + (rest.length + 1) by omega]

theorem exists_at {i : Nat} {ls : List Lexeme} (hr : Reads b i ls) {j : Nat} (hj : i ≤ j)
    (hj' : j < i + ls.length) : ∃ l ∈ ls, At b j l := by
  induction ls generalizing i with
  | nil => simp at hj'; omega
  | cons l rest ih =>
      rcases Nat.eq_or_lt_of_le hj with rfl | hlt
      · exact ⟨l, List.mem_cons_self, hr.1⟩
      · obtain ⟨l', hl', h⟩ := ih hr.2 hlt (by simp at hj'; omega)
        exact ⟨l', List.mem_cons_of_mem _ hl', h⟩

/-- The tokens of a scope read as they are. -/
theorem reads_drop {i : Nat} {ls : List Lexeme} (h : (b.tokens.toList.drop i).map lexeme = ls) :
    Reads b i ls := by
  induction ls generalizing i with
  | nil => trivial
  | cons l rest ih =>
      obtain ⟨t, ts, hd, hl, hr⟩ := List.map_eq_cons_iff.1 h
      have hi : i < b.tokens.toList.length := by
        refine Nat.lt_of_not_le fun hle => ?_
        rw [List.drop_eq_nil_of_le hle] at hd
        cases hd
      rw [List.drop_eq_getElem_cons hi] at hd
      obtain ⟨ht, hs⟩ := List.cons.inj hd
      refine ⟨?_, ih (hs ▸ hr)⟩
      rw [At, Brackets.token?, ← Array.getElem?_toList, List.getElem?_eq_getElem hi, ht, ← hl]
      rfl

theorem reads_front {i : Nat} {ls : List Lexeme} (h : ls <+: (b.tokens.toList.drop i).map lexeme) :
    Reads b i ls := by
  obtain ⟨rest, hrest⟩ := h
  exact (reads_append.1 (reads_drop hrest.symm)).1

/-! ## Single places -/

theorem isPunct_eq (t : Token) (text : String) : t.isPunct text = decide (lexeme t = punct text) := by
  rw [Token.isPunct, punct, lexeme, Bool.eq_iff_iff]
  simp only [Bool.and_eq_true, beq_iff_eq, decide_eq_true_eq, Prod.mk.injEq]

theorem isOp_eq (t : Token) (text : String) : t.isOp text = decide (lexeme t = op text) := by
  rw [Token.isOp, op, lexeme, Bool.eq_iff_iff]
  simp only [Bool.and_eq_true, beq_iff_eq, decide_eq_true_eq, Prod.mk.injEq]

namespace At

variable (h : At b i l)
include h

theorem exists_token : ∃ t, b.token? i = some t ∧ lexeme t = l := Option.map_eq_some_iff.1 h

theorem lt_size : i < b.size := by
  obtain ⟨t, ht, -⟩ := h.exists_token
  exact (Array.getElem?_eq_some_iff.1 ht).1

theorem lexeme_getElem (hi : i < b.size) : lexeme b.tokens[i] = l := by
  obtain ⟨t, ht, hl⟩ := h.exists_token
  rw [← hl, (Array.getElem?_eq_some_iff.1 ht).2]

theorem isPunct (text : String) : b.isPunct i text = decide (l = punct text) := by
  obtain ⟨t, ht, rfl⟩ := h.exists_token
  rw [Brackets.isPunct, ht, Option.any_some, isPunct_eq]

theorem isOp (text : String) : b.isOp i text = decide (l = op text) := by
  obtain ⟨t, ht, rfl⟩ := h.exists_token
  rw [Brackets.isOp, ht, Option.any_some, isOp_eq]

theorem isWord (text : String) : b.isWord i text = decide (l = word text) := by
  obtain ⟨t, ht, rfl⟩ := h.exists_token
  rw [Brackets.isWord, ht, Option.any_some, Token.isIdent, word, lexeme, Bool.eq_iff_iff]
  simp only [Bool.and_eq_true, beq_iff_eq, decide_eq_true_eq, Prod.mk.injEq]

theorem isString : (b.token? i).any (·.isString) = (l.1 == .stringLiteral) := by
  obtain ⟨t, ht, rfl⟩ := h.exists_token
  rw [ht, Option.any_some, Token.isString, lexeme]

theorem isIdent : b.isIdent i = (l.1 == .identifier) := by
  obtain ⟨t, ht, rfl⟩ := h.exists_token
  rw [Brackets.isIdent, ht, Option.any_some, Token.isIdent, lexeme]

theorem isWordIn (words : List String) :
    b.isWordIn i words = (l.1 == .identifier && words.contains l.2) := by
  obtain ⟨t, ht, rfl⟩ := h.exists_token
  rw [Brackets.isWordIn, ht, Option.any_some, Token.isIdent, lexeme]

theorem afterDot : b.afterDot (i + 1) = decide (l = punct ".") := by
  rw [← h.isPunct, Brackets.afterDot, Brackets.tokenBefore?_succ]
  rfl

end At

/-! ## Groups -/

/-- The tokens from a place on. -/
def after (b : Brackets) (i : Nat) : List Token := b.tokens.toList.drop i

theorem At.after_eq (h : At b i l) : ∃ t, after b i = t :: after b (i + 1) ∧ lexeme t = l := by
  obtain ⟨t, ht, hl⟩ := h.exists_token
  obtain ⟨hi, ht⟩ := Array.getElem?_eq_some_iff.1 ht
  refine ⟨t, ?_, hl⟩
  rw [after, after, List.drop_eq_getElem_cons (by simpa using hi), Array.getElem_toList, ht]

theorem reads_slice {i : Nat} {ls : List Lexeme} (h : Reads b i ls) :
    (b.slice i (i + ls.length)).map lexeme = ls := by
  have hs : b.slice i (i + ls.length) = (after b i).take ls.length := by
    rw [Brackets.slice, Array.toList_extract, List.extract_eq_take_drop, Nat.add_sub_cancel_left,
      after]
  rw [hs]
  clear hs
  induction ls generalizing i with
  | nil => rfl
  | cons l rest ih =>
      obtain ⟨t, ht, hl⟩ := h.1.after_eq
      rw [ht, List.length_cons, List.take_succ_cons, List.map_cons, hl, ih h.2]

/-- A lexeme that is no bracket. -/
def Flat (l : Lexeme) : Prop := l.1 = .punctuation → l.2 ∉ ["(", ")", "[", "]", "\x7b", "\x7d"]

theorem Flat.isPunct {t : Token} (h : Flat (lexeme t)) {text : String}
    (ht : text ∈ ["(", ")", "[", "]", "\x7b", "\x7d"]) : t.isPunct text = false := by
  rw [Bool.eq_false_iff]
  intro hp
  rw [Token.isPunct, Bool.and_eq_true, beq_iff_eq, beq_iff_eq] at hp
  refine h hp.1 ?_
  show t.text ∈ _
  rwa [hp.2]

theorem distance?_flat (own : Bracket) (inner : List Bracket) (h : At b i l) (hf : Flat l) :
    own.distance? inner (after b i) = (own.distance? inner (after b (i + 1))).map (· + 1) := by
  obtain ⟨t, ht, rfl⟩ := h.after_eq
  have hopen : t.opens? = none := by simp [Token.opens?, hf.isPunct]
  have hclose : t.closes? = none := by simp [Token.closes?, hf.isPunct]
  rw [ht, Bracket.distance?, hopen, hclose]

theorem opens?_paren {t : Token} (h : lexeme t = punct "(") : t.opens? = some .paren := by
  obtain ⟨hk, ht⟩ := Prod.mk.inj h
  simp [Token.opens?, Token.isPunct, hk, ht]

theorem closes?_paren {t : Token} (h : lexeme t = punct ")") :
    t.opens? = none ∧ t.closes? = some .paren := by
  obtain ⟨hk, ht⟩ := Prod.mk.inj h
  simp [Token.opens?, Token.closes?, Token.isPunct, hk, ht]

/-- The names that parentheses follow. -/
def callNames : List String := ["StringBuilder", "append", "setLength", "toString"]

/-- Lexemes whose only brackets are the parentheses of such calls, and whose parentheses balance. -/
inductive Balanced : List Lexeme → Prop
  | nil : Balanced []
  | flat {l : Lexeme} {rest : List Lexeme} : Flat l → Balanced rest → Balanced (l :: rest)
  | call {w : String} {inside rest : List Lexeme} : w ∈ callNames → Balanced inside →
      Balanced rest → Balanced (word w :: punct "(" :: inside ++ punct ")" :: rest)

theorem flat_word (w : String) : Flat (word w) := nofun

theorem Balanced.append {ls ls' : List Lexeme} (h : Balanced ls) (h' : Balanced ls') :
    Balanced (ls ++ ls') := by
  induction h with
  | nil => exact h'
  | flat hl _ ih => exact .flat hl ih
  | @call w inside rest hw hi _ _ ih =>
      rw [List.append_assoc, List.cons_append]
      exact .call hw hi ih

theorem Balanced.flatMap {α : Type} {f : α → List Lexeme} {l : List α}
    (h : ∀ a ∈ l, Balanced (f a)) : Balanced (l.flatMap f) := by
  induction l with
  | nil => exact .nil
  | cons a rest ih =>
      rw [List.flatMap_cons]
      exact (h a List.mem_cons_self).append (ih fun c hc => h c (List.mem_cons_of_mem _ hc))

/-- Balanced code is passed over when the end of a group is looked for. -/
theorem Balanced.distance? {ls : List Lexeme} (h : Balanced ls) (own : Bracket)
    (inner : List Bracket) {i : Nat} (hr : Reads b i ls) :
    own.distance? inner (after b i) =
      (own.distance? inner (after b (i + ls.length))).map (· + ls.length) := by
  induction h generalizing i inner with
  | nil => simp
  | @flat l rest hl _ ih =>
      rw [distance?_flat own inner hr.1 hl, ih inner hr.2, Option.map_map, List.length_cons,
        show i + 1 + rest.length = i + (rest.length + 1) by omega]
      rfl
  | @call w inside rest _ _ _ ihi ihr =>
      obtain ⟨hw, ho, hr⟩ := hr
      obtain ⟨hin, hc, hr⟩ := reads_append.1 hr
      obtain ⟨t, ht, hl⟩ := ho.after_eq
      obtain ⟨u, hu, hl'⟩ := hc.after_eq
      rw [distance?_flat own inner hw (flat_word w), ht, Bracket.distance?, opens?_paren hl]
      dsimp only
      rw [ihi (.paren :: inner) hin, hu, Bracket.distance?, (closes?_paren hl').1,
        (closes?_paren hl').2]
      simp only [List.dropWhile, bne_self_eq_false]
      rw [ihr inner hr]
      simp only [List.length_append, List.length_cons, Option.map_map]
      rw [show i + 1 + 1 + inside.length + 1 + rest.length
        = i + (inside.length + 1 + 1 + (rest.length + 1)) by omega]
      congr 1
      funext n
      simp only [Function.comp_apply]
      omega

/-- The end of a group. -/
theorem closer?_eq_some {ls : List Lexeme} (h : Balanced ls)
    (hr : Reads b i (punct "(" :: ls ++ [punct ")"])) :
    b.closer? i = some (i + 1 + ls.length) := by
  obtain ⟨ho, hr⟩ := hr
  obtain ⟨hin, hc, -⟩ := reads_append.1 hr
  obtain ⟨t, ht, hl⟩ := ho.exists_token
  obtain ⟨u, hu, hl'⟩ := hc.after_eq
  have hd := h.distance? .paren [] hin
  rw [hu, Bracket.distance?, (closes?_paren hl').1, (closes?_paren hl').2] at hd
  rw [Brackets.closer?_eq, ht, Option.bind_some, opens?_paren hl, Option.bind_some]
  show (Bracket.paren.distance? [] (after b (i + 1))).map _ = _
  rw [hd]
  simp only [List.dropWhile, if_true, Option.map_some]
  congr 1
  omega

/-! ## The code is balanced -/

theorem flat_dot : Flat (punct ".") := by simp [Flat, punct]

theorem flat_semicolon : Flat (punct ";") := by simp [Flat, punct]

theorem flat_op (text : String) : Flat (op text) := nofun

theorem Operand.balanced (o : Operand) : Balanced o.lexemes := by
  cases o with
  | literal text => exact .flat nofun .nil
  | name x => exact .flat (flat_word x) .nil
  | toText x =>
      refine .flat (flat_word x) (.flat flat_dot ?_)
      show Balanced (word "toString" :: punct "(" :: [] ++ punct ")" :: [])
      exact .call (by decide) .nil .nil

theorem Expr.balanced (e : Expr) : Balanced e.lexemes := by
  induction e with
  | one o => exact o.balanced
  | plus o rest ih => exact o.balanced.append (.flat (flat_op "+") ih)

theorem balanced_getD {e : Option Expr} : Balanced ((e.map Expr.lexemes).getD []) := by
  cases e with
  | none => exact .nil
  | some e => exact e.balanced

theorem balanced_construction (e : Option Expr) : Balanced (construction e) :=
  .flat (flat_word "new") (.call (by decide) balanced_getD .nil)

theorem balanced_link (e : Expr) : Balanced (link e) :=
  .flat flat_dot (.call (by decide) e.balanced .nil)

theorem Statement.balanced (st : Statement) : Balanced st.lexemes := by
  refine Balanced.append ?_ (.flat flat_semicolon .nil)
  cases st with
  | declare x e =>
      exact .flat (flat_word "String") (.flat (flat_word x) (.flat (flat_op "=") e.balanced))
  | assign x e => exact .flat (flat_word x) (.flat (flat_op "=") e.balanced)
  | grow x e => exact .flat (flat_word x) (.flat (flat_op "+=") e.balanced)
  | build b e =>
      exact .flat (flat_word "StringBuilder") (.flat (flat_word b) (.flat (flat_op "=")
        (balanced_construction e)))
  | rebuild b e => exact .flat (flat_word b) (.flat (flat_op "=") (balanced_construction e))
  | append b e more => exact .flat (flat_word b) (.flatMap fun e _ => balanced_link e)
  | empty b =>
      refine .flat (flat_word b) (.flat flat_dot ?_)
      show Balanced (word "setLength" :: punct "(" :: [(.other, "0")] ++ punct ")" :: [])
      exact .call (by decide) (.flat nofun .nil) .nil

/-! ## Calls -/

theorem Flat.ne_opening (h : Flat l) : l ≠ punct "(" := by
  rintro rfl
  exact h rfl (by simp [punct])

/-- The name of a call stands before its parenthesis. -/
theorem Balanced.exists_name {ls : List Lexeme} (h : Balanced ls) {i : Nat} (hr : Reads b i ls)
    {j : Nat} (hj : i ≤ j) (hj' : j < i + ls.length) (ho : At b j (punct "(")) :
    ∃ w ∈ callNames, ∃ k, j = k + 1 ∧ At b k (word w) := by
  induction h generalizing i with
  | nil => simp at hj'; omega
  | @flat l rest hl _ ih =>
      rcases Nat.eq_or_lt_of_le hj with rfl | hlt
      · exact absurd (Option.some.inj (hr.1.symm.trans ho)) hl.ne_opening
      · exact ih hr.2 hlt (by simp at hj'; omega)
  | @call w inside rest hw _ _ ihi ihr =>
      obtain ⟨hn, -, hr⟩ := hr
      obtain ⟨hin, hc, hr⟩ := reads_append.1 hr
      simp only [List.length_append, List.length_cons] at hj'
      rcases Nat.lt_or_ge j (i + 2 + inside.length) with hlt | hge
      · rcases Nat.lt_or_ge j (i + 2) with hlt' | hge'
        · obtain rfl | rfl : j = i ∨ j = i + 1 := by omega
          · cases Option.some.inj (hn.symm.trans ho)
          · exact ⟨w, hw, i, rfl, hn⟩
        · exact ihi hin hge' hlt
      · rcases Nat.eq_or_lt_of_le hge with rfl | hlt
        · exact absurd (Option.some.inj (hc.symm.trans ho)) (by decide)
        · exact ihr hr (by omega) (by omega)

/-- No row for executing calls matches one of these names. -/
theorem classify_callNames (receiver : Text) {w : String} (hw : w ∈ callNames) :
    RuleSet.standard.classifier.classify receiver w ≠ .executionSink := by
  have hrows : RuleSet.standard.classifier.all (fun row => callNames.all fun (name : String) =>
      !row.method.fits (Text.lower name) || row.disposition != .executionSink) = true := by
    decide +kernel
  rw [Classifier.classify]
  split
  · next row hrow =>
    have hfits := List.find?_some hrow
    have hrow := List.all_eq_true.1 (List.all_eq_true.1 hrows row (List.mem_of_find?_eq_some hrow))
      w hw
    simp only [Bool.and_eq_true] at hfits
    simpa [hfits.1] using hrow
  · decide

theorem callAt_method {c : Call} (h : b.callAt i = some c) :
    ∃ t, b.tokenBefore? i 1 = some t ∧ c.method = t.text := by
  unfold Brackets.callAt at h
  split at h
  · cases h
  · next t ht =>
    refine ⟨t, ht, ?_⟩
    split at h
    · cases h
    · split at h
      · obtain rfl := Option.some.inj h
        rfl
      · split at h
        all_goals
          obtain rfl := Option.some.inj h
          rfl

/-- The frame of a parenthesis after one of these names is no executing call. -/
theorem frameAt_callNames {w : String} (hw : w ∈ callNames) {k : Nat} (h : At b k (word w)) :
    (b.frameAt RuleSet.standard.classifier (k + 1)).disposition ≠ .executionSink := by
  obtain ⟨t, ht, hl⟩ := h.exists_token
  unfold Brackets.frameAt
  dsimp only
  cases hc : b.callAt (k + 1) with
  | none => decide
  | some c =>
      obtain ⟨t', ht', hm⟩ := callAt_method hc
      have htext : c.method = w := by
        rw [Brackets.tokenBefore?_succ, ht] at ht'
        obtain rfl := Option.some.inj ht'
        rw [hm]
        exact congrArg Prod.snd hl
      dsimp only
      rw [htext]
      exact classify_callNames _ hw

/-- What holds of the frame of every parenthesis holds of all frames. -/
theorem of_mem_framesFrom {classifier : Classifier} {P : Frame → Prop} {tokens : List Token}
    {i : Nat} {around : List Frame} (ha : ∀ f ∈ around, P f)
    (hp : ∀ k t, tokens[k]? = some t → t.isPunct "(" = true → P (b.frameAt classifier (i + k))) :
    ∀ fs ∈ b.framesFrom classifier i around tokens, ∀ f ∈ fs, P f := by
  induction tokens generalizing i around with
  | nil => nofun
  | cons t rest ih =>
      intro fs hfs
      rcases List.mem_cons.1 hfs with rfl | hfs
      · exact ha
      refine ih ?_ (fun k u hk hu => ?_) fs hfs
      · split
        · next ht =>
          intro f hf
          rcases List.mem_cons.1 hf with rfl | hf
          · exact hp 0 t rfl ht
          · exact ha f hf
        · split
          · exact fun f hf => ha f (List.mem_of_mem_tail hf)
          · exact ha
      · rw [Nat.add_right_comm, Nat.add_assoc]
        exact hp (k + 1) u hk hu

/-- No token of straight-line code stands under an executing call. -/
theorem underSink_eq_false {tokens : List Token} (h : Balanced (tokens.map lexeme)) (j : Nat) :
    (Scope.ofTokens RuleSet.standard.classifier tokens).underSink j = false := by
  let sc := Scope.ofTokens RuleSet.standard.classifier tokens
  have hr : Reads sc.toBrackets 0 (tokens.map lexeme) := reads_drop rfl
  have hp (k : Nat) (t : Token) (hk : tokens[k]? = some t) (ht : t.isPunct "(" = true) :
      (sc.frameAt RuleSet.standard.classifier (0 + k)).disposition ≠ .executionSink := by
    rw [Nat.zero_add]
    have ho : At sc.toBrackets k (punct "(") := by
      simp only [Token.isPunct, Bool.and_eq_true, beq_iff_eq] at ht
      show (tokens.toArray[k]?).map lexeme = _
      simp [hk, lexeme, punct, ht]
    obtain ⟨w, hw, k, rfl, hn⟩ := h.exists_name hr k.zero_le
      (by simpa using (List.getElem?_eq_some_iff.1 hk).1) ho
    exact frameAt_callNames hw hn
  have hf : ∀ f ∈ sc.framesAt j, f.disposition ≠ .executionSink := by
    intro f hf
    show f.disposition ≠ .executionSink
    obtain ⟨fs, hfs, hf⟩ : ∃ fs, sc.frames[j]? = some fs ∧ f ∈ fs := by
      rw [Scope.framesAt] at hf
      cases hfs : sc.frames[j]? with
      | none => rw [hfs] at hf; cases hf
      | some fs => exact ⟨fs, rfl, by rwa [hfs] at hf⟩
    have hall := of_mem_framesFrom (P := fun f => f.disposition ≠ .executionSink)
      (fun f (hf : f ∈ []) => absurd hf List.not_mem_nil) hp
    exact hall fs (List.mem_toArray.1 (Array.mem_of_getElem? hfs)) f hf
  rw [Scope.underSink, beq_eq_false_iff_ne, Scope.callClassAt]
  split
  · next f hfind => exact hf f (List.mem_of_find?_eq_some hfind)
  · decide

end EmbeddedSql.StraightLine
