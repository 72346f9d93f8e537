/-
# Reading the values of straight-line code

Where a value stands, the reader finds an expression with the parts that the value has in memory.  It
ends where the value ends, and all string literals in between belong to it.  The arena and the memory
hold the same accumulations, so a name gives the same parts in both.
-/
import EmbeddedSql.Proofs.Flow.StraightLine.Places

namespace EmbeddedSql.StraightLine

variable {b : Brackets} {i : Nat} {l : Lexeme} {arena : Arena} {m : Memory}

/-! ## What is tracked -/

/-- A fragment without its line. -/
def part : Fragment → Part
  | .literal text _ => .known text
  | .unknown source _ => .unknown source

/-- What a variable has accumulated. -/
def accumulation (v : Variable) : Accumulation :=
  ⟨v.name, v.kind, v.fragments.map part, v.firstLine, v.lastLine⟩

theorem find?_map_accumulation (arena : Arena) (x : String) :
    (arena.map accumulation).find? (·.name == x) = (arena.get? x).map accumulation := by
  rw [List.find?_map]
  rfl

/-- A name gives the parts of its variable, or else one unknown value. -/
theorem parts_eq (hm : arena.map accumulation = m.live) (x source : String) :
    m.parts x source =
      ((arena.get? x).map fun v => v.fragments.map part).getD [.unknown source] := by
  rw [Memory.parts, ← hm, find?_map_accumulation]
  cases arena.get? x <;> rfl

/-! ## Source texts -/

theorem sourceText_one (h : At b i l) : b.sourceText i (i + 1) = l.2 := by
  have hr : Reads b i [l] := ⟨h, trivial⟩
  have hs : (b.slice i (i + 1)).map lexeme = [l] := reads_slice hr
  obtain ⟨t, ts, ht, hl, hts⟩ := List.map_eq_cons_iff.1 hs
  obtain rfl := List.map_eq_nil_iff.1 hts
  have htext : t.text = l.2 := congrArg Prod.snd hl
  rw [Brackets.sourceText, ht]
  simp [joinTexts, htext]

/-- Nothing stands between a name and `.toString()`. -/
theorem sourceText_toText {x : String} (h : Reads b i (Operand.toText x).lexemes) :
    b.sourceText i (i + 5) = x ++ ".toString()" := by
  have hs : (b.slice i (i + 5)).map lexeme = (Operand.toText x).lexemes := reads_slice h
  simp only [Operand.lexemes, List.map_eq_cons_iff, List.map_eq_nil_iff] at hs
  obtain ⟨t₁, _, ht, h₁, t₂, _, rfl, h₂, t₃, _, rfl, h₃, t₄, _, rfl, h₄, t₅, _, rfl, h₅, rfl⟩ := hs
  have hx : t₁.text = x := congrArg Prod.snd h₁
  have hdot : t₂.text = "." := congrArg Prod.snd h₂
  have hcall : t₃.text = "toString" := congrArg Prod.snd h₃
  have hopen : t₄.text = "(" := congrArg Prod.snd h₄
  have hclose : t₅.text = ")" := congrArg Prod.snd h₅
  rw [Brackets.sourceText, ht]
  have hd : isAlphanumeric '.' = false := by decide +kernel
  have ho : isAlphanumeric '(' = false := by decide +kernel
  simp [joinTexts, hx, hdot, hcall, hopen, hclose, hd, ho]

/-! ## Operands -/

/-- What follows a value. -/
def followers : List Lexeme := [op "+", punct ";", punct ")"]

/-- Nothing that follows a value belongs to its last operand. -/
theorem skipPostfix_eq (h : At b i l) (hl : l ∈ followers) : b.skipPostfix i = i := by
  rw [Brackets.skipPostfix, dif_pos h.lt_size]
  simp only [isPunct_eq, isOp_eq, h.lexeme_getElem]
  have hno : ∀ l ∈ followers, l ≠ punct "." ∧ l ≠ op "::" ∧ l ≠ punct "(" ∧ l ≠ punct "[" := by
    decide
  obtain ⟨h₁, h₂, h₃, h₄⟩ := hno l hl
  simp [h₁, h₂, h₃, h₄]

/-- What is read from place `i` up to `stop` has these parts, and all string literals there belong to
it. -/
structure Covers (b : Brackets) (i stop : Nat) (parts : List Part) (fragments : List Fragment)
    (literals : List Nat) : Prop where
  parts_eq : fragments.map part = parts
  literal_mem {j : Nat} : i ≤ j → j < stop → (b.token? j).any (·.isString) = true → j ∈ literals

/-- Code without string literals leaves nothing to belong to it. -/
theorem no_string {ls : List Lexeme} (hr : Reads b i ls) (hs : ∀ l ∈ ls, l.1 ≠ .stringLiteral)
    {j : Nat} (hj : i ≤ j) (hj' : j < i + ls.length) :
    ¬ (b.token? j).any (·.isString) = true := by
  obtain ⟨l, hl, h⟩ := exists_at hr hj hj'
  rw [h.isString, beq_iff_eq]
  exact hs l hl

theorem operand_literal {text : String} {v : Text} (h : At b i (.stringLiteral, text))
    (hv : Literal.value text = .ok v) :
    ∃ line, b.operand arena i =
      .ok (some ⟨[.literal v line], [i], b.skipPostfix (i + 1), b.le_skipPostfix (i + 1)⟩) := by
  have hi : i < b.size := h.lt_size
  have hl := h.lexeme_getElem hi
  have hkind : b.tokens[i].kind = .stringLiteral := congrArg Prod.fst hl
  have htext : b.tokens[i].text = text := congrArg Prod.snd hl
  refine ⟨b.tokens[i].startLine, ?_⟩
  rw [Brackets.operand, dif_pos hi]
  simp only [hkind, Token.value, htext, hv]
  rfl

theorem operand_word {x : String} (h : At b i (word x))
    (hx : x ∉ "new" :: Brackets.nonOperandWords) :
    ∃ t, t.text = x ∧ b.operand arena i = .ok (some (b.reference arena i t)) := by
  have hi : i < b.size := h.lt_size
  have hl := h.lexeme_getElem hi
  have hkind : b.tokens[i].kind = .identifier := congrArg Prod.fst hl
  have htext : b.tokens[i].text = x := congrArg Prod.snd hl
  rw [List.mem_cons, not_or] at hx
  refine ⟨b.tokens[i], htext, ?_⟩
  rw [Brackets.operand, dif_pos hi]
  simp only [hkind, htext]
  rw [if_neg (by simpa using hx.2), if_neg (by simpa using hx.1)]

/-- A name stands for its variable, or for itself. -/
theorem reference_name {x : String} {t : Token} (ht : t.text = x) (hw : At b i (word x))
    (hs : b.skipPostfix (i + 1) = i + 1) (hd : b.afterDot i = false) :
    (b.reference arena i t).stop = i + 1 ∧ (b.reference arena i t).fragments.map part =
      ((arena.get? x).map fun v => v.fragments.map part).getD [.unknown x] := by
  simp only [Brackets.reference, hd, ht]
  cases arena.get? x with
  | none => simp [Brackets.unknown, Operand.single, hs, sourceText_one hw, part, word]
  | some v => simp [hs]

/-- A call of `toString` belongs to the operand before it. -/
theorem skipPostfix_toString
    (hr : Reads b i [punct ".", word "toString", punct "(", punct ")"])
    (hs : b.skipPostfix (i + 4) = i + 4) :
    b.skipPostfix i = i + 4 ∧ b.isToString i (i + 4) = true := by
  obtain ⟨hdot, hword, hopen, hclose, -⟩ := hr
  have hc : b.closer? (i + 2) = some (i + 3) := closer?_eq_some .nil ⟨hopen, hclose, trivial⟩
  have hi : i < b.size := hdot.lt_size
  have hj : i + 2 < b.size := hopen.lt_size
  refine ⟨?_, ?_⟩
  · rw [Brackets.skipPostfix, dif_pos hi]
    simp only [isPunct_eq, isOp_eq, hdot.lexeme_getElem hi, hword.isIdent]
    rw [if_pos (by decide), Brackets.skipPostfix, dif_pos hj]
    simp only [isPunct_eq, isOp_eq, hopen.lexeme_getElem hj]
    rw [if_neg (by simp [punct, op]), if_pos (by decide), Brackets.skipGroup, hc]
    exact hs
  · simp [Brackets.isToString, hdot.isPunct, hword.isWord, hopen.isPunct, hclose.isPunct]

theorem reference_toText {x : String} {t : Token} (ht : t.text = x)
    (hr : Reads b i (Operand.toText x).lexemes) (hs : b.skipPostfix (i + 5) = i + 5)
    (hd : b.afterDot i = false) :
    (b.reference arena i t).stop = i + 5 ∧ (b.reference arena i t).fragments.map part =
      ((arena.get? x).map fun v => v.fragments.map part).getD [.unknown (x ++ ".toString()")] := by
  obtain ⟨hs, ht'⟩ := skipPostfix_toString hr.2 hs
  have hsource := sourceText_toText hr
  simp only [Brackets.reference, hd, ht, hs, ht']
  cases arena.get? x with
  | none => simp [Brackets.unknown, Operand.single, hsource, part]
  | some v => simp

/-- Where an operand stands, it is read. -/
theorem operand_reads {o : Operand} (ho : o.Readable) (hm : arena.map accumulation = m.live)
    (hr : Reads b i o.lexemes)
    (hs : b.skipPostfix (i + o.lexemes.length) = i + o.lexemes.length) (hd : b.afterDot i = false) :
    ∃ r, b.operand arena i = .ok (some r) ∧ r.stop = i + o.lexemes.length ∧
      Covers b i r.stop (o.eval m) r.fragments r.literals := by
  cases o with
  | literal text =>
      obtain ⟨v, hv⟩ := ho
      obtain ⟨line, hop⟩ := operand_literal hr.1 hv
      refine ⟨_, hop, hs, ?_, fun {j} hj hj' _ => ?_⟩
      · simp [Operand.eval, hv, part]
      · obtain rfl : j = i := Nat.le_antisymm (Nat.le_of_lt_succ (Nat.lt_of_lt_of_eq hj' hs)) hj
        exact List.mem_singleton_self _
  | name x =>
      obtain ⟨t, ht, hop⟩ := operand_word hr.1 ho
      obtain ⟨hs, hparts⟩ := reference_name ht hr.1 hs hd
      refine ⟨_, hop, hs, hparts.trans (parts_eq hm x x).symm, fun hj hj' hstr => ?_⟩
      exact absurd hstr (no_string hr (by simp [Operand.lexemes, word]) hj (hs ▸ hj'))
  | toText x =>
      obtain ⟨t, ht, hop⟩ := operand_word hr.1 ho
      obtain ⟨hs, hparts⟩ := reference_toText ht hr hs hd
      refine ⟨_, hop, hs, hparts.trans (parts_eq hm x _).symm, fun hj hj' hstr => ?_⟩
      exact absurd hstr (no_string hr (by simp [Operand.lexemes, word, punct]) hj (hs ▸ hj'))

/-! ## Expressions -/

theorem Covers.append {j k : Nat} {ps qs : List Part} {fs gs : List Fragment} {us vs : List Nat}
    (h : Covers b i j ps fs us) (hj : ¬ (b.token? j).any (·.isString) = true)
    (h' : Covers b (j + 1) k qs gs vs) : Covers b i k (ps ++ qs) (fs ++ gs) (us ++ vs) where
  parts_eq := by rw [List.map_append, h.parts_eq, h'.parts_eq]
  literal_mem {n} hn hn' hstr := by
    rcases Nat.lt_trichotomy n j with hlt | rfl | hgt
    · exact List.mem_append_left _ (h.literal_mem hn hlt hstr)
    · exact absurd hstr hj
    · exact List.mem_append_right _ (h'.literal_mem hgt hn' hstr)

/-- Where a value stands, it is read. -/
theorem expression_reads {e : Expr} (he : e.Readable) (hm : arena.map accumulation = m.live)
    (hr : Reads b i (e.lexemes ++ [l])) (hl : l = punct ";" ∨ l = punct ")")
    (hd : b.afterDot i = false) :
    ∃ r, b.expression arena i = .ok r ∧ r.stop = i + e.lexemes.length ∧
      Covers b i r.stop (e.eval m) r.fragments r.literals := by
  have hl' : l ∈ followers := by rcases hl with rfl | rfl <;> decide
  induction e generalizing i with
  | one o =>
      obtain ⟨hfirst, hend, -⟩ := reads_append.1 hr
      obtain ⟨r, hop, hs, hc⟩ := operand_reads he hm hfirst (skipPostfix_eq hend hl') hd
      have hend : b.isOp r.stop "+" = false := by
        have hf : At b r.stop l := hs ▸ hend
        rw [hf.isOp]
        rcases hl with rfl | rfl <;> decide
      refine ⟨⟨r.fragments, r.literals, r.stop⟩, ?_, hs, hc⟩
      rw [Brackets.expression, hop]
      show (if h : b.isOp r.stop "+" = true then _ else _) = _
      rw [dif_neg (by simp [hend])]
      rfl
  | plus o rest ih =>
      rw [Expr.lexemes, List.append_assoc, List.cons_append] at hr
      obtain ⟨hfirst, hplus, hrest⟩ := reads_append.1 hr
      obtain ⟨r, hop, hs, hc⟩ := operand_reads he.1 hm hfirst (skipPostfix_eq hplus (by decide)) hd
      rw [← hs] at hplus hrest
      obtain ⟨r', hex, hs', hc'⟩ := ih he.2 hrest (by rw [hplus.afterDot]; decide)
      refine ⟨⟨r.fragments ++ r'.fragments, r.literals ++ r'.literals, r'.stop⟩, ?_, ?_, ?_⟩
      · rw [Brackets.expression, hop]
        show (if h : b.isOp r.stop "+" = true then _ else _) = _
        rw [dif_pos (by rw [hplus.isOp]; decide), hex]
        rfl
      · rw [Expr.lexemes, List.length_append, List.length_cons]
        show r'.stop = _
        omega
      · exact hc.append (by rw [hplus.isString]; decide) hc'

end EmbeddedSql.StraightLine
