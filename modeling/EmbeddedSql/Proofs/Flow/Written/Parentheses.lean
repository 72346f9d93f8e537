/-
# Parentheses in concatenations

A concatenation is written with parentheses around any of its operands and sub-sums, as often as one likes
(`Concat`).  What it amounts to does not depend on them (`eval`), and it can be written without them (`plain`).
It is always read to its end, on condition that there is room for any number of nested calls, or for three for
each parenthesis and two more (`Brackets.within_eq`); parentheses that fill each other need as many
(`expressionWithin_nested`).  What is read is compared with that:

| | what is read |
| :-- | :-- |
| an operand | its parts |
| a group in which some parts are read | these parts |
| a group in which none are | one unknown value, the group with its parentheses |

A group in which nothing is read is not told from `()`.  That happens only if all operands in it are variables without
fragments, such as builders that nothing has been appended to, and it is all that parentheses change: the parts
are the same with and without them if and only if no group is empty in this sense (`Filled`).
-/
import EmbeddedSql.Proofs.Flow.CallDepth
import EmbeddedSql.Proofs.Flow.StraightLine.Values
import EmbeddedSql.Proofs.Flow.Written.Operands
import EmbeddedSql.Token.Lexer

namespace EmbeddedSql.Written

open StraightLine

variable {b : Brackets} {arena : Arena} {m : Memory} {i : Nat}

/-! ## Syntax and meaning -/

/-- Operands joined by `+`, with parentheses. -/
inductive Concat where
  | operand (o : StraightLine.Operand)
  | group (e : Concat)
  | plus (e e' : Concat)

namespace Concat

def lexemes : Concat → List Lexeme
  | operand o => o.lexemes
  | group e => Written.group .paren e.lexemes
  | plus e e' => e.lexemes ++ op "+" :: e'.lexemes

/-- The same operands without parentheses. -/
def plain : Concat → Concat
  | operand o => operand o
  | group e => e.plain
  | plus e e' => plus e.plain e'.plain

/-- Its literals denote something, and its names are no keywords. -/
def Readable : Concat → Prop
  | operand o => o.Readable
  | group e => e.Readable
  | plus e e' => e.Readable ∧ e'.Readable

/-- The parts of its operands. -/
def eval (m : Memory) : Concat → List Part
  | operand o => o.eval m
  | group e => e.eval m
  | plus e e' => e.eval m ++ e'.eval m

/-- In each of its groups some operand has parts. -/
def Filled (m : Memory) : Concat → Prop
  | operand _ => True
  | group e => e.Filled m ∧ e.eval m ≠ []
  | plus e e' => e.Filled m ∧ e'.Filled m

theorem eval_plain (e : Concat) : e.plain.eval m = e.eval m := by
  induction e with
  | operand o => rfl
  | group e ih => exact ih
  | plus e e' ih ih' =>
      show e.plain.eval m ++ e'.plain.eval m = e.eval m ++ e'.eval m
      rw [ih, ih']

theorem filled_plain (e : Concat) : e.plain.Filled m := by
  induction e with
  | operand o => trivial
  | group e ih => exact ih
  | plus e e' ih ih' => exact ⟨ih, ih'⟩

theorem Readable.plain {e : Concat} (h : e.Readable) : e.plain.Readable := by
  induction e with
  | operand o => exact h
  | group e ih => exact ih h
  | plus e e' ih ih' => exact ⟨ih h.1, ih' h.2⟩

theorem paired (e : Concat) : Paired e.lexemes := by
  induction e with
  | operand o => exact paired_of_balanced o.balanced
  | group e ih => exact ih.group .paren
  | plus e e' ih ih' => exact ih.append (ih'.cons (flat_op "+"))

/-- The parts that are read for a concatenation: its own if no group is empty, and more than those if
one is. -/
structure Shows (m : Memory) (e : Concat) (parts : List Part) : Prop where
  filled : e.Filled m → parts = e.eval m
  more : ¬ e.Filled m → (e.eval m).length < parts.length

namespace Shows

variable {e e' : Concat} {parts parts' : List Part}

theorem length_le (h : e.Shows m parts) : (e.eval m).length ≤ parts.length := by
  by_cases hfilled : e.Filled m
  · exact Nat.le_of_eq (congrArg List.length (h.filled hfilled).symm)
  · exact Nat.le_of_lt (h.more hfilled)

theorem eq_iff (h : e.Shows m parts) : parts = e.eval m ↔ e.Filled m := by
  refine ⟨fun heq => Classical.byContradiction fun hfilled => ?_, h.filled⟩
  have hlt := h.more hfilled
  rw [heq] at hlt
  exact Nat.lt_irrefl _ hlt

theorem plus (h : e.Shows m parts) (h' : e'.Shows m parts') :
    (Concat.plus e e').Shows m (parts ++ parts') where
  filled hfilled := by rw [h.filled hfilled.1, h'.filled hfilled.2, eval]
  more hfilled := by
    have hle := h.length_le
    have hle' := h'.length_le
    rw [eval, List.length_append, List.length_append]
    by_cases hfirst : e.Filled m
    · have hlt := h'.more fun hrest => hfilled ⟨hfirst, hrest⟩
      omega
    · have hlt := h.more hfirst
      omega

/-- A group in which parts are read shows them. -/
theorem group (h : e.Shows m parts) (hne : parts ≠ []) : (Concat.group e).Shows m parts where
  filled hfilled := h.filled hfilled.1
  more hfilled := h.more fun hinner => hfilled ⟨hinner, h.filled hinner ▸ hne⟩

/-- A group in which none are read shows itself. -/
theorem group_nil (h : e.Shows m []) (source : String) : (Concat.group e).Shows m [.unknown source] := by
  have heval : e.eval m = [] := List.eq_nil_of_length_eq_zero (Nat.le_zero.1 h.length_le)
  refine ⟨fun hfilled => absurd heval hfilled.2, fun _ => ?_⟩
  rw [eval, heval]
  exact Nat.one_pos

end Shows

end Concat

/-! ## What follows -/

/-- The token at this place belongs to no operand that ends before it, and casts nothing. -/
structure Follows (b : Brackets) (i : Nat) : Prop where
  ends : ¬ GoesOn b i
  noCast (t : Token) : b.token? i = some t → Brackets.followsCast t = true →
    t.isIdent = true ∧ t.text ∈ Brackets.nonOperandWords

/-- Nor is it a plus sign. -/
structure Closes (b : Brackets) (i : Nat) : Prop extends Follows b i where
  noPlus : b.isOp i "+" = false

theorem Follows.skipPostfix_eq (h : Follows b i) : b.skipPostfix i = i :=
  skipPostfix_eq_self_iff.2 h.ends

theorem follows_of_at {l : Lexeme} (hl : l ∈ followers) (h : At b i l) : Follows b i := by
  obtain ⟨t, ht, hlex⟩ := h.exists_token
  refine ⟨skipPostfix_eq_self_iff.1 (StraightLine.skipPostfix_eq h hl), fun u hu hcast => ?_⟩
  obtain rfl := Option.some.inj (ht.symm.trans hu)
  have hno : ∀ l ∈ followers, l.1 ≠ .stringLiteral ∧ l.1 ≠ .identifier ∧ l ≠ punct "(" := by decide
  obtain ⟨hstring, hident, hopening⟩ := hno l hl
  rw [Brackets.followsCast, isPunct_eq, Token.isString, Token.isIdent,
    show t.kind = l.1 from congrArg Prod.fst hlex, hlex] at hcast
  simp [hstring, hident, hopening] at hcast

/-- A word that begins no operand gives none. -/
theorem operand_nonOperandWord {t : Token} (ht : b.token? i = some t) (hident : t.isIdent = true)
    (hword : t.text ∈ Brackets.nonOperandWords) : b.operand arena i = .ok none := by
  obtain ⟨hi, rfl⟩ := Array.getElem?_eq_some_iff.1 ht
  have hkind : b.tokens[i].kind = .identifier := beq_iff_eq.1 hident
  rw [Brackets.operand, dif_pos hi]
  simp only [hkind]
  exact if_pos (List.contains_iff_mem.2 hword)

theorem Follows.noCast_group {close : Nat} (h : Follows b (close + 1)) : b.NoCast arena i close := by
  intro hcast
  rw [Brackets.isCast, Bool.and_eq_true] at hcast
  obtain ⟨t, ht, hfollows⟩ := (Option.any_eq_true _ _).1 hcast.1
  obtain ⟨hident, hword⟩ := h.noCast t ht hfollows
  exact operand_nonOperandWord ht hident hword

/-! ## Reading a concatenation -/

/-- Where a concatenation stands it is read to its end, and read on from there. -/
theorem expression_concat {e : Concat} {i : Nat} (he : e.Readable)
    (hm : arena.map accumulation = m.live) (hr : Reads b i e.lexemes)
    (hf : Follows b (i + e.lexemes.length)) (hd : b.afterDot i = false) :
    ∃ r : Expression, b.expression arena i = b.readOn arena r ∧ r.stop = i + e.lexemes.length ∧
      e.Shows m (r.fragments.map part) := by
  induction e generalizing i with
  | operand o =>
      obtain ⟨r, hop, hstop, hc⟩ := operand_reads he hm hr hf.skipPostfix_eq hd
      exact ⟨r.toExpression, Brackets.expression_of_operand hop, hstop, fun _ => hc.parts_eq,
        fun hfilled => absurd trivial hfilled⟩
  | group e ih =>
      obtain ⟨hopening, hinside, hclosing⟩ := reads_group hr
      have hlength : i + (Concat.group e).lexemes.length = i + 1 + e.lexemes.length + 1 := by
        rw [Concat.lexemes, length_group]
        omega
      rw [hlength] at hf ⊢
      obtain ⟨inner, hex, hstop, hshows⟩ :=
        ih he hinside (follows_of_at (by decide) hclosing) (by rw [hopening.afterDot]; decide)
      have hend : b.isOp inner.stop "+" = false := by
        rw [hstop, hclosing.isOp]
        exact decide_eq_false nofun
      obtain ⟨line, hs, hgroup⟩ := operand_group arena e.paired hr hf.noCast_group
      rw [hex, Brackets.readOn_of_not hend] at hgroup
      refine ⟨_, Brackets.expression_of_operand hgroup,
        (stop_grouped inner).trans hf.skipPostfix_eq, ?_⟩
      rw [Operand.toExpression, grouped]
      by_cases hempty : inner.fragments = []
      · rw [if_neg fun h => h.2 hempty]
        rw [hempty] at hshows
        exact hshows.group_nil _
      · rw [if_pos ⟨hstop, hempty⟩]
        exact hshows.group fun hnil => hempty (List.map_eq_nil_iff.1 hnil)
  | plus e e' ih ih' =>
      obtain ⟨hfirst, hplus, hrest⟩ := reads_append.1 hr
      have hlength : i + (Concat.plus e e').lexemes.length =
          i + e.lexemes.length + 1 + e'.lexemes.length := by
        rw [Concat.lexemes, List.length_append, List.length_cons]
        omega
      rw [hlength] at hf ⊢
      obtain ⟨r, hex, hstop, hshows⟩ := ih he.1 hfirst (follows_of_at (by decide) hplus) hd
      obtain ⟨r', hex', hstop', hshows'⟩ :=
        ih' he.2 hrest hf (by rw [hplus.afterDot]; decide)
      have hnext : b.isOp r.stop "+" = true := by
        rw [hstop, hplus.isOp]
        exact decide_eq_true rfl
      refine ⟨r.append r', ?_, hstop', ?_⟩
      · rw [hex, Brackets.readOn_of_plus hnext, hstop, hex', Brackets.map_readOn]
      · rw [Expression.append, List.map_append]
        exact hshows.plus hshows'

/-- So many parentheses around a concatenation. -/
def Concat.nested (e : Concat) : Nat → Concat
  | 0 => e
  | n + 1 => group (e.nested n)

/-- The parentheses fill each other, and each takes three calls. -/
theorem calls_nested {e : Concat} {n i : Nat} (hr : Reads b i (e.nested n).lexemes)
    (hf : (b.token? (i + (e.nested n).lexemes.length)).any Brackets.followsCast = false) :
    b.Calls i (3 * n + 1) := by
  induction n generalizing i with
  | zero => exact .own
  | succ n ih =>
      obtain ⟨hopening, hinside, hclosing⟩ := reads_group hr
      have hlength : i + (e.nested (n + 1)).lexemes.length = i + 1 + (e.nested n).lexemes.length + 1 := by
        rw [Concat.nested, Concat.lexemes, length_group]
        omega
      rw [hlength] at hf
      have hopens : b.isPunct i "(" = true := by
        rw [hopening.isPunct]
        exact decide_eq_true rfl
      have hcast : b.isCast i (i + 1 + (e.nested n).lexemes.length) = false := by
        rw [Brackets.isCast, hf, Bool.false_and]
      obtain ⟨t, ht, hl⟩ := hclosing.exists_token
      have hends : (b.token? (i + 1 + (e.nested n).lexemes.length)).any Brackets.followsCast = false := by
        have hkind : t.kind = .punctuation := congrArg Prod.fst hl
        rw [ht, Option.any_some, Brackets.followsCast, isPunct_eq, hl]
        simp [Token.isString, Token.isIdent, hkind, punct, Bracket.closing]
      exact .fill hopens (closer?_group (e.nested n).paired hr) hcast (ih hinside hends)

/-- With room for fewer calls it comes too deep. -/
theorem expressionWithin_nested {e : Concat} {n i room : Nat} (arena : Arena)
    (hr : Reads b i (e.nested n).lexemes)
    (hf : (b.token? (i + (e.nested n).lexemes.length)).any Brackets.followsCast = false)
    (hi : i < b.size) (hroom : room < 3 * n + 2) :
    b.expressionWithin arena room i = .error .tooDeep := by
  cases room with
  | zero => rw [Brackets.expressionWithin]
  | succ room =>
      rw [Brackets.expressionWithin]
      exact Brackets.operandsBy_of_error hi ((calls_nested hr hf).tooDeep arena (by omega))

/-- What is tracked. -/
def memoryOf (arena : Arena) : Memory := ⟨arena.map accumulation, []⟩

/-- With room for any number of nested calls, a concatenation is read to its end with and without its
parentheses, and the parts that are read are the same if and only if none of its groups is empty. -/
theorem parentheses_iff_filled {b b' : Brackets} {i i' : Nat} (arena : Arena) (e : Concat)
    (he : e.Readable) (hr : Reads b i e.lexemes) (hr' : Reads b' i' e.plain.lexemes)
    (hstart : b.afterDot i = false) (hstart' : b'.afterDot i' = false)
    (hend : Closes b (i + e.lexemes.length)) (hend' : Closes b' (i' + e.plain.lexemes.length)) :
    ∃ r r', b.expression arena i = .ok r ∧ b'.expression arena i' = .ok r' ∧
      r.stop = i + e.lexemes.length ∧ r'.stop = i' + e.plain.lexemes.length ∧
      (r.fragments.map part = r'.fragments.map part ↔ e.Filled (memoryOf arena)) := by
  obtain ⟨r, hex, hstop, hshows⟩ :=
    expression_concat (m := memoryOf arena) he rfl hr hend.toFollows hstart
  obtain ⟨r', hex', hstop', hshows'⟩ :=
    expression_concat (m := memoryOf arena) he.plain rfl hr' hend'.toFollows hstart'
  refine ⟨r, r', ?_, ?_, hstop, hstop', ?_⟩
  · rw [hex, Brackets.readOn_of_not (by rw [hstop, hend.noPlus])]
  · rw [hex', Brackets.readOn_of_not (by rw [hstop', hend'.noPlus])]
  · rw [hshows'.filled e.filled_plain, e.eval_plain]
    exact hshows.eq_iff

/-- A builder in parentheses, and the same without them. -/
def builderInParentheses : Brackets × Brackets :=
  (.ofTokens (significant ((tokenize "s = (\"SELECT \" + (x)) + (b.toString());").toOption.getD [])),
    .ofTokens (significant ((tokenize "s = \"SELECT \" + x + b.toString();").toOption.getD [])))

/-- What stands there. -/
def inParentheses : Concat :=
  .plus (.group (.plus (.operand (.literal "\"SELECT \"")) (.group (.operand (.name "x")))))
    (.group (.operand (.toText "b")))

/-- The parentheses make a difference if nothing has been appended to the builder, and none once something
has. -/
theorem parentheses_builder :
    let arena (fragments : List Fragment) : Arena := [⟨"b", .builder, 1, 1, fragments, none⟩]
    let b := builderInParentheses.1
    let b' := builderInParentheses.2
    (∃ r r', b.expression (arena []) 2 = .ok r ∧ b'.expression (arena []) 2 = .ok r' ∧
      r.fragments.map part ≠ r'.fragments.map part) ∧
    ∃ r r', b.expression (arena [.literal "1" 1]) 2 = .ok r ∧
      b'.expression (arena [.literal "1" 1]) 2 = .ok r' ∧
      r.fragments.map part = r'.fragments.map part := by
  intro arena b b'
  have hvalue : Literal.value "\"SELECT \"" = .ok "SELECT " := by
    simp [Literal.value, Literal.isTextBlock, Literal.decode, Text.ofString]
  have hreadable : inParentheses.Readable :=
    ⟨⟨⟨_, hvalue⟩, show "x" ∉ "new" :: Brackets.nonOperandWords by decide⟩,
      show "b" ∉ "new" :: Brackets.nonOperandWords by decide⟩
  have hr : Reads b 2 (inParentheses.lexemes ++ [punct ";"]) := reads_drop (show _ = _ by decide +kernel)
  have hr' : Reads b' 2 (inParentheses.plain.lexemes ++ [punct ";"]) :=
    reads_drop (show _ = _ by decide +kernel)
  obtain ⟨hr, hsemicolon, -⟩ := reads_append.1 hr
  obtain ⟨hr', hsemicolon', -⟩ := reads_append.1 hr'
  have hend : Closes b (2 + inParentheses.lexemes.length) :=
    ⟨follows_of_at (by decide) hsemicolon, by rw [hsemicolon.isOp]; decide⟩
  have hend' : Closes b' (2 + inParentheses.plain.lexemes.length) :=
    ⟨follows_of_at (by decide) hsemicolon', by rw [hsemicolon'.isOp]; decide⟩
  have hfilled (fragments : List Fragment) :
      inParentheses.Filled (memoryOf (arena fragments)) ↔ fragments ≠ [] := by
    have hx : (StraightLine.Operand.name "x").eval (memoryOf (arena fragments)) = [.unknown "x"] := rfl
    have hb : (StraightLine.Operand.toText "b").eval (memoryOf (arena fragments)) =
        fragments.map part := rfl
    simp [inParentheses, Concat.Filled, Concat.eval, hx, hb]
  constructor
  · obtain ⟨r, r', hex, hex', -, -, hiff⟩ := parentheses_iff_filled (arena []) inParentheses hreadable hr hr'
      (by decide +kernel) (by decide +kernel) hend hend'
    exact ⟨r, r', hex, hex', fun heq => (hfilled []).1 (hiff.1 heq) rfl⟩
  · obtain ⟨r, r', hex, hex', -, -, hiff⟩ := parentheses_iff_filled (arena [.literal "1" 1]) inParentheses
      hreadable hr hr' (by decide +kernel) (by decide +kernel) hend hend'
    exact ⟨r, r', hex, hex', hiff.2 ((hfilled _).2 nofun)⟩

end EmbeddedSql.Written
