/-
# What a declared variable holds

The value in `T v = e;` is read operand by operand from left to right, but only as long as the operands are
joined by `+`.  Behind the first other operator nothing is read any more, and the rest up to the semicolon is
left to be read loosely, after the variable has been bound.

| `T v = "a" + x + "b" * 2 + "c";` | |
| :-- | :-- |
| `"a"`, `x`, `"b"` | the leading sum (`Initializer.leading`): each contributes its fragments, in this order |
| `2`, `"c"` | contribute nothing |

So all the literals of the value come to the variable if and only if they stand in the leading sum
(`step_initializer`).  The declaration is taken to its semicolon in any case.
-/
import EmbeddedSql.Proofs.Flow.Failure
import EmbeddedSql.Proofs.Flow.Readings
import EmbeddedSql.Proofs.Flow.StraightLine.Statements
import EmbeddedSql.Proofs.Flow.Written.Operands
import EmbeddedSql.Token.Lexer

namespace EmbeddedSql.Written

open StraightLine

variable {b : Brackets} {arena : Arena} {i : Nat} {l : Lexeme} {ls : List Lexeme}

/-! ## Syntax -/

/-- An operand: a string literal, a name, or a group, with what follows it, or a number. -/
inductive Term where
  | literal (text : String) (links : List Link)
  | name (x : String) (links : List Link)
  | number (text : String)
  | group (inside : List Lexeme) (links : List Link)

/-- Do they begin with arguments? -/
def beginWithArguments : List Link → Bool
  | .group .paren _ :: _ => true
  | _ => false

namespace Term

def lexemes : Term → List Lexeme
  | literal text links => (.stringLiteral, text) :: links.flatMap Link.lexemes
  | name x links => word x :: links.flatMap Link.lexemes
  | number text => [(.other, text)]
  | group inside links => Written.group .paren inside ++ links.flatMap Link.lexemes

/-- Its literal denotes something, its name is no keyword, and its group is no cast. -/
def WellFormed : Term → Prop
  | literal text links => (∃ v, Literal.value text = .ok v) ∧ ∀ k ∈ links, k.WellFormed
  | name x links => x ∉ "new" :: Brackets.nonOperandWords ∧ ∀ k ∈ links, k.WellFormed
  | number text =>
    (tokenOf (.other, text)).showsNumber = true ∧ (tokenOf (.other, text)).isCharLiteral = false
  | group inside links =>
    Paired inside ∧ (∀ k ∈ links, k.WellFormed) ∧ beginWithArguments links = false

/-- What it may contribute, with these variables.  A literal contributes its value, a name the fragments of
its variable or one unknown value. -/
def Contributes (arena : Arena) : Term → List Fragment → Prop
  | literal text _, fragments =>
    ∃ v line, Literal.value text = .ok v ∧ fragments = [.literal v line]
  | name x _, fragments =>
    (∃ v, arena.get? x = some v ∧ fragments = v.fragments) ∨
      ∃ source line, fragments = [.unknown source line]
  | number text, fragments => ∃ line, fragments = [.literal text line]
  | group _ _, _ => True

end Term

/-- An operand, and more operands with the operators before them. -/
structure Initializer where
  first : Term
  more : List (String × Term)

/-- An operand with the operator before it. -/
def joined (p : String × Term) : List Lexeme := op p.1 :: p.2.lexemes

def operators : List String := ["+", "-", "*", "/", "%"]

namespace Initializer

def lexemes (e : Initializer) : List Lexeme := e.first.lexemes ++ e.more.flatMap joined

structure WellFormed (e : Initializer) : Prop where
  first : e.first.WellFormed
  more : ∀ p ∈ e.more, p.1 ∈ operators ∧ p.2.WellFormed

/-- The operands before the first operator that is no plus sign. -/
def leading (e : Initializer) : List Term :=
  e.first :: (e.more.takeWhile (·.1 == "+")).map (·.2)

/-- The lexemes of these operands. -/
def leadingLexemes (e : Initializer) : List Lexeme :=
  e.first.lexemes ++ (e.more.takeWhile (·.1 == "+")).flatMap joined

theorem lexemes_eq (e : Initializer) :
    e.lexemes = e.leadingLexemes ++ (e.more.dropWhile (·.1 == "+")).flatMap joined := by
  rw [lexemes, leadingLexemes, List.append_assoc, ← List.flatMap_append, List.takeWhile_append_dropWhile]

end Initializer

/-! ## Operands -/

/-- What stands behind an operand: an operator, or the semicolon. -/
def joints : List Lexeme := punct ";" :: operators.map op

theorem not_goesOn_of_joint (hl : l ∈ joints) (h : At b i l) : ¬ GoesOn b i := by
  have hno : ∀ l ∈ joints, l ≠ punct "." ∧ l ≠ op "::" ∧ l ≠ punct "(" ∧ l ≠ punct "[" := by decide
  obtain ⟨h₁, h₂, h₃, h₄⟩ := hno l hl
  rw [GoesOn, h.isPunct, h.isPunct, h.isPunct, h.isOp]
  simp [h₁, h₂, h₃, h₄]

theorem noCast_of_at {close : Nat} (h : At b (close + 1) l)
    (hl : l.1 ≠ .stringLiteral ∧ l.1 ≠ .identifier ∧ l ≠ punct "(") : b.NoCast arena i close := by
  obtain ⟨t, ht, hlex⟩ := h.exists_token
  intro hcast
  rw [Brackets.isCast, ht, Option.any_some, Bool.and_eq_true, Brackets.followsCast, isPunct_eq,
    Token.isString, Token.isIdent, show t.kind = l.1 from congrArg Prod.fst hlex, hlex] at hcast
  simp [hl] at hcast

/-- A group in a value is no cast. -/
theorem noCast_of_term {inside : List Lexeme} {links : List Link} {close : Nat}
    (h : (Term.group inside links).WellFormed) (hl : l ∈ joints)
    (hr : Reads b (close + 1) (links.flatMap Link.lexemes ++ [l])) : b.NoCast arena i close := by
  obtain ⟨-, hlinks, harguments⟩ := h
  cases links with
  | nil =>
      have hno : ∀ l ∈ joints, l.1 ≠ .stringLiteral ∧ l.1 ≠ .identifier ∧ l ≠ punct "(" := by decide
      exact noCast_of_at hr.1 (hno l hl)
  | cons k rest =>
      have hk := hlinks k List.mem_cons_self
      cases k with
      | member x => exact noCast_of_at hr.1 (by decide)
      | reference x => exact noCast_of_at hr.1 (by decide)
      | group own inside =>
          cases own with
          | paren => cases harguments
          | square => exact noCast_of_at hr.1 (by decide)
          | brace => exact absurd rfl hk.1

theorem reference_contributes (i : Nat) (t : Token) (links : List Link) :
    (Term.name t.text links).Contributes arena (b.reference arena i t).fragments := by
  unfold Brackets.reference
  dsimp only
  split
  · next v hv =>
      split
      · refine .inl ⟨v, ?_, rfl⟩
        split at hv
        · cases hv
        · exact hv
      · exact .inr ⟨_, _, rfl⟩
  · exact .inr ⟨_, _, rfl⟩

/-- Where an operand stands it is read to its end. -/
theorem operand_term {term : Term} (h : term.WellFormed) (hl : l ∈ joints)
    (hr : Reads b i (term.lexemes ++ [l])) :
    Ends b.Faulty (fun found => ∃ o : EmbeddedSql.Operand i, found = some o ∧
        o.stop = i + term.lexemes.length ∧ term.Contributes arena o.fragments)
      (b.operand arena i) := by
  obtain ⟨hterm, hend, -⟩ := reads_append.1 hr
  have hstop := skipPostfix_eq_self_iff.2 (not_goesOn_of_joint hl hend)
  cases term with
  | literal text links =>
      obtain ⟨⟨v, hv⟩, hlinks⟩ := h
      obtain ⟨line, hop⟩ := operand_literal hterm.1 hv
      rw [hop]
      refine ⟨_, rfl, ?_, v, line, hv, rfl⟩
      have hskip := skipPostfix_links hlinks hterm.2
      rw [Nat.add_assoc, Nat.add_comm 1] at hskip
      exact hskip.trans hstop
  | name x links =>
      obtain ⟨hx, hlinks⟩ := h
      obtain ⟨t, rfl, hop⟩ := operand_word hterm.1 hx
      rw [hop]
      refine ⟨_, rfl, ?_, reference_contributes i t links⟩
      have hskip := skipPostfix_links hlinks hterm.2
      rw [Nat.add_assoc, Nat.add_comm 1] at hskip
      exact (b.reference_stop arena i t).trans (hskip.trans hstop)
  | number text =>
      have hi : i < b.size := hterm.1.lt_size
      have hlex := hterm.1.lexeme_getElem hi
      have hkind : b.tokens[i].kind = .other := congrArg Prod.fst hlex
      have htext : b.tokens[i].text = text := congrArg Prod.snd hlex
      have hchar : b.tokens[i].isCharLiteral = false := by
        rw [Token.isCharLiteral, hkind, htext]
        exact h.2
      have hnumber : b.tokens[i].showsNumber = true := by
        rw [Token.showsNumber, htext]
        exact h.1
      rw [Brackets.operand, dif_pos hi]
      simp only [hkind, hchar, hnumber, htext]
      exact ⟨_, rfl, rfl, _, rfl⟩
  | group inside links =>
      obtain ⟨hgroup, hrest⟩ := reads_append.1 hterm
      have hlength : i + (Written.group .paren inside).length = i + 1 + inside.length + 1 := by
        rw [length_group]
        omega
      rw [hlength] at hrest
      have hbehind : Reads b (i + 1 + inside.length + 1) (links.flatMap Link.lexemes ++ [l]) := by
        refine reads_append.2 ⟨hrest, ?_, trivial⟩
        rwa [← hlength, Nat.add_assoc, ← List.length_append]
      obtain ⟨line, hs, hop⟩ := operand_group arena h.1 hgroup (noCast_of_term h hl hbehind)
      rw [hop]
      refine (b.expression_ends arena (i + 1) hgroup.1.lt_size).map fun inner _ => ?_
      refine ⟨_, rfl, ?_, trivial⟩
      rw [stop_grouped, skipPostfix_links h.2.1 hrest, ← hlength, Nat.add_assoc, ← List.length_append]
      exact hstop

/-! ## The leading sum -/

/-- An expression that begins with an operand is read on behind it. -/
theorem expression_ends_of_operand {C : FlowError → Prop} {P : EmbeddedSql.Operand i → Prop}
    {Q : Expression → Prop}
    (h : Ends C (fun found => ∃ o, found = some o ∧ P o) (b.operand arena i))
    (hrest : ∀ o, P o → Ends C Q (b.readOn arena o.toExpression)) :
    Ends C Q (b.expression arena i) := by
  cases hop : b.operand arena i with
  | error err =>
      rw [Brackets.expression, hop]
      exact h.of_error hop
  | ok found =>
      obtain ⟨o, rfl, ho⟩ := h.of_ok hop
      rw [Brackets.expression_of_operand hop]
      exact hrest o ho

theorem joined_mem_joints {p : String × Term} (h : p.1 ∈ operators) : op p.1 ∈ joints :=
  List.mem_cons_of_mem _ (List.mem_map_of_mem h)

/-- What was read of a value: the leading sum, and the contributions of its operands one after the other. -/
structure LeadingRead (arena : Arena) (e : Initializer) (i : Nat) (r : Expression) : Prop where
  stop : r.stop = i + e.leadingLexemes.length
  contributions : ∃ parts : List (List Fragment),
    List.Forall₂ (Term.Contributes arena) e.leading parts ∧ r.fragments = parts.flatten

/-- The sum ends with the first operand, if no plus sign follows. -/
theorem leadingRead_first {e : Initializer} (hmore : e.more.takeWhile (·.1 == "+") = [])
    {o : EmbeddedSql.Operand i} (hstop : o.stop = i + e.first.lexemes.length)
    (hgives : e.first.Contributes arena o.fragments) : LeadingRead arena e i o.toExpression where
  stop := by
    rw [Initializer.leadingLexemes, hmore, List.flatMap_nil, List.append_nil]
    exact hstop
  contributions := by
    rw [Initializer.leading, hmore]
    exact ⟨[o.fragments], .cons hgives .nil, (List.append_nil _).symm⟩

/-- Otherwise it goes on behind the plus sign. -/
theorem LeadingRead.cons {first next : Term} {rest : List (String × Term)} {o : EmbeddedSql.Operand i}
    (hstop : o.stop = i + first.lexemes.length) (hgives : first.Contributes arena o.fragments)
    {r : Expression} (h : LeadingRead arena ⟨next, rest⟩ (o.stop + 1) r) :
    LeadingRead arena ⟨first, ("+", next) :: rest⟩ i (o.toExpression.append r) where
  stop := by
    have hlength : (Initializer.mk first (("+", next) :: rest)).leadingLexemes.length =
        first.lexemes.length + 1 + (Initializer.mk next rest).leadingLexemes.length := by
      simp only [Initializer.leadingLexemes, List.takeWhile_cons, beq_self_eq_true, if_true,
        List.flatMap_cons, joined, List.cons_append, List.length_append, List.length_cons]
      omega
    show r.stop = _
    rw [h.stop, hlength, hstop]
    omega
  contributions := by
    obtain ⟨parts, hparts, hfragments⟩ := h.contributions
    refine ⟨o.fragments :: parts, .cons hgives hparts, ?_⟩
    rw [Expression.append, hfragments]
    rfl

/-- Where a value stands, its leading sum is read. -/
theorem expression_initializer (arena : Arena) {first : Term} {more : List (String × Term)} {i : Nat}
    (h : (Initializer.mk first more).WellFormed)
    (hr : Reads b i ((Initializer.mk first more).lexemes ++ [punct ";"])) :
    Ends b.Faulty (LeadingRead arena ⟨first, more⟩ i) (b.expression arena i) := by
  induction more generalizing first i with
  | nil =>
      rw [Initializer.lexemes, List.flatMap_nil, List.append_nil] at hr
      have hsemicolon := (reads_append.1 hr).2.1
      refine expression_ends_of_operand (operand_term h.first List.mem_cons_self hr) fun o ho => ?_
      have hend : b.isOp o.toExpression.stop "+" = false := by
        show b.isOp o.stop "+" = false
        rw [ho.1, hsemicolon.isOp]
        exact decide_eq_false nofun
      rw [Brackets.readOn_of_not hend]
      exact leadingRead_first rfl ho.1 ho.2
  | cons p rest ih =>
      obtain ⟨operator, next⟩ := p
      have hp := h.more _ List.mem_cons_self
      have hnext : (Initializer.mk next rest).WellFormed :=
        ⟨hp.2, fun q hq => h.more q (List.mem_cons_of_mem _ hq)⟩
      rw [Initializer.lexemes, List.flatMap_cons, joined, List.append_assoc] at hr
      obtain ⟨hfirst, hjoint, hbehind⟩ := reads_append.1 hr
      refine expression_ends_of_operand (operand_term h.first (joined_mem_joints hp.1)
        (reads_append.2 ⟨hfirst, hjoint, trivial⟩)) fun o ho => ?_
      have hjoint : At b o.toExpression.stop (op operator) := by
        show At b o.stop _
        rw [ho.1]
        exact hjoint
      by_cases hplus : operator = "+"
      · subst hplus
        rw [Brackets.readOn_of_plus (by rw [hjoint.isOp]; exact decide_eq_true rfl)]
        rw [← ho.1] at hbehind
        exact (ih hnext hbehind).map fun r hr => hr.cons ho.1 ho.2
      · rw [Brackets.readOn_of_not (by
          rw [hjoint.isOp]
          exact decide_eq_false fun heq => hplus (Prod.mk.inj heq).2)]
        exact leadingRead_first (List.takeWhile_cons_of_neg (by simpa using hplus)) ho.1 ho.2

/-! ## The rest of a value -/

/-- Lexemes outside of brackets at which no declared value ends, and groups. -/
inductive Level : List Lexeme → Prop
  | nil : Level []
  | flat {l : Lexeme} {rest : List Lexeme} : Flat l → l ≠ punct ";" → l ≠ punct "," → Level rest →
      Level (l :: rest)
  | group {own : Bracket} {inside rest : List Lexeme} : Paired inside → Level rest →
      Level (group own inside ++ rest)

namespace Level

theorem append {ls' : List Lexeme} (h : Level ls) (h' : Level ls') : Level (ls ++ ls') := by
  induction h with
  | nil => exact h'
  | flat hl hsemicolon hcomma _ ih => exact .flat hl hsemicolon hcomma ih
  | group hinside _ ih =>
      rw [List.append_assoc]
      exact .group hinside ih

theorem flatMap {α : Type} {f : α → List Lexeme} {l : List α} (h : ∀ a ∈ l, Level (f a)) :
    Level (l.flatMap f) := by
  induction l with
  | nil => exact .nil
  | cons a rest ih =>
      rw [List.flatMap_cons]
      exact (h a List.mem_cons_self).append (ih fun c hc => h c (List.mem_cons_of_mem _ hc))

variable {stops : List String} (hstops : stops ⊆ [";", ","])
include hstops

/-- A token that is neither a semicolon nor a comma ends no value. -/
theorem not_stop_of_at (hat : At b i l) (hsemicolon : l ≠ punct ";") (hcomma : l ≠ punct ",")
    (hi : i < b.size) :
    ¬ (b.tokens[i].kind == .punctuation && stops.contains b.tokens[i].text) = true := by
  have hlex := hat.lexeme_getElem hi
  rw [Bool.and_eq_true, beq_iff_eq, List.contains_iff_mem]
  rintro ⟨hkind, htext⟩
  rw [lexeme, hkind] at hlex
  have htext := hstops htext
  simp only [List.mem_cons, List.not_mem_nil, or_false] at htext
  rcases htext with htext | htext
  · exact hsemicolon (hlex.symm.trans (by rw [htext]; rfl))
  · exact hcomma (hlex.symm.trans (by rw [htext]; rfl))

/-- The end of a statement or a declared value is looked for behind them. -/
theorem skipToStop_eq {i : Nat} (h : Level ls) (hr : Reads b i ls) :
    b.skipToStop stops i = b.skipToStop stops (i + ls.length) := by
  induction h generalizing i with
  | nil => rfl
  | @flat l rest hl hsemicolon hcomma _ ih =>
      obtain ⟨hat, hrest⟩ := hr
      have hlex := hat.lexeme_getElem hat.lt_size
      obtain ⟨hopen, hclose⟩ := opens?_of_flat (hlex ▸ hl)
      rw [Brackets.skipToStop, dif_pos hat.lt_size]
      dsimp only
      rw [if_neg (not_stop_of_at hstops hat hsemicolon hcomma hat.lt_size), hopen, hclose]
      refine (ih hrest).trans ?_
      rw [List.length_cons, Nat.add_assoc, Nat.add_comm 1]
  | @group own inside rest hinside _ ih =>
      obtain ⟨hgroup, hrest⟩ := reads_append.1 hr
      have hat := (reads_group hgroup).1
      have hopen := opens?_of_lexeme (hat.lexeme_getElem hat.lt_size)
      have hstop := not_stop_of_at hstops hat (by cases own <;> decide) (by cases own <;> decide) hat.lt_size
      rw [Brackets.skipToStop, dif_pos hat.lt_size]
      dsimp only
      rw [if_neg hstop, hopen, Option.isSome_some, if_pos rfl,
        skipGroup_group hinside hgroup, ih hrest, List.length_append, Nat.add_assoc]

end Level

theorem flat_of_kind (h : l.1 ≠ .punctuation) : Flat l := fun hkind => absurd hkind h

theorem level_of_kind (h : l.1 ≠ .punctuation) (hrest : Level ls) : Level (l :: ls) :=
  .flat (flat_of_kind h) (fun heq => h (congrArg Prod.fst heq)) (fun heq => h (congrArg Prod.fst heq)) hrest

theorem Link.level {k : Link} (h : k.WellFormed) : Level k.lexemes := by
  cases k with
  | member x => exact .flat flat_dot (by decide) (by decide) (level_of_kind nofun .nil)
  | reference x => exact level_of_kind nofun (level_of_kind nofun .nil)
  | group own inside =>
      have hgroup : Level (Written.group own inside ++ []) := .group h.2 .nil
      rwa [List.append_nil] at hgroup

theorem Term.level {term : Term} (h : term.WellFormed) : Level term.lexemes := by
  cases term with
  | literal text links => exact level_of_kind nofun (.flatMap fun k hk => k.level (h.2 k hk))
  | name x links => exact level_of_kind nofun (.flatMap fun k hk => k.level (h.2 k hk))
  | number text => exact level_of_kind nofun .nil
  | group inside links => exact .group h.1 (.flatMap fun k hk => k.level (h.2.1 k hk))

theorem Initializer.WellFormed.level_rest {e : Initializer} (h : e.WellFormed) :
    Level ((e.more.dropWhile (·.1 == "+")).flatMap joined) :=
  .flatMap fun p hp =>
    level_of_kind nofun (Term.level (h.more p (List.dropWhile_subset _ hp)).2)

/-! ## Declarations -/

variable {cx : FlowContext} {s : FlowState}

theorem scanLoose_like (cx : FlowContext) (s : FlowState) (start stop : Nat) :
    Ends cx.Cause (fun s' => s.arena.Like s'.arena) (cx.scanLoose s start stop) := by
  have hsound := cx.scanLoose_sound s start stop
  cases hscan : cx.scanLoose s start stop with
  | error err => exact hsound.of_error hscan
  | ok s' =>
      obtain ⟨rs, -, hrecords⟩ := FlowContext.scanLoose_records hscan
      exact hrecords.arena

theorem rebind_get? (cx : FlowContext) (s : FlowState) (v : Variable) :
    Ends cx.Cause (fun s' => s'.arena.get? v.name = some v) (cx.rebind s v) := by
  have hshows := (cx.discard_shows s v.name).sound
  exact hshows.map fun s' _ => Arena.get?_put_self s'.arena v

/-- The variable has the contributions of the leading sum. -/
def Holds (arena : Arena) (x : String) (e : Initializer) (s : FlowState) : Prop :=
  ∃ v, s.arena.get? x = some v ∧ v.kind = .plain ∧ ∃ parts : List (List Fragment),
    List.Forall₂ (Term.Contributes arena) e.leading parts ∧ v.fragments = parts.flatten

theorem bindPlain_initializer {e : Initializer} (he : e.WellFormed) {rhs : Nat}
    (hr : Reads cx.scope.toBrackets rhs (e.lexemes ++ [punct ";"])) {binding : Binding}
    (hb : binding.reassign = false) :
    Ends cx.Cause
      (fun r => r.2 = rhs + e.lexemes.length ∧ Holds s.arena binding.name e r.1)
      (cx.bindPlain s binding rhs) := by
  obtain ⟨hlexemes, hsemicolon, -⟩ := reads_append.1 hr
  have hread := expression_initializer s.arena he hr
  rw [e.lexemes_eq] at hlexemes
  obtain ⟨-, hrest⟩ := reads_append.1 hlexemes
  have hpos : rhs + e.lexemes.length < cx.scope.size := hsemicolon.lt_size
  rw [FlowContext.bindPlain]
  refine (FlowContext.expression_of_scope (by omega) hread).bind fun r hleading => ?_
  have hstop : cx.scope.skipToStop [";", ","] r.stop = rhs + e.lexemes.length := by
    rw [hleading.stop, he.level_rest.skipToStop_eq (List.Subset.refl _) hrest, Nat.add_assoc, ← List.length_append,
      ← e.lexemes_eq, StraightLine.skipToStop_eq hsemicolon (by decide)]
  rw [hstop]
  refine (FlowContext.lastLine_ends (by omega) (Nat.le_of_lt hsemicolon.lt_size)).bind fun last _ => ?_
  simp only [hb, Bool.false_and, Bool.false_eq_true, if_false]
  refine (rebind_get? cx _ _).bind fun s' hs' => ?_
  refine (scanLoose_like cx s' _ _).map fun s'' hlike => ⟨rfl, ?_⟩
  have hget := hlike binding.name
  rw [Arena.LikeAt, hs'] at hget
  obtain ⟨v, hv, hsame⟩ := Option.map_eq_some_iff.1 hget
  refine ⟨v, hv, congrArg Variable.kind hsame, ?_⟩
  obtain ⟨parts, hparts, hfragments⟩ := hleading.contributions
  exact ⟨parts, hparts, (congrArg Variable.fragments hsame).trans hfragments⟩

/-- A value with an operand in front is no construction. -/
theorem isWord_new_initializer {e : Initializer} (he : e.WellFormed) {rhs : Nat}
    (hr : Reads b rhs (e.lexemes ++ ls)) : b.isWord rhs "new" = false := by
  obtain ⟨first, more⟩ := e
  have hfirst := he.first
  cases first with
  | literal text links =>
      rw [hr.1.isWord]
      rfl
  | name x links =>
      rw [hr.1.isWord]
      refine decide_eq_false fun heq => hfirst.1 ?_
      rw [(Prod.mk.inj heq).2]
      exact List.mem_cons_self
  | number text =>
      rw [hr.1.isWord]
      rfl
  | group inside links =>
      rw [hr.1.isWord]
      rfl

/-- A declaration is taken to its semicolon, and its variable holds what the operands of the leading sum
contribute, and nothing else. -/
theorem step_initializer {typeName x : String} {e : Initializer} (he : e.WellFormed)
    (hplain : cx.rules.isPlainType typeName = true)
    (hbuilder : cx.rules.isBuilderType typeName = false) (hvar : typeName ≠ "var")
    (hi : cx.scope.atDeclarationBoundary i = true)
    (hr : Reads cx.scope.toBrackets i
      ([word typeName, word x, op "="] ++ (e.lexemes ++ [punct ";"]))) :
    Ends cx.Cause (fun r => r.2 = i + 3 + e.lexemes.length + 1 ∧ Holds s.arena x e r.1)
      (cx.step s i) := by
  obtain ⟨hhead, hvalue⟩ := reads_append.1 hr
  have hvalue : Reads cx.scope.toBrackets (i + 3) (e.lexemes ++ [punct ";"]) := hvalue
  have hsemicolon := (reads_append.1 hvalue).2.1
  refine step_declaring hi hhead (by rw [hplain, Bool.true_or]) hvar hsemicolon (by omega) ?_
  have hnew : cx.scope.isWord (i + 3) "new" = false := isWord_new_initializer he hvalue
  rw [FlowContext.bindValue, FlowContext.constructsBuilder, FlowContext.losesTarget, hnew, hbuilder]
  simp only [Bool.false_and, Bool.and_false, Bool.or_false, Bool.false_eq_true, if_false]
  exact bindPlain_initializer he hvalue rfl

/-- A product in the middle of a value. -/
def cutOff : FlowContext :=
  .ofTokens .standard RuleSet.standard.classifier standardPlaceholder
    (significant ((tokenize "String s = \"SELECT \" + 6 * 7 + \" FROM t\";").toOption.getD []))

/-- The value. -/
def cutOffValue : Initializer where
  first := .literal "\"SELECT \"" []
  more := [("+", .number "6"), ("*", .number "7"), ("+", .literal "\" FROM t\"" [])]

/-- It cuts the value off: neither the other factor nor the literal behind it comes to the variable. -/
theorem step_cutOff :
    ∃ s' v line line', cutOff.step .start 0 = .ok (s', 11) ∧ s'.arena.get? "s" = some v ∧
      v.fragments = [.literal "SELECT " line, .literal "6" line'] := by
  have hfirst : Literal.value "\"SELECT \"" = .ok "SELECT " := by
    simp [Literal.value, Literal.isTextBlock, Literal.decode, Text.ofString]
  have hsecond : Literal.value "\" FROM t\"" = .ok " FROM t" := by
    simp [Literal.value, Literal.isTextBlock, Literal.decode, Text.ofString]
  have hmore : ∀ p ∈ cutOffValue.more, p.1 ∈ operators ∧ p.2.WellFormed := by
    intro p hp
    simp only [cutOffValue, List.mem_cons, List.not_mem_nil, or_false] at hp
    rcases hp with rfl | rfl | rfl
    · exact ⟨by decide, by decide, by decide⟩
    · exact ⟨by decide, by decide, by decide⟩
    · exact ⟨by decide, ⟨_, hsecond⟩, nofun⟩
  have hr : Reads cutOff.scope.toBrackets 0
      ([word "String", word "s", op "="] ++ (cutOffValue.lexemes ++ [punct ";"])) :=
    reads_drop (show _ = _ by decide +kernel)
  have he : cutOffValue.WellFormed := ⟨⟨⟨_, hfirst⟩, nofun⟩, hmore⟩
  have hends := step_initializer (s := .start) he (by decide +kernel) (by decide +kernel) (by decide)
    (by decide +kernel) hr
  have hgives : (cutOff.step .start 0).toOption.isSome = true := by decide +kernel
  cases hstep : cutOff.step .start 0 with
  | error err =>
      rw [hstep] at hgives
      cases hgives
  | ok r =>
      obtain ⟨hnext, v, hv, -, parts, hparts, hfragments⟩ := hends.of_ok hstep
      have hparts : List.Forall₂ (Term.Contributes [])
        [.literal "\"SELECT \"" [], .number "6"] parts := hparts
      cases hparts with
      | cons hliteral hrest =>
          cases hrest with
          | cons hnumber hnil =>
              cases hnil
              obtain ⟨value, line, hvalue, rfl⟩ := hliteral
              obtain ⟨line', rfl⟩ := hnumber
              obtain rfl : "SELECT " = value := Except.ok.inj (hfirst.symm.trans hvalue)
              exact ⟨r.1, v, line, line', congrArg Except.ok (Prod.ext rfl hnext), hv, hfragments⟩

end EmbeddedSql.Written
