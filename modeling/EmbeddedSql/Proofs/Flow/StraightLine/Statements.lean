/-
# One statement at a time

Where a statement stands, one step of the analysis takes it as a whole and does to the state what the
statement does to memory.  A declaration is taken by the first handler, an assignment by the second, a
chain of calls by the third; each of them ends at the semicolon.
-/
import EmbeddedSql.Proofs.Flow.Failure
import EmbeddedSql.Proofs.Flow.StraightLine.Tracking

namespace EmbeddedSql.StraightLine

variable {b : Brackets} {i : Nat} {l : Lexeme}

/-! ## Where statements begin -/

/-- A statement begins at the start or after a semicolon. -/
def Begins (b : Brackets) (i : Nat) : Prop := i = 0 ∨ ∃ k, i = k + 1 ∧ At b k (punct ";")

namespace Begins

theorem before (h : Begins b i) :
    b.tokenBefore? i 1 = none ∨ ∃ t, b.tokenBefore? i 1 = some t ∧ lexeme t = punct ";" := by
  rcases h with rfl | ⟨k, rfl, hk⟩
  · exact .inl rfl
  · rw [Brackets.tokenBefore?_succ]
    exact .inr hk.exists_token

theorem atBoundary (h : Begins b i) : b.atBoundary i = true := by
  rw [Brackets.atBoundary]
  rcases h.before with ht | ⟨t, ht, hl⟩
  · rw [ht]
  · have hkind : t.kind = .punctuation := congrArg Prod.fst hl
    have htext : t.text = ";" := congrArg Prod.snd hl
    rw [ht]
    simp [hkind, htext]

theorem afterDot (h : Begins b i) : b.afterDot i = false := by
  rw [Brackets.afterDot]
  rcases h.before with ht | ⟨t, ht, hl⟩
  · rw [ht]
    rfl
  · rw [ht, Option.any_some, isPunct_eq, hl]
    decide

/-- No annotation stands before a statement. -/
theorem atDeclarationBoundary (h : Begins b i) : b.atDeclarationBoundary i = true := by
  have hargs : b.beforeArguments i = i := by
    rw [Brackets.beforeArguments]
    rcases h.before with ht | ⟨t, ht, hl⟩
    · rw [ht]
      rfl
    · rw [ht, Option.any_some, isPunct_eq, hl]
      rfl
  have hstart : b.annotationStart i = i := by
    rw [Brackets.annotationStart, hargs, dif_neg]
    rintro ⟨hid, -⟩
    rcases h.before with ht | ⟨t, ht, hl⟩
    · rw [ht] at hid
      cases hid
    · rw [ht, Option.any_some, Token.isIdent, beq_iff_eq] at hid
      cases hid.symm.trans (congrArg Prod.fst hl)
  rw [Brackets.atDeclarationBoundary, hstart, h.atBoundary, Bool.true_or]

end Begins

/-! ## Places and lines -/

variable {cx : FlowContext}

theorem exists_fetch (hi : i < cx.scope.size) :
    ∃ t, cx.scope.token? i = some t ∧ cx.fetch i = .ok t ∧
      t.startLine = startLineAt cx.scope.tokens.toList i ∧
      t.endLine = endLineAt cx.scope.tokens.toList i := by
  obtain ⟨t, ht⟩ : ∃ t, cx.scope.tokens[i]? = some t := ⟨_, Array.getElem?_eq_getElem hi⟩
  refine ⟨t, ht, ?_, ?_, ?_⟩
  · rw [FlowContext.fetch, Brackets.token?, ht]
  · simp [startLineAt, ht]
  · simp [endLineAt, ht]

theorem At.fetch (h : At cx.scope.toBrackets i l) :
    ∃ t, cx.scope.token? i = some t ∧ cx.fetch i = .ok t ∧ lexeme t = l ∧
      t.startLine = startLineAt cx.scope.tokens.toList i ∧
      t.endLine = endLineAt cx.scope.tokens.toList i := by
  obtain ⟨t, ht, hf, hlines⟩ := exists_fetch h.lt_size
  obtain ⟨u, hu, hl⟩ := h.exists_token
  obtain rfl := Option.some.inj (ht.symm.trans hu)
  exact ⟨t, ht, hf, hl, hlines⟩

theorem lastLine_eq {start stop : Nat} (h : start < stop)
    (hl : At cx.scope.toBrackets stop l) :
    cx.lastLine start stop = .ok (endLineAt cx.scope.tokens.toList (stop - 1)) := by
  obtain ⟨t, -, ht, -, hline⟩ :=
    exists_fetch (Nat.lt_of_le_of_lt (Nat.sub_le stop 1) hl.lt_size)
  rw [FlowContext.lastLine, if_pos h, ht, ← hline]
  rfl

theorem skipToStop_eq {stops : List String} (h : At b i (punct ";")) (hs : ";" ∈ stops) :
    b.skipToStop stops i = i := by
  have hi : i < b.size := h.lt_size
  have hl := h.lexeme_getElem hi
  have hkind : b.tokens[i].kind = .punctuation := congrArg Prod.fst hl
  have htext : b.tokens[i].text = ";" := congrArg Prod.snd hl
  rw [Brackets.skipToStop, dif_pos hi]
  simp [hkind, htext, hs]

theorem afterStatement_eq (h : At cx.scope.toBrackets i (punct ";")) :
    cx.afterStatement i = i + 1 := by
  rw [FlowContext.afterStatement, h.isPunct]
  rfl

/-! ## Plain variables -/

variable {kinds : Kinds} {m : Memory} {s : FlowState} {e : Expr} {rhs : Nat}

theorem Expr.length_pos (e : Expr) : 0 < e.lexemes.length := by
  have ho (o : Operand) : 0 < o.lexemes.length := by cases o <;> simp [Operand.lexemes]
  cases e with
  | one o => exact ho o
  | plus o rest =>
      rw [Expr.lexemes, List.length_append, List.length_cons]
      omega

/-- An expression begins with its name and a `+` if it continues it. -/
theorem continues_eq (hr : Reads b rhs (e.lexemes ++ [punct ";"])) (x : String) :
    (b.isWord rhs x && b.isOp (rhs + 1) "+") = e.continues x := by
  have hsemi : decide (punct ";" = op "+") = false := by decide
  have hdot : decide (punct "." = op "+") = false := by decide
  cases e with
  | one o =>
      cases o with
      | literal text =>
          rw [hr.1.isWord]
          simp [word, Expr.continues]
      | name y =>
          rw [hr.2.1.isOp, hsemi, Bool.and_false]
          rfl
      | toText y =>
          rw [hr.2.1.isOp, hdot, Bool.and_false]
          rfl
  | plus o rest =>
      cases o with
      | literal text =>
          rw [hr.1.isWord]
          simp [word, Expr.continues]
      | name y =>
          rw [hr.1.isWord, hr.2.1.isOp]
          simp [word, Expr.continues, Bool.beq_eq_decide_eq]
      | toText y =>
          rw [hr.2.1.isOp, hdot, Bool.and_false]
          rfl

/-- The value of a plain variable is read up to the semicolon.  A new accumulation begins with it,
unless an assignment continues the one before. -/
theorem bindPlain_eq (hcx : Standard cx) (h : Agrees kinds m s) (he : e.Readable)
    (hr : Reads cx.scope.toBrackets rhs (e.lexemes ++ [punct ";"]))
    (hd : cx.scope.afterDot rhs = false) (binding : Binding)
    (hk : binding.reassign = true → kinds binding.name = some .plain) :
    let last := endLineAt cx.scope.tokens.toList (rhs + e.lexemes.length - 1)
    ∃ s', cx.bindPlain s binding rhs = .ok (s', rhs + e.lexemes.length) ∧
      if (binding.reassign && e.continues binding.name) = true then
        Agrees kinds (m.advance binding.name (fun _ => e.eval m) last) s'
      else
        Agrees (kinds.set binding.name .plain)
          (m.bind ⟨binding.name, .plain, e.eval m, binding.line, max binding.line last⟩) s' := by
  intro last
  obtain ⟨r, hex, hstop, hc⟩ := expression_reads he h.live hr (.inl rfl) hd
  have hsemi : At cx.scope.toBrackets r.stop (punct ";") := hstop ▸ (reads_append.1 hr).2.1
  have hlast : cx.lastLine rhs r.stop = .ok last := by
    rw [lastLine_eq (by rw [hstop]; exact Nat.lt_add_of_pos_right e.length_pos) hsemi, hstop]
  have hcont : (binding.reassign && (s.arena.get? binding.name).any (·.kind == .plain)
      && cx.scope.isWord rhs binding.name && cx.scope.isOp (rhs + 1) "+")
      = (binding.reassign && e.continues binding.name) := by
    cases hre : binding.reassign with
    | false => rfl
    | true =>
        rw [h.any_kind (hk hre), ← continues_eq hr]
        rfl
  rw [FlowContext.bindPlain, FlowContext.expression_of_unlimited hcx.room, hex]
  dsimp only [bind, Except.bind]
  rw [skipToStop_eq hsemi (by decide), hlast]
  dsimp only
  rw [hcont, ← hstop]
  by_cases hre : (binding.reassign && e.continues binding.name) = true
  · rw [if_pos hre]
    refine ⟨(s.commit r).modify binding.name (·.regrow r.fragments last), ?_, ?_⟩
    · dsimp only [pure, Except.pure]
      rw [scanLoose_eq hcx hc fun j hj => ?_]
      · rfl
      · rw [committed_modify]
        exact List.mem_append_right _ hj
    · rw [if_pos hre]
      refine modify_agrees (h.commit r) (hk (Bool.and_eq_true_iff.1 hre).1) _ last (fun w => ?_)
        fun w => rfl
      rw [accumulation, ← hc.parts_eq]
      rfl
  · rw [if_neg hre]
    obtain ⟨s', hs', hcom, ha⟩ := rebind_agrees hcx (h.commit r)
      ⟨binding.name, .plain, binding.line, max binding.line last, r.fragments, none⟩ rfl
    refine ⟨s', ?_, ?_⟩
    · rw [hs']
      dsimp only
      rw [scanLoose_eq hcx hc fun j hj => hcom ▸ List.mem_append_right _ hj]
      rfl
    · rw [if_neg hre, ← hc.parts_eq]
      exact ha

/-! ## The first token of a value -/

theorem Expr.head_eq (e : Expr) :
    ∃ (o : Operand) (rest : List Lexeme), e.lexemes = o.lexemes ++ rest ∧ (e.Readable → o.Readable) := by
  cases e with
  | one o => exact ⟨o, [], (List.append_nil _).symm, id⟩
  | plus o rest => exact ⟨o, _, rfl, And.left⟩

/-- A value is no construction. -/
theorem isWord_new (he : e.Readable) {ls : List Lexeme} (hr : Reads b i (e.lexemes ++ ls)) :
    b.isWord i "new" = false := by
  obtain ⟨o, rest, hl, ho⟩ := e.head_eq
  rw [hl, List.append_assoc] at hr
  have ho := ho he
  cases o with
  | literal text =>
      rw [hr.1.isWord]
      rfl
  | name x | toText x =>
      rw [hr.1.isWord, decide_eq_false_iff_not]
      intro hx
      obtain rfl : x = "new" := congrArg Prod.snd hx
      exact ho List.mem_cons_self

/-! ## Declarations and assignments -/

/-- A declaration begins with two names. -/
theorem declaration?_eq_none (h : At cx.scope.toBrackets (i + 1) l) (hl : l.1 ≠ .identifier) :
    cx.declaration? s i = .ok none := by
  rw [FlowContext.declaration?]
  cases cx.scope.token? i with
  | none => rfl
  | some t =>
      dsimp only
      have hid : cx.scope.isIdent (i + 1) = false := by
        rw [h.isIdent]
        exact beq_false_of_ne hl
      rw [hid, if_neg (by simp)]

/-- A declaration is found where one can begin and a tracked type is followed by a name and the end of a
declarator. -/
theorem declaration?_eq {typeName x : String} (hi : cx.scope.atDeclarationBoundary i = true)
    (hr : Reads cx.scope.toBrackets i [word typeName, word x])
    (hends : cx.scope.endsDeclarator (i + 2) = true)
    (htype : typeName = "var" ∨
      (cx.rules.isPlainType typeName || cx.rules.isBuilderType typeName) = true) :
    cx.declaration? s i =
      (cx.declarators s typeName (startLineAt cx.scope.tokens.toList i) (i + 1)).map some := by
  obtain ⟨t, ht, -, hl, hline, -⟩ := hr.1.fetch
  have hkind : t.kind = .identifier := congrArg Prod.fst hl
  have htext : t.text = typeName := congrArg Prod.snd hl
  have hid : cx.scope.isIdent (i + 1) = true := hr.2.1.isIdent
  have htracked : (typeName == "var" || cx.rules.isPlainType typeName ||
      cx.rules.isBuilderType typeName) = true := by
    rw [Bool.or_assoc, Bool.or_eq_true, beq_iff_eq]
    exact htype
  rw [FlowContext.declaration?, ht]
  dsimp only
  rw [Token.isIdent, hkind, htext, htracked, hid, hends, hi, hline]
  rfl

/-- A step takes the declaration that is found. -/
theorem step_of_declaration {C : FlowError → Prop} {P : FlowState × Nat → Prop}
    {o : Except FlowError (FlowState × Nat)} (hd : cx.declaration? s i = o.map some)
    (h : Ends C (fun r => P (r.1, max r.2 (i + 1))) o) : Ends C P (cx.step s i) := by
  rw [FlowContext.step, hd]
  cases o with
  | error err => exact h
  | ok r => exact h

/-- A declaration of one variable is taken up to its semicolon, wherever one can begin, with what binding its
value leads to. -/
theorem step_declaring {typeName x : String} {C : FlowError → Prop} {P : FlowState → Prop} {stop : Nat}
    (hi : cx.scope.atDeclarationBoundary i = true)
    (hr : Reads cx.scope.toBrackets i [word typeName, word x, op "="])
    (htype : (cx.rules.isPlainType typeName || cx.rules.isBuilderType typeName) = true)
    (hvar : typeName ≠ "var") (hstop : At cx.scope.toBrackets stop (punct ";")) (hlt : i < stop)
    (hb : Ends C (fun r => r.2 = stop ∧ P r.1) (cx.bindValue s ⟨x, startLineAt cx.scope.tokens.toList i,
      cx.rules.isBuilderType typeName, false, false⟩ (i + 3))) :
    Ends C (fun r => r.2 = stop + 1 ∧ P r.1) (cx.step s i) := by
  obtain ⟨h₀, h₁, h₂, -⟩ := hr
  obtain ⟨u, -, hu, hl, -, -⟩ := h₁.fetch
  have htext : u.text = x := congrArg Prod.snd hl
  have hop : cx.scope.isOp (i + 2) "=" = true := by
    rw [h₂.isOp]
    decide
  have hends : cx.scope.endsDeclarator (i + 2) = true := by
    rw [Brackets.endsDeclarator, hop]
    rfl
  have hdecl : Ends C (fun r => r.2 = stop ∧ P r.1)
      (cx.declarator s typeName (startLineAt cx.scope.tokens.toList i) (i + 1)) := by
    rw [FlowContext.declarator, hu]
    show Ends C _ (if cx.scope.isOp (i + 2) "=" = true then _ else _)
    rw [if_pos hop, htext, beq_false_of_ne hvar]
    exact hb
  refine step_of_declaration (declaration?_eq hi ⟨h₀, h₁, trivial⟩ hends (.inr htype)) ?_
  rw [FlowContext.declarators]
  refine hdecl.bind ?_
  rintro ⟨s', stop'⟩ ⟨rfl, hs'⟩
  dsimp only
  rw [dif_neg, afterStatement_eq hstop]
  · exact ⟨Nat.max_eq_left (Nat.succ_le_succ (Nat.le_of_lt hlt)), hs'⟩
  · rw [hstop.isPunct]
    rintro ⟨h, -⟩
    revert h
    decide

theorem step_declaration {typeName x : String} (hi : Begins cx.scope.toBrackets i)
    (hr : Reads cx.scope.toBrackets i [word typeName, word x, op "="])
    (htype : (cx.rules.isPlainType typeName || cx.rules.isBuilderType typeName) = true)
    (hvar : typeName ≠ "var") {s' : FlowState} {stop : Nat}
    (hb : cx.bindValue s ⟨x, startLineAt cx.scope.tokens.toList i,
      cx.rules.isBuilderType typeName, false, false⟩ (i + 3) = .ok (s', stop))
    (hstop : At cx.scope.toBrackets stop (punct ";")) (hlt : i < stop) :
    cx.step s i = .ok (s', stop + 1) := by
  have hends := step_declaring (s := s) (C := fun _ => False) (P := (· = s')) hi.atDeclarationBoundary hr
    htype hvar hstop hlt (by rw [hb]; exact ⟨rfl, rfl⟩)
  cases hstep : cx.step s i with
  | error err => exact (hends.of_error hstep).elim
  | ok r =>
      obtain ⟨hnext, hs'⟩ := hends.of_ok hstep
      exact congrArg Except.ok (Prod.ext hs' hnext)

theorem step_of_assignment {s' : FlowState} {next : Nat} (hn : i < next)
    (hd : cx.declaration? s i = .ok none) (h : cx.assignment? s i = .ok (some (s', next))) :
    cx.step s i = .ok (s', next) := by
  rw [FlowContext.step, hd]
  dsimp only [bind, Except.bind]
  rw [h]
  show Except.ok (s', max next (i + 1)) = _
  rw [Nat.max_eq_left hn]

/-- An assignment to a known name is handled by its operator. -/
theorem assignment?_eq (h : Agrees kinds m s) {x : String} {kind : VariableKind}
    (hk : kinds x = some kind) (hi : Begins cx.scope.toBrackets i)
    (hx : At cx.scope.toBrackets i (word x)) :
    cx.assignment? s i =
      if cx.scope.isOp (i + 1) "=" then
        (cx.bindValue s (cx.assignmentTo x (startLineAt cx.scope.tokens.toList i) kind) (i + 2)).map
          fun (s, stop) => some (s, cx.afterStatement stop)
      else if cx.scope.isOp (i + 1) "+=" then
        (cx.compoundAssignment s x (i + 2)).map some
      else .ok none := by
  obtain ⟨t, ht, -, hl, hline, -⟩ := hx.fetch
  have hkind : t.kind = .identifier := congrArg Prod.fst hl
  have htext : t.text = x := congrArg Prod.snd hl
  have hdecl : s.declaredKind? t.text = some kind := by rw [htext, h.declared, hk]
  rw [FlowContext.assignment?, ht]
  dsimp only
  rw [hdecl, Option.some_or, Token.isIdent, hkind, hi.atBoundary, htext, hline]
  rfl

/-- An assignment is taken up to its semicolon. -/
theorem step_assignment (h : Agrees kinds m s) {x : String} {kind : VariableKind}
    (hk : kinds x = some kind) (hi : Begins cx.scope.toBrackets i)
    (hr : Reads cx.scope.toBrackets i [word x, op "="]) {s' : FlowState} {stop : Nat}
    (hb : cx.bindValue s (cx.assignmentTo x (startLineAt cx.scope.tokens.toList i) kind) (i + 2) =
      .ok (s', stop))
    (hstop : At cx.scope.toBrackets stop (punct ";")) (hlt : i < stop) :
    cx.step s i = .ok (s', stop + 1) := by
  refine step_of_assignment (Nat.lt_succ_of_lt hlt) (declaration?_eq_none hr.2.1 nofun) ?_
  rw [assignment?_eq h hk hi hr.1, hr.2.1.isOp, if_pos (by decide), hb]
  show Except.ok (some (s', cx.afterStatement stop)) = _
  rw [afterStatement_eq hstop]

/-- A value that is no construction is bound to a plain variable. -/
theorem bindValue_eq_bindPlain (h : Agrees kinds m s) (hnew : cx.scope.isWord rhs "new" = false)
    {binding : Binding} (hb : binding.builderType = false)
    (hk : binding.reassign = true → kinds binding.name = some .plain) :
    cx.bindValue s binding rhs = cx.bindPlain s binding rhs := by
  have hre : (binding.reassign && (s.arena.get? binding.name).any (·.kind == .builder)) = false := by
    cases hre : binding.reassign with
    | false => rfl
    | true =>
        rw [h.any_kind (hk hre)]
        rfl
  have hloses : cx.losesTarget s binding rhs = false := by
    rw [FlowContext.losesTarget, hb, hre, hnew, Bool.and_false]
    rfl
  have hcons : cx.constructsBuilder binding rhs = false := by
    rw [FlowContext.constructsBuilder, hnew]
    rfl
  rw [FlowContext.bindValue, hcons, hloses, if_neg Bool.false_ne_true, if_neg Bool.false_ne_true]

/-- `String x = e;` -/
theorem step_declare (hcx : Standard cx) (h : Agrees kinds m s) {x : String} (he : e.Readable)
    (hi : Begins cx.scope.toBrackets i)
    (hr : Reads cx.scope.toBrackets i (Statement.declare x e).lexemes) :
    ∃ s', cx.step s i = .ok (s', i + (Statement.declare x e).lexemes.length) ∧
      Agrees (kinds.set x .plain)
        ((Statement.declare x e).exec cx.scope.tokens.toList i m) s' := by
  obtain ⟨h₀, h₁, h₂, hr⟩ := hr
  have hr : Reads cx.scope.toBrackets (i + 3) (e.lexemes ++ [punct ";"]) := hr
  have hsemi : At cx.scope.toBrackets (i + 3 + e.lexemes.length) (punct ";") :=
    (reads_append.1 hr).2.1
  have hplain : cx.rules.isPlainType "String" = true := by
    rw [hcx.rules]
    decide
  have hbuilder : cx.rules.isBuilderType "String" = false := by
    rw [hcx.rules]
    decide
  obtain ⟨s', hb, ha⟩ := bindPlain_eq hcx h he hr (by rw [h₂.afterDot]; decide)
    ⟨x, startLineAt cx.scope.tokens.toList i, false, false, false⟩ nofun
  have hlen : (Statement.declare x e).body.length = 3 + e.lexemes.length := by
    rw [Statement.body, List.length_append]
    rfl
  refine ⟨s', ?_, ?_⟩
  · rw [Statement.lexemes, List.length_append, hlen, ← Nat.add_assoc, ← Nat.add_assoc]
    refine step_declaration hi ⟨h₀, h₁, h₂, trivial⟩ (by rw [hplain, Bool.true_or]) (by decide) ?_
      hsemi (by omega)
    rw [hbuilder]
    exact (bindValue_eq_bindPlain h (isWord_new he hr) rfl (by nofun)).trans hb
  · rw [Statement.exec, hlen, ← Nat.add_assoc]
    exact ha

theorem Kinds.set_eq (kinds : Kinds) {x : String} {kind : VariableKind} (h : kinds x = some kind) :
    kinds.set x kind = kinds := by
  funext y
  by_cases hy : y = x
  · rw [Kinds.set, if_pos hy, hy, h]
  · rw [Kinds.set, if_neg hy]

/-- `x = e;` -/
theorem step_assign (hcx : Standard cx) (h : Agrees kinds m s) {x : String} (he : e.Readable)
    (hk : kinds x = some .plain) (hi : Begins cx.scope.toBrackets i)
    (hr : Reads cx.scope.toBrackets i (Statement.assign x e).lexemes) :
    ∃ s', cx.step s i = .ok (s', i + (Statement.assign x e).lexemes.length) ∧
      Agrees kinds ((Statement.assign x e).exec cx.scope.tokens.toList i m) s' := by
  obtain ⟨h₀, h₁, hr⟩ := hr
  have hr : Reads cx.scope.toBrackets (i + 2) (e.lexemes ++ [punct ";"]) := hr
  have hsemi : At cx.scope.toBrackets (i + 2 + e.lexemes.length) (punct ";") :=
    (reads_append.1 hr).2.1
  have hvar : cx.rules.isBuilderType "var" = false := by
    rw [hcx.rules]
    decide
  obtain ⟨s', hb, ha⟩ := bindPlain_eq hcx h he hr (by rw [h₁.afterDot]; decide)
    (cx.assignmentTo x (startLineAt cx.scope.tokens.toList i) .plain) fun _ => hk
  have hlen : (Statement.assign x e).body.length = 2 + e.lexemes.length := by
    rw [Statement.body, List.length_append]
    rfl
  refine ⟨s', ?_, ?_⟩
  · rw [Statement.lexemes, List.length_append, hlen, ← Nat.add_assoc, ← Nat.add_assoc]
    refine step_assignment h hk hi ⟨h₀, h₁, trivial⟩ ?_ hsemi (by omega)
    exact (bindValue_eq_bindPlain h (isWord_new he hr) hvar fun _ => hk).trans hb
  · rw [Statement.exec, hlen, ← Nat.add_assoc]
    have hcont : ((cx.assignmentTo x (startLineAt cx.scope.tokens.toList i) .plain).reassign
      && e.continues x) = e.continues x := Bool.true_and _
    rw [FlowContext.assignmentTo] at hcont ha
    dsimp only at hcont ha
    rw [hcont] at ha
    by_cases hc : e.continues x = true
    · rw [if_pos hc] at ha ⊢
      exact ha
    · rw [if_neg hc] at ha ⊢
      exact kinds.set_eq hk ▸ ha

/-- `x += e;` -/
theorem step_grow (hcx : Standard cx) (h : Agrees kinds m s) {x : String} (he : e.Readable)
    (hk : kinds x = some .plain) (hi : Begins cx.scope.toBrackets i)
    (hr : Reads cx.scope.toBrackets i (Statement.grow x e).lexemes) :
    ∃ s', cx.step s i = .ok (s', i + (Statement.grow x e).lexemes.length) ∧
      Agrees kinds ((Statement.grow x e).exec cx.scope.tokens.toList i m) s' := by
  obtain ⟨h₀, h₁, hr⟩ := hr
  have hr : Reads cx.scope.toBrackets (i + 2) (e.lexemes ++ [punct ";"]) := hr
  obtain ⟨r, hex, hstop, hc⟩ := expression_reads he h.live hr (.inl rfl) (by rw [h₁.afterDot]; decide)
  have hsemi : At cx.scope.toBrackets r.stop (punct ";") := hstop ▸ (reads_append.1 hr).2.1
  have hlen : (Statement.grow x e).body.length = 2 + e.lexemes.length := by
    rw [Statement.body, List.length_append]
    rfl
  have hstop' : i + (Statement.grow x e).body.length = r.stop := by
    rw [hlen, ← Nat.add_assoc, hstop]
  have hlast : cx.lastLine (i + 2) r.stop = .ok (endLineAt cx.scope.tokens.toList (r.stop - 1)) :=
    lastLine_eq (by rw [hstop]; exact Nat.lt_add_of_pos_right e.length_pos) hsemi
  let s' := (s.commit r).modify x
    (·.extend r.fragments (endLineAt cx.scope.tokens.toList (r.stop - 1)))
  have hcomp : cx.compoundAssignment s x (i + 2) = .ok (s', r.stop + 1) := by
    rw [FlowContext.compoundAssignment, FlowContext.expression_of_unlimited hcx.room, hex]
    dsimp only [bind, Except.bind]
    rw [skipToStop_eq hsemi (by decide), hlast, h.any_kind hk, if_pos (by decide),
      afterStatement_eq hsemi]
    dsimp only [pure, Except.pure]
    rw [scanLoose_eq hcx hc fun j hj => ?_]
    · rfl
    · rw [committed_modify]
      exact List.mem_append_right _ hj
  refine ⟨s', ?_, ?_⟩
  · rw [Statement.lexemes, List.length_append, ← Nat.add_assoc, hstop']
    refine step_of_assignment (by omega) (declaration?_eq_none h₁ nofun) ?_
    rw [assignment?_eq h hk hi h₀, h₁.isOp, if_neg (by decide), h₁.isOp, if_pos (by decide), hcomp]
    rfl
  · rw [Statement.exec, hstop']
    refine modify_agrees (h.commit r) hk _ _ (fun w => ?_) fun w => rfl
    rw [← hc.parts_eq, ← List.map_append]
    rfl

/-! ## Constructions -/

end EmbeddedSql.StraightLine
