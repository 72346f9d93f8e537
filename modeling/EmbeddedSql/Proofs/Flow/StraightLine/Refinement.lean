/-
# The analysis computes what straight-line code means

The statements of a scope are taken one after the other, each as a whole, and the state after them
holds what the interpreter's memory holds (`steps_reads`).  The accumulations that go on at the end
are then reported in the order in which their names were bound.
-/
import EmbeddedSql.Proofs.Flow.StraightLine.Builders

namespace EmbeddedSql.StraightLine

variable {cx : FlowContext} {kinds : Kinds} {m : Memory} {s : FlowState} {i : Nat}

/-- One step takes one statement. -/
theorem step_reads (hcx : Standard cx) (h : Agrees kinds m s) {st : Statement}
    (ht : st.WellTyped kinds) (hi : Begins cx.scope.toBrackets i)
    (hr : Reads cx.scope.toBrackets i st.lexemes) :
    ∃ s', cx.step s i = .ok (s', i + st.lexemes.length) ∧
      Agrees (st.kindsAfter kinds) (st.exec cx.scope.tokens.toList i m) s' := by
  cases st with
  | declare x e => exact step_declare hcx h ht hi hr
  | assign x e => exact step_assign hcx h ht.2 ht.1 hi hr
  | grow x e => exact step_grow hcx h ht.2 ht.1 hi hr
  | build b e => exact step_build hcx h ht hi hr
  | rebuild b e => exact step_rebuild hcx h ht.2 ht.1 hi hr
  | append b e more => exact step_append hcx h ht.2 ht.1 hi hr
  | empty b => exact step_empty hcx h ht hi hr

/-- Where a statement ends, another begins. -/
theorem begins_next {st : Statement} (hr : Reads cx.scope.toBrackets i st.lexemes) :
    Begins cx.scope.toBrackets (i + st.lexemes.length) := by
  have hsemi := (reads_append.1 hr).2.1
  refine .inr ⟨_, ?_, hsemi⟩
  rw [Statement.lexemes, List.length_append, ← Nat.add_assoc]
  rfl

/-- All steps take all statements. -/
theorem steps_reads (hcx : Standard cx) {program : List Statement} (h : Agrees kinds m s)
    (ht : WellTyped kinds program) (hi : Begins cx.scope.toBrackets i)
    (hr : Reads cx.scope.toBrackets i (program.flatMap Statement.lexemes))
    (hsize : i + (program.flatMap Statement.lexemes).length = cx.scope.size) :
    ∃ s' kinds', cx.steps s i = .ok s' ∧
      Agrees kinds' (interpret cx.scope.tokens.toList i m program) s' := by
  induction program generalizing i kinds m s with
  | nil =>
      refine ⟨s, kinds, ?_, h⟩
      rw [FlowContext.steps, dif_neg]
      · rfl
      · exact Nat.not_lt_of_le (Nat.le_of_eq hsize.symm)
  | cons st rest ih =>
      obtain ⟨hst, hrest⟩ := reads_append.1 hr
      obtain ⟨s₁, hstep, h₁⟩ := step_reads hcx h ht.1 hi hst
      have hpos : 0 < st.lexemes.length := by
        rw [Statement.lexemes, List.length_append]
        exact Nat.lt_add_left _ Nat.one_pos
      have hend : i + st.lexemes.length + (rest.flatMap Statement.lexemes).length = cx.scope.size := by
        rw [← hsize, List.flatMap_cons, List.length_append, Nat.add_assoc]
      obtain ⟨s₂, kinds', hsteps, h₂⟩ := ih h₁ ht.2 (begins_next hst) hrest hend
      refine ⟨s₂, kinds', ?_, h₂⟩
      rw [FlowContext.steps, dif_pos (by omega), hstep]
      show cx.steps s₁ (max (i + st.lexemes.length) (i + 1)) = _
      rw [Nat.max_eq_left (by omega), hsteps]

/-- Nothing is tracked at the start. -/
theorem agrees_start : Agrees (fun _ => none) ⟨[], []⟩ FlowState.start where
  live := rfl
  unreported := nofun
  nodup := .nil
  tracked _ := rfl
  declared _ := rfl
  reported := rfl

/-- In straight-line code, what the analysis tracks at the end is what the interpreter has in memory,
and it reports each accumulation that starts with a keyword once, in the order in which they ended. -/
theorem run_eq_interpret {tokens : List Token} {program : List Statement}
    (hr : tokens.map lexeme = program.flatMap Statement.lexemes)
    (ht : WellTyped (fun _ => none) program) :
    ∃ s, (FlowContext.ofTokens .standard RuleSet.standard.classifier standardPlaceholder
        tokens).run = .ok s ∧
      s.arena.map accumulation = (interpret tokens 0 ⟨[], []⟩ program).live ∧
      s.candidates = (interpret tokens 0 ⟨[], []⟩ program).candidates := by
  let cx := FlowContext.ofTokens .standard RuleSet.standard.classifier standardPlaceholder tokens
  have hbal : Balanced (tokens.map lexeme) := hr ▸ .flatMap fun st _ => st.balanced
  have hcx : Standard cx := ⟨rfl, rfl, rfl, underSink_eq_false hbal⟩
  have hreads : Reads cx.scope.toBrackets 0 (program.flatMap Statement.lexemes) := reads_drop hr
  have hsize : 0 + (program.flatMap Statement.lexemes).length = cx.scope.size := by
    rw [← hr, List.length_map, Nat.zero_add]
    rfl
  obtain ⟨s, kinds, hsteps, h⟩ := steps_reads hcx agrees_start ht (.inl rfl) hreads hsize
  have hget : ∀ v ∈ s.arena, s.arena.get? v.name = some v := by
    intro v hv
    have hmem : v ∈ s.arena.filter (·.name == v.name) := List.mem_filter.2 ⟨hv, beq_self_eq_true _⟩
    rw [Arena.filter_name h.nodup] at hmem
    exact Option.mem_toList.1 hmem
  obtain ⟨s', hflush, harena, hcand⟩ := flush_eq hcx h.nodup h.unreported h.nodup hget
  refine ⟨s', ?_, harena.trans h.live, ?_⟩
  · show cx.run = _
    rw [FlowContext.run, hsteps]
    exact hflush
  · rw [hcand, h.reported, h.live, Memory.candidates, List.filterMap_append]
    rfl

/-- `String q = "SELECT " + c;` and, on the next line, `q += " FROM t";` -/
def twoLines : List Token :=
  [⟨.identifier, "String", 1, 1⟩, ⟨.identifier, "q", 1, 1⟩, ⟨.operator, "=", 1, 1⟩,
    ⟨.stringLiteral, "\"SELECT \"", 1, 1⟩, ⟨.operator, "+", 1, 1⟩, ⟨.identifier, "c", 1, 1⟩,
    ⟨.punctuation, ";", 1, 1⟩, ⟨.identifier, "q", 2, 2⟩, ⟨.operator, "+=", 2, 2⟩,
    ⟨.stringLiteral, "\" FROM t\"", 2, 2⟩, ⟨.punctuation, ";", 2, 2⟩]

theorem run_twoLines :
    ∃ s, (FlowContext.ofTokens .standard RuleSet.standard.classifier standardPlaceholder
        twoLines).run = .ok s ∧
      s.arena.map accumulation =
        [⟨"q", .plain, [.known "SELECT ", .unknown "c", .known " FROM t"], 1, 2⟩] ∧
      s.candidates = [.fresh "SELECT $\x7bc\x7d FROM t" 1 2 .concatenation .assigned] := by
  let program : List Statement :=
    [.declare "q" (.plus (.literal "\"SELECT \"") (.one (.name "c"))),
      .grow "q" (.one (.literal "\" FROM t\""))]
  have hfirst : Literal.value "\"SELECT \"" = .ok "SELECT " := by
    simp [Literal.value, Literal.isTextBlock, Literal.decode, Text.ofString]
  have hsecond : Literal.value "\" FROM t\"" = .ok " FROM t" := by
    simp [Literal.value, Literal.isTextBlock, Literal.decode, Text.ofString]
  have hname : (Operand.name "c").Readable := by
    show "c" ∉ _
    decide
  have hr : twoLines.map lexeme = program.flatMap Statement.lexemes := rfl
  obtain ⟨s, hs, hlive, hcand⟩ :=
    run_eq_interpret hr ⟨⟨⟨_, hfirst⟩, hname⟩, ⟨rfl, _, hsecond⟩, trivial⟩
  have hm : interpret twoLines 0 ⟨[], []⟩ program =
      ⟨[⟨"q", .plain, [.known "SELECT ", .unknown "c", .known " FROM t"], 1, 2⟩], []⟩ := by
    simp [program, interpret, Statement.exec, Memory.bind, Memory.advance, Expr.eval, Operand.eval,
      hfirst, hsecond, Memory.parts]
    exact ⟨rfl, rfl⟩
  rw [hm] at hlive hcand
  exact ⟨s, hs, hlive, hcand.trans (by decide +kernel)⟩

end EmbeddedSql.StraightLine
