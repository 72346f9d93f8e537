/-
# Constructions and calls

A builder is constructed with the value between the parentheses, or with nothing, and grows by the
arguments of the calls that are chained to its name.  Each call is taken as a whole, from its dot to
its closing parenthesis, and the chain ends at the semicolon.
-/
import EmbeddedSql.Proofs.Flow.StraightLine.Statements

namespace EmbeddedSql.StraightLine

variable {cx : FlowContext} {kinds : Kinds} {m : Memory} {s : FlowState} {i : Nat} {x : String}

/-! ## Constructions -/

/-- The parts of what stands between the parentheses. -/
def evalOption (m : Memory) (e : Option Expr) : List Part := (e.map (Expr.eval m)).getD []

/-- No value begins with a number. -/
theorem Expr.head_kind (e : Expr) : ∃ l rest, e.lexemes = l :: rest ∧ l.1 ≠ .other := by
  obtain ⟨o, rest, hl, -⟩ := e.head_eq
  rw [hl]
  cases o with
  | literal text => exact ⟨_, _, rfl, nofun⟩
  | name x => exact ⟨_, _, rfl, nofun⟩
  | toText x => exact ⟨_, _, rfl, nofun⟩

/-- What stands between the parentheses is nothing or a value, and no capacity. -/
theorem initialFragments_eq (hroom : cx.room = none) (h : Agrees kinds m s) {e : Option Expr} (he : ∀ v ∈ e, v.Readable)
    (hd : cx.scope.afterDot (i + 1) = false) {stop : Nat}
    (hstop : stop = i + 1 + ((e.map Expr.lexemes).getD []).length)
    (hr : Reads cx.scope.toBrackets (i + 1) ((e.map Expr.lexemes).getD [] ++ [punct ")"])) :
    ∃ s' fragments literals, cx.initialFragments s i stop = .ok (s', fragments) ∧
      Agrees kinds m s' ∧ (∀ j ∈ literals, j ∈ s'.committed) ∧
      Covers cx.scope.toBrackets (i + 1) stop (evalOption m e) fragments literals := by
  have hs := reads_slice (reads_append.1 hr).1
  rw [← hstop] at hs
  rw [FlowContext.initialFragments]
  cases e with
  | none =>
      have hs : cx.scope.slice (i + 1) stop = [] := List.map_eq_nil_iff.1 hs
      rw [hs]
      exact ⟨s, [], [], rfl, h, nofun, rfl, fun hj hj' _ => absurd (hstop ▸ hj') (Nat.not_lt_of_le hj)⟩
  | some e =>
      obtain ⟨r, hex, hend, hc⟩ := expression_reads (he e rfl) h.live hr (.inr rfl) hd
      have hend : r.stop = stop := hend.trans hstop.symm
      obtain ⟨l, rest, hl, hkind⟩ := e.head_kind
      obtain ⟨t, ts, ht, hlex, -⟩ := List.map_eq_cons_iff.1 (hs.trans hl)
      have hother : (t.kind == .other) = false := by
        rw [← hlex] at hkind
        exact beq_false_of_ne hkind
      rw [ht]
      dsimp only
      rw [hother, Bool.and_false, Bool.false_and, if_neg Bool.false_ne_true,
        FlowContext.expression_of_unlimited hroom, hex]
      dsimp only [bind, Except.bind]
      rw [if_pos hend]
      exact ⟨s.commit r, r.fragments, r.literals, rfl, h.commit r,
        fun j hj => List.mem_append_right _ hj, hend ▸ hc⟩

theorem scanLoose_self (s : FlowState) (i : Nat) : cx.scanLoose s i i = .ok s := by
  rw [FlowContext.scanLoose, FlowContext.scanFrom, dif_neg]
  · rfl
  · exact fun h => Nat.lt_irrefl i (Nat.lt_min.1 h).1

/-- No call is chained where the statement ends. -/
theorem applyChain_end {stops : List String} (h : At cx.scope.toBrackets i (punct ";"))
    (hs : ";" ∈ stops) : cx.applyChain s x stops i = .ok (s, i) := by
  have hdot : ¬ cx.scope.isPunct i "." = true := by
    rw [h.isPunct]
    decide
  rw [FlowContext.applyChain, dif_neg hdot, FlowContext.endChain, skipToStop_eq h hs, scanLoose_self]
  rfl

theorem length_construction (e : Option Expr) :
    (construction e).length = ((e.map Expr.lexemes).getD []).length + 4 := by
  simp only [construction, List.length_append, List.length_cons, List.length_nil]
  omega

/-- `new StringBuilder(e)` gives a builder that begins with the value. -/
theorem bindBuilder_eq (hcx : Standard cx) (h : Agrees kinds m s) {e : Option Expr}
    (he : ∀ v ∈ e, v.Readable) (x : String) (line : Nat)
    (hr : Reads cx.scope.toBrackets i (construction e ++ [punct ";"])) :
    let last := endLineAt cx.scope.tokens.toList (i + (construction e).length - 1)
    ∃ s', cx.bindBuilder s x line i = .ok (s', i + (construction e).length) ∧
      Agrees (kinds.set x .builder)
        (m.bind ⟨x, .builder, evalOption m e, line, max line last⟩) s' := by
  intro last
  obtain ⟨⟨-, -, hopen, hinside⟩, hsemi, -⟩ := reads_append.1 hr
  have hinside : Reads cx.scope.toBrackets (i + 3) ((e.map Expr.lexemes).getD [] ++ [punct ")"]) :=
    hinside
  obtain ⟨stop, hstop⟩ : ∃ stop, stop = i + 3 + ((e.map Expr.lexemes).getD []).length := ⟨_, rfl⟩
  have hclose : cx.scope.closer? (i + 2) = some stop :=
    hstop ▸ closer?_eq_some balanced_getD ⟨hopen, hinside⟩
  have hlen : i + (construction e).length = stop + 1 := by
    rw [length_construction, hstop]
    omega
  have hlast : last = endLineAt cx.scope.tokens.toList stop := by
    show endLineAt _ (i + (construction e).length - 1) = _
    rw [hlen, Nat.add_sub_cancel]
  rw [hlen] at hsemi ⊢
  obtain ⟨s₁, fragments, literals, hinit, ha₁, hlit, hc⟩ := initialFragments_eq hcx.room h he
    (by rw [hopen.afterDot]; decide) hstop hinside
  obtain ⟨t, -, ht, -, -, hline⟩ := ((reads_append.1 hinside).2.1).fetch
  rw [← hstop] at ht hline
  have hmin : min stop (cx.scope.size - 1) = stop :=
    Nat.min_eq_left (Nat.le_sub_one_of_lt (Nat.lt_of_succ_lt hsemi.lt_size))
  obtain ⟨s₂, hre, hcom, ha₂⟩ := rebind_agrees hcx ha₁
    ⟨x, .builder, line, max line t.endLine, fragments, none⟩ rfl
  refine ⟨s₂, ?_, ?_⟩
  · rw [FlowContext.bindBuilder]
    dsimp only
    rw [hclose, Option.getD_some, hinit]
    dsimp only [bind, Except.bind]
    rw [hmin, ht]
    dsimp only
    rw [hre]
    dsimp only
    rw [scanLoose_eq hcx hc fun j hj => hcom ▸ hlit j hj]
    exact applyChain_end hsemi (by decide)
  · rw [hlast, ← hline, ← hc.parts_eq]
    exact ha₂

/-- A construction is recognized for a binding that can take one. -/
theorem bindValue_eq_bindBuilder (hcx : Standard cx) {e : Option Expr} {ls : List Lexeme}
    (hr : Reads cx.scope.toBrackets i (construction e ++ ls)) {binding : Binding}
    (hb : (binding.builderType || binding.inferred || binding.reassign) = true) :
    cx.bindValue s binding i = cx.bindBuilder s binding.name binding.line i := by
  obtain ⟨⟨hnew, htype, hopen, -⟩, -⟩ := reads_append.1 hr
  obtain ⟨t, ht, -, hl, -, -⟩ := htype.fetch
  have hkind : t.kind = .identifier := congrArg Prod.fst hl
  have htext : t.text = "StringBuilder" := congrArg Prod.snd hl
  have hsb : cx.rules.isBuilderType "StringBuilder" = true := by
    rw [hcx.rules]
    decide
  have hcons : cx.constructsBuilder binding i = true := by
    rw [FlowContext.constructsBuilder, hnew.isWord, hopen.isPunct, ht, Option.any_some,
      Token.isIdent, hkind, htext, hsb, hb]
    decide
  rw [FlowContext.bindValue, if_pos hcons]

/-- `StringBuilder b = new StringBuilder(e);` -/
theorem step_build (hcx : Standard cx) (h : Agrees kinds m s) {e : Option Expr}
    (he : ∀ v ∈ e, v.Readable) (hi : Begins cx.scope.toBrackets i)
    (hr : Reads cx.scope.toBrackets i (Statement.build x e).lexemes) :
    ∃ s', cx.step s i = .ok (s', i + (Statement.build x e).lexemes.length) ∧
      Agrees (kinds.set x .builder)
        ((Statement.build x e).exec cx.scope.tokens.toList i m) s' := by
  obtain ⟨h₀, h₁, h₂, hr⟩ := hr
  have hr : Reads cx.scope.toBrackets (i + 3) (construction e ++ [punct ";"]) := hr
  have hsemi : At cx.scope.toBrackets (i + 3 + (construction e).length) (punct ";") :=
    (reads_append.1 hr).2.1
  have hsb : cx.rules.isBuilderType "StringBuilder" = true := by
    rw [hcx.rules]
    decide
  obtain ⟨s', hb, ha⟩ := bindBuilder_eq hcx h he x (startLineAt cx.scope.tokens.toList i) hr
  have hlen : (Statement.build x e).body.length = 3 + (construction e).length := by
    rw [Statement.body, List.length_append]
    rfl
  refine ⟨s', ?_, ?_⟩
  · rw [Statement.lexemes, List.length_append, hlen, ← Nat.add_assoc, ← Nat.add_assoc]
    refine step_declaration hi ⟨h₀, h₁, h₂, trivial⟩ (by rw [hsb, Bool.or_true]) (by decide) ?_
      hsemi (by omega)
    rw [hsb]
    exact (bindValue_eq_bindBuilder hcx hr rfl).trans hb
  · rw [Statement.exec, hlen, ← Nat.add_assoc]
    exact ha

/-- `b = new StringBuilder(e);` -/
theorem step_rebuild (hcx : Standard cx) (h : Agrees kinds m s) {e : Option Expr}
    (he : ∀ v ∈ e, v.Readable) (hk : kinds x = some .builder) (hi : Begins cx.scope.toBrackets i)
    (hr : Reads cx.scope.toBrackets i (Statement.rebuild x e).lexemes) :
    ∃ s', cx.step s i = .ok (s', i + (Statement.rebuild x e).lexemes.length) ∧
      Agrees kinds ((Statement.rebuild x e).exec cx.scope.tokens.toList i m) s' := by
  obtain ⟨h₀, h₁, hr⟩ := hr
  have hr : Reads cx.scope.toBrackets (i + 2) (construction e ++ [punct ";"]) := hr
  have hsemi : At cx.scope.toBrackets (i + 2 + (construction e).length) (punct ";") :=
    (reads_append.1 hr).2.1
  obtain ⟨s', hb, ha⟩ := bindBuilder_eq hcx h he x (startLineAt cx.scope.tokens.toList i) hr
  have hlen : (Statement.rebuild x e).body.length = 2 + (construction e).length := by
    rw [Statement.body, List.length_append]
    rfl
  refine ⟨s', ?_, ?_⟩
  · rw [Statement.lexemes, List.length_append, hlen, ← Nat.add_assoc, ← Nat.add_assoc]
    refine step_assignment h hk hi ⟨h₀, h₁, trivial⟩ ?_ hsemi (by omega)
    exact (bindValue_eq_bindBuilder hcx hr (by simp [FlowContext.assignmentTo])).trans hb
  · rw [Statement.exec, hlen, ← Nat.add_assoc]
    exact kinds.set_eq hk ▸ ha

/-! ## Chains of calls -/

theorem applyChain_of_closed {stops : List String} {stop : Nat}
    (hr : Reads cx.scope.toBrackets i [punct ".", word x, punct "("])
    (hc : cx.scope.closer? (i + 2) = some stop) (name : String) :
    cx.applyChain s name stops i = (do
      let s ← cx.applyCall s name (i + 1) (i + 2) stop
      cx.applyChain s name stops (stop + 1)) := by
  obtain ⟨hdot, hword, hopen, -⟩ := hr
  have hcall : (cx.scope.isIdent (i + 1) && cx.scope.isPunct (i + 2) "(") = true := by
    rw [hword.isIdent, hopen.isPunct, decide_eq_true rfl]
    rfl
  rw [FlowContext.applyChain, dif_pos (by rw [hdot.isPunct]; decide), if_pos hcall]
  split
  · next hc' => rw [hc] at hc'; cases hc'
  · next stop' hc' =>
    obtain rfl : stop = stop' := by rw [hc] at hc'; cases hc'; rfl
    rfl

theorem length_link (e : Expr) : (link e).length = e.lexemes.length + 4 := by
  simp only [link, List.length_append, List.length_cons, List.length_nil]
  omega

/-- A call of `append` adds its argument. -/
theorem applyCall_append (hcx : Standard cx) (h : Agrees kinds m s) {e : Expr} (he : e.Readable)
    (hk : kinds x = some .builder) (hr : Reads cx.scope.toBrackets i (link e)) :
    ∃ s', cx.applyCall s x (i + 1) (i + 2) (i + 3 + e.lexemes.length) = .ok s' ∧
      Agrees kinds (m.advance x (· ++ e.eval m)
        (endLineAt cx.scope.tokens.toList (i + 2 + e.lexemes.length))) s' := by
  obtain ⟨-, hname, hopen, hr⟩ := hr
  have hr : Reads cx.scope.toBrackets (i + 3) (e.lexemes ++ [punct ")"]) := hr
  obtain ⟨t, -, ht, hl, -, -⟩ := hname.fetch
  have htext : t.text = "append" := congrArg Prod.snd hl
  obtain ⟨r, hex, hstop, hc⟩ := expression_reads he h.live hr (.inr rfl) (by rw [hopen.afterDot]; decide)
  have hclose := (reads_append.1 hr).2.1
  have hbefore : r.stop - 1 = i + 2 + e.lexemes.length := by omega
  have hlt : i + 2 + e.lexemes.length < cx.scope.size := by
    have := hclose.lt_size
    omega
  obtain ⟨u, -, hu, -, hline⟩ := exists_fetch hlt
  have hpos := e.length_pos
  refine ⟨(s.commit r).modify x (·.extend r.fragments u.endLine), ?_, ?_⟩
  · rw [FlowContext.applyCall, ht]
    dsimp only [bind, Except.bind]
    rw [htext, if_pos (by decide), FlowContext.append, if_neg (by omega),
      FlowContext.expression_of_unlimited hcx.room, hex, ← hstop]
    dsimp only [bind, Except.bind]
    rw [hbefore, hu]
    dsimp only
    rw [if_pos rfl]
    exact scanLoose_eq hcx hc fun j hj => by
      rw [committed_modify]
      exact List.mem_append_right _ hj
  · rw [hline]
    refine modify_agrees (h.commit r) hk _ _ (fun w => ?_) fun w => rfl
    rw [← hc.parts_eq, ← List.map_append]
    rfl

theorem applyChain_links (hcx : Standard cx) {es : List Expr} (h : Agrees kinds m s)
    (hk : kinds x = some .builder) (he : ∀ v ∈ es, v.Readable)
    (hr : Reads cx.scope.toBrackets i (es.flatMap link ++ [punct ";"])) :
    ∃ s', cx.applyChain s x [";"] i = .ok (s', i + (es.flatMap link).length) ∧
      Agrees kinds (Statement.execLinks cx.scope.tokens.toList x m i es) s' := by
  induction es generalizing i m s with
  | nil => exact ⟨s, applyChain_end hr.1 (by decide), h⟩
  | cons e more ih =>
      rw [List.flatMap_cons, List.append_assoc] at hr
      obtain ⟨hlink, hr⟩ := reads_append.1 hr
      obtain ⟨s₁, happ, ha⟩ := applyCall_append hcx h (he e List.mem_cons_self) hk hlink
      obtain ⟨hdot, hname, hopen, hinside⟩ := hlink
      have hclose := closer?_eq_some e.balanced ⟨hopen, hinside⟩
      obtain ⟨s₂, hchain, ha'⟩ := ih ha (fun v hv => he v (List.mem_cons_of_mem _ hv)) hr
      refine ⟨s₂, ?_, ha'⟩
      have hclose : cx.scope.closer? (i + 2) = some (i + 3 + e.lexemes.length) := hclose
      have hnext : i + 3 + e.lexemes.length + 1 = i + (link e).length := by
        rw [length_link]
        omega
      rw [applyChain_of_closed ⟨hdot, hname, hopen, trivial⟩ hclose, happ]
      dsimp only [bind, Except.bind]
      rw [hnext, hchain, List.flatMap_cons, List.length_append, Nat.add_assoc]

/-! ## Statements on builders -/

theorem step_of_builder {s' : FlowState} {next : Nat} (hn : i < next)
    (hd : cx.declaration? s i = .ok none) (ha : cx.assignment? s i = .ok none)
    (h : cx.builderStatement? s i = .ok (some (s', next))) : cx.step s i = .ok (s', next) := by
  rw [FlowContext.step, hd]
  dsimp only [bind, Except.bind]
  rw [ha]
  dsimp only
  rw [h]
  show Except.ok (s', max next (i + 1)) = _
  rw [Nat.max_eq_left hn]

/-- A chain of calls on a builder is taken up to its semicolon. -/
theorem step_chain (hcx : Standard cx) (h : Agrees kinds m s) (hk : kinds x = some .builder)
    (hi : Begins cx.scope.toBrackets i) {method : String} (hm : method ∈ ["append", "setLength"])
    (hr : Reads cx.scope.toBrackets i [word x, punct ".", word method, punct "("])
    {s' : FlowState} {stop : Nat} (hchain : cx.applyChain s x [";"] (i + 1) = .ok (s', stop))
    (hstop : At cx.scope.toBrackets stop (punct ";")) (hlt : i < stop) :
    cx.step s i = .ok (s', stop + 1) := by
  obtain ⟨hx, hdot, hname, hopen, -⟩ := hr
  obtain ⟨t, ht, -, hl, -, -⟩ := hx.fetch
  have hkind : t.kind = .identifier := congrArg Prod.fst hl
  have htext : t.text = x := congrArg Prod.snd hl
  refine step_of_builder (Nat.lt_succ_of_lt hlt) (declaration?_eq_none hdot nofun) ?_ ?_
  · rw [assignment?_eq h hk hi hx, hdot.isOp, if_neg (by decide), hdot.isOp, if_neg (by decide)]
  · rw [FlowContext.builderStatement?, ht]
    dsimp only
    rw [Token.isIdent, hkind, htext, hi.afterDot, h.any_kind hk, hdot.isPunct, hname.isWordIn,
      hopen.isPunct, if_pos, hchain]
    · dsimp only [bind, Except.bind]
      rw [hcx.quiet, if_neg Bool.false_ne_true]
      dsimp only [pure, Except.pure]
      rw [afterStatement_eq hstop]
    · simp only [List.mem_cons, List.not_mem_nil, or_false] at hm
      rcases hm with rfl | rfl <;> decide

/-- `b.append(e).append(e)…;` -/
theorem step_append (hcx : Standard cx) (h : Agrees kinds m s) {e : Expr} {more : List Expr}
    (he : ∀ v ∈ e :: more, v.Readable) (hk : kinds x = some .builder)
    (hi : Begins cx.scope.toBrackets i)
    (hr : Reads cx.scope.toBrackets i (Statement.append x e more).lexemes) :
    ∃ s', cx.step s i = .ok (s', i + (Statement.append x e more).lexemes.length) ∧
      Agrees kinds ((Statement.append x e more).exec cx.scope.tokens.toList i m) s' := by
  obtain ⟨hx, hr⟩ := hr
  have hr : Reads cx.scope.toBrackets (i + 1) ((e :: more).flatMap link ++ [punct ";"]) := hr
  obtain ⟨hcalls, hsemi, -⟩ := reads_append.1 hr
  obtain ⟨s', hchain, ha⟩ := applyChain_links hcx h hk he hr
  obtain ⟨hdot, hname, hopen, -⟩ := (reads_append.1 hcalls).1
  refine ⟨s', ?_, ha⟩
  rw [step_chain hcx h hk hi (by decide) ⟨hx, hdot, hname, hopen, trivial⟩ hchain hsemi (by omega)]
  have hlen : (Statement.append x e more).body.length = 1 + ((e :: more).flatMap link).length :=
    Nat.add_comm _ _
  rw [Statement.lexemes, List.length_append, hlen, ← Nat.add_assoc, ← Nat.add_assoc]
  rfl

/-- `b.setLength(0);` -/
theorem step_empty (hcx : Standard cx) (h : Agrees kinds m s) (hk : kinds x = some .builder)
    (hi : Begins cx.scope.toBrackets i)
    (hr : Reads cx.scope.toBrackets i (Statement.empty x).lexemes) :
    ∃ s', cx.step s i = .ok (s', i + (Statement.empty x).lexemes.length) ∧
      Agrees kinds ((Statement.empty x).exec cx.scope.tokens.toList i m) s' := by
  obtain ⟨hx, hdot, hname, hopen, hzero, hclose, hsemi, -⟩ := hr
  have hflat : Balanced [((.other, "0") : Lexeme)] := .flat nofun .nil
  have hc : cx.scope.closer? (i + 3) = some (i + 5) :=
    closer?_eq_some hflat ⟨hopen, hzero, hclose, trivial⟩
  obtain ⟨t, -, ht, hl, hline, -⟩ := hname.fetch
  have htext : t.text = "setLength" := congrArg Prod.snd hl
  have hsource : cx.scope.sourceText (i + 4) (i + 5) = "0" := sourceText_one hzero
  obtain ⟨s', hreset, -, ha⟩ := reset_agrees hcx h hk t.startLine
  have hcall : cx.applyCall s x (i + 2) (i + 3) (i + 5) = .ok s' := by
    rw [FlowContext.applyCall, ht]
    dsimp only [bind, Except.bind]
    rw [htext, if_neg (by decide), hsource, if_pos (by decide), hreset]
  have hchain : cx.applyChain s x [";"] (i + 1) = .ok (s', i + 6) := by
    rw [applyChain_of_closed ⟨hdot, hname, hopen, trivial⟩ hc, hcall]
    exact applyChain_end hsemi (by decide)
  refine ⟨s', ?_, ?_⟩
  · exact step_chain hcx h hk hi (by decide) ⟨hx, hdot, hname, hopen, trivial⟩ hchain hsemi (by omega)
  · rw [hline] at ha
    exact ha

end EmbeddedSql.StraightLine
