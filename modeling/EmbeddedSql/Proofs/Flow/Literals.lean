/-
# No literal is overlooked but those passed over

Each handler accounts for the literals of the code that it takes: the values of variables and the
arguments of calls are read loosely, brackets and names in between are no literals, and what comes after
a chain of calls is read to the end of the statement.  The places where a handler stops fit together, so
a run accounts for all literals of its scope.

Brackets have to be balanced for that.  A chain of calls that comes to a parenthesis without a partner
gives up the rest of the scope.
-/
import EmbeddedSql.Proofs.Flow.Coverage
import EmbeddedSql.Token.Lexer

namespace EmbeddedSql

namespace FlowContext

variable {cx : FlowContext} {s s' : FlowState}

/-! ## Chains of calls -/

theorem append_accounts (cx : FlowContext) (s : FlowState) (name : String)
    (opening closing : Nat) :
    cx.Accounts s (opening + 1) id (fun _ => closing) (cx.append s name opening closing) := by
  unfold append
  split
  · next hclosing => exact .pure rfl (free_of_le (Nat.le_of_eq hclosing))
  · refine .afterExpression fun e he => .after fun last hlast => ?_
    have hend := endsOn_of_fetch hlast
    dsimp only
    split
    · refine .head (.single (.commit he)) ?_
      exact .head (extend_changes _ name _ hend) (cx.scanLoose_accounts _ _ _)
    · exact .after fun first _ =>
        .head (extend_changes s name _ hend) (cx.scanLoose_accounts _ _ _)

/-- A call on a builder either reads its arguments or is quiet about them. -/
theorem applyCall_accounts {i closing : Nat} (name : String) (hb : cx.AfterBuilder s i)
    (hdot : cx.scope.isPunct i "." = true) (hname : cx.scope.isIdent (i + 1) = true)
    (hopen : cx.scope.isPunct (i + 2) "(" = true) (hclose : cx.scope.closer? (i + 2) = some closing) :
    cx.Accounts s (i + 3) id (fun _ => closing)
      (cx.applyCall s name (i + 1) (i + 2) closing) := by
  unfold applyCall
  refine .after fun method hmethod => ?_
  have ht : cx.scope.token? (i + 1) = some method := token?_of_fetch hmethod
  have hident : method.isIdent = true := by
    rw [Brackets.isIdent, ht] at hname
    exact hname
  have hquiet : ∀ {s' : FlowState}, cx.Changes s s' →
      ["toString", "setLength"].contains method.text = true →
        cx.Covers s s' (i + 3) closing := by
    intro s' hc hword j hj hj' _
    refine .inr (.inr ⟨i, closing, hb.mono hc, hdot, ?_, hopen, hclose, hj, hj'⟩)
    rw [Brackets.isWordIn, ht, Option.any_some, hident]
    exact hword
  split
  · exact cx.append_accounts s name (i + 2) closing
  · split
    · next hset =>
        intro s' hs'
        have hc := (reset_moves s name (startsOn_of_fetch hmethod)).leads s' hs'
        refine ⟨hc, hquiet hc ?_⟩
        rw [Bool.and_eq_true, beq_iff_eq] at hset
        rw [hset.1]
        decide
    · split
      · next hstr =>
          rintro s' ⟨⟩
          refine ⟨.refl, hquiet .refl ?_⟩
          rw [beq_iff_eq] at hstr
          rw [hstr]
          decide
      · exact cx.scanLoose_accounts s _ _

theorem endChain_accounts (cx : FlowContext) (s : FlowState) (stops : List String) (i : Nat) :
    cx.Accounts s i Prod.fst Prod.snd (cx.endChain s stops i) :=
  scanLoose_map_accounts s i (free_of_le (Nat.le_refl _))

section Balanced

variable (hbalanced : Balanced cx.scope.tokens.toList)
include hbalanced

theorem applyChain_accounts (s : FlowState) {i : Nat} (name : String) (stops : List String)
    (hb : cx.AfterBuilder s i) :
    cx.Accounts s i Prod.fst Prod.snd (cx.applyChain s name stops i) := by
  rw [applyChain]
  split
  · next hdot =>
      have hi : i < cx.scope.size := Brackets.lt_size_of_any hdot
      split
      · next hcall =>
          rw [Bool.and_eq_true] at hcall
          obtain ⟨hname, hopen⟩ := hcall
          split
          · next hnone =>
              obtain ⟨closing, hclose⟩ := Brackets.exists_closer?_of_paren hbalanced hopen
              rw [hnone] at hclose
              cases hclose
          · next closing hclose =>
              have hlt : i + 2 < closing := Brackets.lt_of_closer? hclose
              have hcall : cx.Free i (i + 3) :=
                ((free_single (Brackets.isString_of_isPunct hdot)).append
                  (free_single (Brackets.isString_of_isIdent hname))).append
                  (free_single (Brackets.isString_of_isPunct hopen))
              refine .skip hcall ?_
              refine (applyCall_accounts name hb hdot hname hopen hclose).bind fun s' hs' => ?_
              have hc : cx.Changes s s' := (applyCall_moves s trivial _ _ _).leads s' hs'
              refine .skip (free_single (Brackets.isString_of_closer? hclose)) ?_
              exact applyChain_accounts s' name stops ((hb.mono hc).call hdot hname hopen hclose)
      · exact cx.endChain_accounts s stops i
  · exact cx.endChain_accounts s stops i
termination_by cx.scope.size - i

/-! ## Bindings -/

/-- After the arguments of a construction come the calls that are chained to it. -/
theorem bindBuilder_accounts (s : FlowState) (name : String) {line i : Nat} {t : Token}
    (hl : cx.StartsOn line) (hnew : cx.scope.isWord i "new" = true)
    (ht : cx.scope.token? (i + 1) = some t) (hident : t.isIdent = true)
    (htype : cx.rules.isBuilderType t.text = true) (hopen : cx.scope.isPunct (i + 2) "(" = true) :
    cx.Accounts s i Prod.fst Prod.snd (cx.bindBuilder s name line i) := by
  obtain ⟨closing, hclose⟩ := Brackets.exists_closer?_of_paren hbalanced hopen
  have hname : cx.scope.isIdent (i + 1) = true := by
    rw [Brackets.isIdent, ht]
    exact hident
  have hhead : cx.Free i (i + 3) :=
    ((free_single (Brackets.isString_of_isWord hnew)).append
      (free_single (Brackets.isString_of_isIdent hname))).append
      (free_single (Brackets.isString_of_isPunct hopen))
  unfold bindBuilder
  dsimp only
  rw [hclose]
  refine .after fun initial hinitial => ?_
  refine .head ((initialFragments_moves s _ _).leads initial hinitial) ?_
  obtain ⟨s₁, fragments⟩ := initial
  have hsourced : cx.Sourced s₁ fragments := initialFragments_sourced hinitial
  refine .after fun last hlast => ?_
  refine .lead (rebind_moves s₁ name .builder hsourced hl (endsOn_of_fetch hlast)).leads fun s₂ => ?_
  refine .skip hhead ((cx.scanLoose_accounts s₂ _ _).bind fun s₃ _ => ?_)
  refine .skip (free_single (Brackets.isString_of_closer? hclose)) ?_
  exact applyChain_accounts hbalanced s₃ name _ (.construction hnew ht htype hopen hclose)

omit hbalanced in
theorem bindPlain_accounts (s : FlowState) {binding : Binding} (rhs : Nat)
    (hl : cx.StartsOn binding.line) :
    cx.Accounts s rhs Prod.fst Prod.snd (cx.bindPlain s binding rhs) := by
  unfold bindPlain
  refine .afterExpression fun e he => .head (.single (.commit he)) ?_
  refine .after fun last hlast => ?_
  have hend := endsOn_of_lastLine hlast
  dsimp only
  split
  · refine .head (regrow_changes _ binding.name e.fragments hend) ?_
    exact scanLoose_map_accounts _ rhs (free_of_le (Nat.le_refl _))
  · refine .lead (rebind_moves _ binding.name .plain (sourced_commit he) hl hend).leads fun s => ?_
    exact scanLoose_map_accounts s rhs (free_of_le (Nat.le_refl _))

theorem bindValue_accounts (s : FlowState) {binding : Binding} (rhs : Nat)
    (hl : cx.StartsOn binding.line) :
    cx.Accounts s rhs Prod.fst Prod.snd (cx.bindValue s binding rhs) := by
  unfold bindValue
  split
  · next hcons =>
      unfold constructsBuilder at hcons
      simp only [Bool.and_eq_true] at hcons
      obtain ⟨⟨⟨hnew, hopen⟩, htype⟩, -⟩ := hcons
      obtain ⟨t, ht, htype⟩ := Brackets.exists_token_of_any htype
      rw [Bool.and_eq_true] at htype
      exact bindBuilder_accounts hbalanced s _ hl hnew ht htype.1 htype.2 hopen
  · split
    · refine .lead (discard_moves s binding.name).leads fun s => ?_
      exact scanLoose_map_accounts s rhs (free_of_le (Nat.le_refl _))
    · exact bindPlain_accounts s rhs hl

omit hbalanced in
theorem free_afterStatement (stop : Nat) : cx.Free stop (cx.afterStatement stop) := by
  unfold afterStatement
  split
  · next hsemi => exact free_single (Brackets.isString_of_isPunct hsemi)
  · exact free_of_le (Nat.le_refl _)

/-! ## Statements -/

theorem declarator_accounts (s : FlowState) (typeName : String) {line k : Nat}
    (hl : cx.StartsOn line) (hk : cx.scope.isIdent k = true) :
    cx.Accounts s k Prod.fst Prod.snd (cx.declarator s typeName line k) := by
  have hname : cx.Free k (k + 1) := free_single (Brackets.isString_of_isIdent hk)
  unfold declarator
  refine .after fun name _ => ?_
  split
  · next hassign =>
      refine .skip (hname.append (free_single (Brackets.isString_of_isOp hassign))) ?_
      exact bindValue_accounts hbalanced s _ hl
  · split
    · intro r hr
      obtain ⟨s', hs', rfl⟩ := ok_of_map_eq_ok hr
      exact ⟨(declare_moves s name.text _).leads s' hs', hname.covers⟩
    · exact .pure rfl hname

theorem declarators_accounts (s : FlowState) (typeName : String) {line k : Nat}
    (hl : cx.StartsOn line) (hk : cx.scope.isIdent k = true) :
    cx.Accounts s k Prod.fst Prod.snd (cx.declarators s typeName line k) := by
  rw [declarators]
  refine (declarator_accounts hbalanced s typeName hl hk).bind ?_
  rintro ⟨s, stop⟩ -
  dsimp only
  split
  · next hc =>
      have hlt : stop < cx.scope.size := Brackets.lt_size_of_any hc.1
      have hcomma : cx.Free stop (stop + 1) := free_single (Brackets.isString_of_isPunct hc.1)
      split
      · next hident =>
          split
          · exact .skip hcomma (declarators_accounts s typeName hl hident)
          · exact .pure rfl hcomma
      · exact .pure rfl (free_of_le (Nat.le_refl _))
  · exact .pure rfl (free_afterStatement stop)
termination_by cx.scope.size - k

omit hbalanced in
theorem compoundAssignment_accounts (s : FlowState) (name : String) (rhs : Nat) :
    cx.Accounts s rhs Prod.fst Prod.snd (cx.compoundAssignment s name rhs) := by
  unfold compoundAssignment
  refine .afterExpression fun e he => ?_
  dsimp only
  split
  · refine .after fun last hlast => ?_
    refine .head (.single (.commit he)) ?_
    refine .head (extend_changes _ name e.fragments (endsOn_of_lastLine hlast)) ?_
    exact scanLoose_map_accounts _ rhs (free_afterStatement _)
  · exact scanLoose_map_accounts s rhs (free_afterStatement _)

/-- A handler that applies stands at a token that is no literal, and accounts for the literals up to
the place where it stops. -/
def Handles (cx : FlowContext) (s : FlowState) (i : Nat)
    (o : Except FlowError (Option (FlowState × Nat))) : Prop :=
  ∀ r, o = .ok (some r) → cx.scope.isString i = false ∧ cx.Changes s r.1 ∧ cx.Covers s r.1 i r.2

omit hbalanced in
theorem Accounts.handles {i : Nat} {o : Except FlowError (Option (FlowState × Nat))}
    (hi : cx.scope.isString i = false)
    (h : cx.Accounts s (i + 1) (handled s) (fun r => (r.map Prod.snd).getD 0) o) :
    cx.Handles s i o := by
  intro r hr
  obtain ⟨hc, hcov⟩ := h (some r) hr
  exact ⟨hi, hc, (free_single hi).covers.append hcov⟩

theorem declaration?_handles (s : FlowState) (i : Nat) :
    cx.Handles s i (cx.declaration? s i) := by
  unfold declaration?
  split
  · rintro r ⟨⟩
  · next t ht =>
      dsimp only
      split
      · next hdecl =>
          simp only [Bool.and_eq_true] at hdecl
          obtain ⟨⟨⟨⟨hident, -⟩, hname⟩, -⟩, -⟩ := hdecl
          have hi : cx.scope.isIdent i = true := by
            rw [Brackets.isIdent, ht]
            exact hident
          have hl : cx.StartsOn t.startLine := ⟨t, mem_tokens_of_token? ht, rfl⟩
          refine Accounts.handles (Brackets.isString_of_isIdent hi) ?_
          exact (declarators_accounts hbalanced s t.text hl hname).map fun _ _ =>
            ⟨rfl, free_of_le (Nat.le_refl _)⟩
      · rintro r ⟨⟩

theorem assignment?_handles (s : FlowState) (i : Nat) :
    cx.Handles s i (cx.assignment? s i) := by
  unfold assignment?
  split
  · rintro r ⟨⟩
  · next t ht =>
      have hl : cx.StartsOn t.startLine := ⟨t, mem_tokens_of_token? ht, rfl⟩
      split
      · rintro r ⟨⟩
      · split
        · rintro r ⟨⟩
        · next hident =>
            simp only [Bool.or_eq_true, Bool.not_eq_true', not_or, Bool.not_eq_false] at hident
            have hi : cx.scope.isIdent i = true := by
              rw [Brackets.isIdent, ht]
              exact hident.1
            have hplace := Brackets.isString_of_isIdent hi
            split
            · next hassign =>
                refine Accounts.handles hplace ?_
                refine .skip (free_single (Brackets.isString_of_isOp hassign)) ?_
                exact (bindValue_accounts hbalanced s _ hl).map fun r _ =>
                  ⟨rfl, free_afterStatement r.2⟩
            · split
              · next hassign =>
                  refine Accounts.handles hplace ?_
                  refine .skip (free_single (Brackets.isString_of_isOp hassign)) ?_
                  exact (compoundAssignment_accounts s _ _).map fun _ _ =>
                    ⟨rfl, free_of_le (Nat.le_refl _)⟩
              · rintro r ⟨⟩

theorem builderStatement?_handles (s : FlowState) (i : Nat) :
    cx.Handles s i (cx.builderStatement? s i) := by
  unfold builderStatement?
  split
  · rintro r ⟨⟩
  · next t ht =>
      dsimp only
      split
      · next hcall =>
          simp only [Bool.and_eq_true] at hcall
          obtain ⟨⟨⟨⟨⟨hident, -⟩, htracked⟩, -⟩, -⟩, -⟩ := hcall
          have hi : cx.scope.isIdent i = true := by
            rw [Brackets.isIdent, ht]
            exact hident
          refine Accounts.handles (Brackets.isString_of_isIdent hi) ?_
          refine (applyChain_accounts hbalanced s t.text _ (.name ht hident (.inl htracked))).bind
            fun (s', stop) _ => ?_
          have hdone : ∀ s₁ : FlowState, cx.Accounts s₁ stop (handled s)
              (fun r => (r.map Prod.snd).getD 0) (.ok (some (s₁, cx.afterStatement stop))) :=
            fun s₁ => .pure rfl (free_afterStatement stop)
          dsimp only
          split
          · exact .lead (reportNamed_moves s' t.text).leads hdone
          · exact hdone s'
      · rintro r ⟨⟩

/-! ## Runs -/

omit hbalanced in
theorem Handles.accounts {i : Nat} {o : Except FlowError (Option (FlowState × Nat))}
    (h : cx.Handles s i o) {r : FlowState × Nat} (ho : o = .ok (some r)) :
    cx.Accounts s i Prod.fst (fun r => max r.2 (i + 1)) (.ok (r.1, max r.2 (i + 1))) := by
  obtain ⟨hi, hc, hcov⟩ := h r ho
  rintro _ ⟨⟩
  refine ⟨hc, fun j hij hj hs => ?_⟩
  rcases Nat.lt_or_ge j r.2 with hlt | hge
  · exact hcov j hij hlt hs
  · dsimp only at hj
    obtain rfl : j = i := by omega
    rw [hi] at hs
    cases hs

theorem step_accounts (s : FlowState) (i : Nat) :
    cx.Accounts s i Prod.fst (fun r => max r.2 (i + 1)) (cx.step s i) := by
  unfold step
  refine .after fun d hd => ?_
  cases d with
  | some d => exact (declaration?_handles hbalanced s i).accounts hd
  | none =>
      refine .after fun a ha => ?_
      cases a with
      | some a => exact (assignment?_handles hbalanced s i).accounts ha
      | none =>
          refine .after fun c hc => ?_
          cases c with
          | some c => exact (builderStatement?_handles hbalanced s i).accounts hc
          | none => exact cx.looseToken_accounts s 0 i

theorem steps_accounts (s : FlowState) (i : Nat) :
    cx.Accounts s i id (fun _ => cx.scope.size) (cx.steps s i) := by
  rw [steps]
  split
  · exact (step_accounts hbalanced s i).bind fun done _ =>
      steps_accounts done.1 (max done.2 (i + 1))
  · next hi => exact .pure rfl (free_of_le (Nat.le_of_not_lt hi))
termination_by cx.scope.size - i

/-- Every literal of a balanced scope is accounted for in the end. -/
theorem run_accounts : cx.Accounts .start 0 id (fun _ => cx.scope.size) cx.run := by
  intro s hs
  refine ⟨(run_moves fun _ => trivial).leads s hs, ?_⟩
  obtain ⟨s₁, hsteps, hflush⟩ := ok_of_bind_eq_ok hs
  obtain ⟨hc, hcov⟩ := steps_accounts hbalanced .start 0 s₁ hsteps
  exact hcov.mono .refl ((flush_arena_moves hc).leads s hflush)

end Balanced

end FlowContext

/-- A run over balanced code whose literals denote something commits every string literal, unless the
literal is inside of an operand of a free-standing expression that counts as one unknown value, or inside
the parentheses of `toString` or `setLength` on a builder.  It fails only if the template cannot show
some source text. -/
theorem run_commits_literals (rules : RuleSet) (classifier : Classifier) (placeholder : Template)
    {tokens : List Token} (hbalanced : Balanced tokens)
    (hliterals : ∀ t ∈ tokens, (t.isString || t.isCharLiteral) = true →
      (Literal.value t.text).isOk = true) :
    let cx := FlowContext.ofTokens rules classifier placeholder tokens
    (∃ s, cx.run = .ok s ∧ ∀ i, cx.scope.isString i = true →
      i ∈ s.committed ∨ cx.PassedOver .start s i ∨ cx.InQuietCall s i) ∨
    ∃ e, cx.run = .error e ∧ cx.Unshown e := by
  intro cx
  have hsound : cx.Sound cx.run := cx.run_sound
  cases hr : cx.run with
  | ok s =>
      refine .inl ⟨s, rfl, fun i hi => ?_⟩
      have haccounts : cx.Accounts .start 0 id (fun _ => cx.scope.size) cx.run :=
        FlowContext.run_accounts hbalanced
      obtain ⟨-, hcov⟩ := haccounts s hr
      have hlt : i < cx.scope.size := Brackets.lt_size_of_any hi
      exact hcov i i.zero_le hlt hi
  | error e =>
      refine .inr ⟨e, rfl, ?_⟩
      rw [hr] at hsound
      cases hsound with
      | template he => exact he
      | room he =>
          obtain ⟨hroom, -⟩ := he
          cases hroom
      | literal he =>
          obtain ⟨ht, hkind, hvalue⟩ := he
          have hok := hliterals _ (List.mem_toArray.1 ht) hkind
          rw [hvalue] at hok
          cases hok

/-- A literal that is an argument of a call, which is itself an operand after another literal. -/
def nestedCall : List Token :=
  significant ((tokenize "f(\"a\" + g(\"SELECT id FROM t\"));").toOption.getD [])

/-- The literal inside is not committed: it is passed over with the call around it. -/
theorem run_nestedCall :
    let cx := FlowContext.ofTokens .standard RuleSet.standard.classifier standardPlaceholder nestedCall
    ∃ s, cx.run = .ok s ∧ cx.scope.isString 6 = true ∧ 6 ∉ s.committed ∧
      ∀ i, cx.scope.isString i = true →
        i ∈ s.committed ∨ cx.PassedOver .start s i ∨ cx.InQuietCall s i := by
  intro cx
  have hcommitted : cx.run.toOption.map (·.committed) = some [2] := by decide +kernel
  have hbalanced : Balanced nestedCall := by decide +kernel
  have hliterals : ∀ t ∈ nestedCall, (t.isString || t.isCharLiteral) = true →
      (Literal.value t.text).isOk = true := by
    decide +kernel
  rcases run_commits_literals .standard RuleSet.standard.classifier standardPlaceholder hbalanced
    hliterals with ⟨s, hs, hall⟩ | ⟨e, he, -⟩
  · rw [hs] at hcommitted
    have hread : s.committed = [2] := Option.some.inj hcommitted
    refine ⟨s, hs, by decide +kernel, ?_, hall⟩
    rw [hread]
    decide
  · rw [he] at hcommitted
    cases hcommitted

end EmbeddedSql
