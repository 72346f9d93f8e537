/-
# A free-standing expression stands in one call

A free-standing expression counts unless the nearest classified call around the literal that it was found
by is output or input.  The expression may hold other literals, before which there are parentheses, casts
and plus signs, and names before the first of them.  In balanced code with plain creation expressions the
nearest classified call is the same for all of them, so it does not matter which literal is asked
(`IsRead.nearestCall?_eq`).

So a literal whose nearest classified call is ignored is in no candidate as one of the literals of its
expression.  What a mentioned variable holds was read elsewhere, under whatever call, and comes into the
candidate with it:

| a piece of a candidate | its call |
| :-- | :-- |
| the value of a literal of the expression | the one that decides about the expression, and not ignored |
| a piece of a variable | any, also an ignored one (`printedAppend_found`) |
-/
import EmbeddedSql.Proofs.Flow.Logged
import EmbeddedSql.Proofs.Flow.Shape
import EmbeddedSql.Token.Lexer

namespace EmbeddedSql

namespace FlowContext

variable {cx : FlowContext} {m : Juncture}

/-! ## One call -/

/-- The literals of a free-standing expression stand under the call that decides about it. -/
theorem IsRead.nearestCall?_eq {classifier : Classifier} (hb : cx.scope.Regular)
    (hframed : cx.scope.FramedBy classifier) {anchor start : Nat} {e : Expression}
    {found : List Candidate} (h : cx.IsRead (.loose anchor start e found)) :
    ∀ k ∈ e.literals, cx.scope.nearestCall? k = cx.scope.nearestCall? anchor := by
  cases h with
  | loose hstring he _ =>
      have hshape := Brackets.Shape.of_leadsTo hb (Brackets.leadsTo_pullIn .literal) he
      refine hshape.nearestCall?_eq hframed hb.balanced (.inr ?_)
      rw [← Bool.not_eq_true]
      intro hparen
      rw [Brackets.isString_of_isPunct hparen] at hstring
      cases hstring

/-- If it gives candidates, this call is not ignored. -/
theorem Gives.isIgnored_eq_false {anchor start : Nat} {e : Expression} {found : List Candidate}
    (h : cx.Gives anchor start e found) (hfound : found ≠ []) :
    (cx.scope.callClassAt anchor).isIgnored = false := by
  cases h with
  | ignored _ => exact absurd rfl hfound
  | heeded h _ => exact h

/-- The text of its candidates is that of its fragments. -/
theorem Gives.render_eq {anchor start : Nat} {e : Expression} {found : List Candidate}
    (h : cx.Gives anchor start e found) : ∀ c ∈ found, cx.render e.fragments = .ok c.text := by
  cases h with
  | ignored _ => exact nofun
  | heeded _ hfound =>
      intro c hc
      obtain ⟨text, first, last, htext, -, -, rfl⟩ := exists_of_mem_looseCandidates hfound c hc
      exact htext

/-- What a run has found where it stands.  `oneCall` says that the literals read for a candidate have the same
nearest classified call, and that it is not ignored; `ignored`, that a literal whose nearest classified call
is ignored is read for no candidate; `text`, that the candidates show what was read.  `pieces` says what else
is read: besides values of its own literals an expression has numbers, characters and unknown values, and what
it has from variables are pieces of values that were read before it.  Nothing is said about the calls that
those values stand in. -/
structure FindsInOneCall (cx : FlowContext) (m : Juncture) : Prop where
  logged : cx.Logged m.state m.log
  oneCall : ∀ u ∈ m.log, u.found ≠ [] → ∃ call : Option Frame,
    call.all (!·.disposition.isIgnored) = true ∧ ∀ k ∈ u.literals, cx.scope.nearestCall? k = call
  ignored : ∀ k, (cx.scope.callClassAt k).isIgnored = true → ∀ u ∈ m.log, k ∈ u.literals → u.found = []
  text : ∀ u ∈ m.log, ∀ c ∈ u.found, cx.render u.expression.fragments = .ok c.text
  pieces : ∀ before u, before ++ [u] <+: m.log → ∀ f ∈ u.expression.fragments,
    f.PieceOf cx.scope.toBrackets (IsFromValue before) u.literals

theorem Occurs.findsInOneCall {classifier : Classifier} (hb : cx.scope.Regular)
    (hframed : cx.scope.FramedBy classifier) (h : cx.Occurs m) : cx.FindsInOneCall m := by
  have hread := h.logged.isRead
  refine ⟨h.logged, fun u hu hfound => ?_, fun k hk u hu hmem => ?_, fun u hu => ?_, h.logged.consists⟩
  · cases u with
    | value start e => exact absurd rfl hfound
    | loose anchor start e found =>
        refine ⟨cx.scope.nearestCall? anchor, ?_, (hread _ hu).nearestCall?_eq hb hframed⟩
        cases hread _ hu with
        | loose _ _ hgives =>
            have hheeded := hgives.isIgnored_eq_false hfound
            rw [Scope.callClassAt_eq] at hheeded
            cases hcall : cx.scope.nearestCall? anchor with
            | none => rfl
            | some call =>
                rw [hcall] at hheeded
                simpa using hheeded
  · cases u with
    | value start e => rfl
    | loose anchor start e found =>
        have hsame := (hread _ hu).nearestCall?_eq hb hframed k hmem
        rw [Scope.callClassAt_eq, hsame, ← Scope.callClassAt_eq] at hk
        cases hread _ hu with
        | loose _ _ hgives =>
            by_contra hfound
            rw [hgives.isIgnored_eq_false hfound] at hk
            cases hk
  · cases hread u hu with
    | value _ => exact nofun
    | loose _ _ hgives => exact hgives.render_eq

end FlowContext

/-- In balanced code with plain creation expressions, whatever is found where it stands is found in one
call: at every juncture of a run, the literals that are read for a candidate have the same nearest classified
call, which is not ignored, and a literal whose nearest classified call is ignored is read for no candidate.
All else that a candidate shows of literals was read before, in values of variables.  The run comes from
juncture to juncture, up to its end. -/
theorem run_finds_in_one_call (rules : RuleSet) (classifier : Classifier) (placeholder : Template)
    {tokens : List Token} (hbalanced : Balanced tokens) (hcreations : plainCreations tokens = true) :
    let cx := FlowContext.ofTokens rules classifier placeholder tokens
    (∀ m, cx.Occurs m → cx.FindsInOneCall m) ∧
      (∀ s i, cx.Comes s i → ∃ log, cx.Occurs ⟨s, .at i, log⟩) ∧
      ∀ s, cx.run = .ok s → ∃ i log, cx.Occurs ⟨s, .at i, log⟩ := by
  intro cx
  have hb : cx.scope.Regular := ⟨hbalanced, hcreations⟩
  have hframed : cx.scope.FramedBy classifier := Scope.framedBy_ofTokens classifier tokens
  exact ⟨fun _ h => h.findsInOneCall hb hframed, fun _ _ => FlowContext.Comes.occurs,
    fun _ => FlowContext.run_occurs⟩

/-- Literals in parentheses and in a cast, all in a call that executes its argument, and the same in one
that prints it. -/
def executedAndPrinted : List Token :=
  significant ((tokenize ("st.executeQuery(\"SELECT a \" + (\"FROM t\"));" ++
    "System.out.println(\"SELECT b \" + (String) \"FROM t\");")).toOption.getD [])

/-- Only the one that is executed is found. -/
theorem run_finds_in_one_call_executedAndPrinted :
    let cx := FlowContext.ofTokens .standard RuleSet.standard.classifier standardPlaceholder
      executedAndPrinted
    ∃ s i log, cx.run = .ok s ∧ s.committed = [4, 7, 17, 22] ∧
      s.detected.map (·.text) = [Text.ofString "SELECT a FROM t"] ∧ cx.FindsInOneCall ⟨s, .at i, log⟩ := by
  intro cx
  have hrun : cx.run.toOption.map (fun s => (s.committed, s.detected.map (·.text))) =
      some ([4, 7, 17, 22], [Text.ofString "SELECT a FROM t"]) := by
    decide +kernel
  have hbalanced : Balanced executedAndPrinted := by decide +kernel
  have hcreations : plainCreations executedAndPrinted = true := by decide +kernel
  obtain ⟨hall, -, hend⟩ := run_finds_in_one_call .standard RuleSet.standard.classifier
    standardPlaceholder hbalanced hcreations
  cases hr : cx.run with
  | ok s =>
      rw [hr] at hrun
      obtain ⟨hcommitted, htexts⟩ := Prod.mk.inj (Option.some.inj hrun)
      obtain ⟨i, log, hoccurs⟩ := hend s hr
      exact ⟨s, i, log, rfl, hcommitted, htexts, hall _ hoccurs⟩
  | error e =>
      rw [hr] at hrun
      cases hrun

/-- A literal that is printed as it is appended to a builder, which is mentioned in another call. -/
def printedAppend : List Token :=
  significant ((tokenize ("StringBuilder sb = new StringBuilder(); " ++
    "System.out.println(sb.append(\"SELECT a FROM t\")); f(sb + \" WHERE x\");")).toOption.getD [])

/-- It is found with the literal of that call, from which its own nearest classified call differs, and is
ignored. -/
theorem printedAppend_found :
    let cx := FlowContext.ofTokens .standard RuleSet.standard.classifier standardPlaceholder printedAppend
    Balanced printedAppend ∧ plainCreations printedAppend = true ∧
    printedAppend[18]?.map (·.text) = some "\"SELECT a FROM t\"" ∧
    printedAppend[26]?.map (·.text) = some "\" WHERE x\"" ∧
    (cx.scope.callClassAt 18).isIgnored = true ∧ cx.scope.nearestCall? 18 ≠ cx.scope.nearestCall? 26 ∧
    ∃ s, cx.run = .ok s ∧ s.detected.map (·.text) = [Text.ofString "SELECT a FROM t WHERE x"] := by
  intro cx
  have hrun : cx.run.toOption.map (fun s => s.detected.map (·.text)) =
      some [Text.ofString "SELECT a FROM t WHERE x"] := by
    decide +kernel
  obtain ⟨s, hs, htexts⟩ := Option.map_eq_some_iff.1 hrun
  exact ⟨by decide +kernel, by decide +kernel, by decide +kernel, by decide +kernel, by decide +kernel,
    by decide +kernel, s, toOption_eq_some.1 hs, htexts⟩

end EmbeddedSql
