/-
# The first row that matches

A row of a sink table matches a call if its two globs fit the names of the call, all of them lower-cased
(`SinkRule.Matches`).  The class of a call is that of the first such row in the order of the table, and calls that no
row matches are unclassified (`FirstMatch`).  A table is asked for many calls, and it keeps its answers under the
spelling of the call.  What it keeps is always right (`CallMemo.Right`), so no answer depends on those before it, and
since nothing but lower-cased names is compared, no answer depends on the spelling.
-/
import EmbeddedSql.Proofs.Glob.Matching
import EmbeddedSql.Rules.Classify

namespace EmbeddedSql

/-! ## Rows -/

/-- Do both globs of the row fit the call?  Letter case does not count. -/
def SinkRule.Matches (rule : SinkRule) (receiver method : Text) : Prop :=
  Pattern.GlobFits rule.receiver.lower receiver.lower ∧ Pattern.GlobFits rule.method.lower method.lower

/-- The class of a call by a table: that of the first row that matches it. -/
def FirstMatch (table : List SinkRule) (receiver method : Text) (c : CallClass) : Prop :=
  (∃ before rule after, table = before ++ rule :: after ∧ rule.Matches receiver method ∧
      (∀ earlier ∈ before, ¬ earlier.Matches receiver method) ∧ c = rule.disposition) ∨
    (∀ rule ∈ table, ¬ rule.Matches receiver method) ∧ c = .unclassified

/-- Does the row match, as far as its globs have been read? -/
def ClassifierRow.fits (row : ClassifierRow) (receiver method : Text) : Bool :=
  row.method.fits method.lower && row.receiver.fits receiver.lower

theorem ClassifierRow.fits_ofRule {rule : SinkRule} {receiver method : Text} :
    (ofRule rule).fits receiver method = true ↔ rule.Matches receiver method := by
  rw [fits, Bool.and_eq_true, SinkRule.Matches, ← globMatches_iff, ← globMatches_iff]
  exact and_comm

/-- The first row of the table that matches the call. -/
def RuleSet.rowOf? (rules : RuleSet) (receiver method : Text) : Option SinkRule :=
  rules.sinkRules.find? fun rule => (ClassifierRow.ofRule rule).fits receiver method

theorem RuleSet.rowOf?_eq_some_iff {rules : RuleSet} {receiver method : Text} {rule : SinkRule} :
    rules.rowOf? receiver method = some rule ↔
      ∃ before after, rules.sinkRules = before ++ rule :: after ∧ rule.Matches receiver method ∧
        ∀ earlier ∈ before, ¬ earlier.Matches receiver method := by
  simp only [rowOf?, List.find?_eq_some_iff_append, Bool.not_eq_true', ← Bool.not_eq_true,
    ClassifierRow.fits_ofRule]
  constructor
  · rintro ⟨hmatch, before, after, htable, hbefore⟩
    exact ⟨before, after, htable, hmatch, hbefore⟩
  · rintro ⟨before, after, htable, hmatch, hbefore⟩
    exact ⟨hmatch, before, after, htable, hbefore⟩

theorem RuleSet.rowOf?_eq_none_iff {rules : RuleSet} {receiver method : Text} :
    rules.rowOf? receiver method = none ↔ ∀ rule ∈ rules.sinkRules, ¬ rule.Matches receiver method := by
  simp only [rowOf?, List.find?_eq_none, ClassifierRow.fits_ofRule]

theorem classify_eq (rules : RuleSet) (receiver method : Text) :
    rules.classifier.classify receiver method =
      ((rules.rowOf? receiver method).map SinkRule.disposition).getD .unclassified := by
  have hfind : (rules.classifier.find? fun row => row.method.fits method.lower && row.receiver.fits receiver.lower) =
      (rules.rowOf? receiver method).map ClassifierRow.ofRule := List.find?_map
  rw [Classifier.classify, hfind]
  cases rules.rowOf? receiver method with
  | none => rfl
  | some rule => rfl

/-- The class that is computed is the class by the table, and the only one. -/
theorem firstMatch_iff (rules : RuleSet) (receiver method : Text) (c : CallClass) :
    FirstMatch rules.sinkRules receiver method c ↔ c = rules.classifier.classify receiver method := by
  rw [classify_eq]
  constructor
  · rintro (⟨before, rule, after, htable, hmatch, hbefore, rfl⟩ | ⟨hnone, rfl⟩)
    · rw [RuleSet.rowOf?_eq_some_iff.2 ⟨before, after, htable, hmatch, hbefore⟩]
      rfl
    · rw [RuleSet.rowOf?_eq_none_iff.2 hnone]
      rfl
  · intro hc
    cases h : rules.rowOf? receiver method with
    | none =>
        rw [h] at hc
        exact .inr ⟨RuleSet.rowOf?_eq_none_iff.1 h, hc⟩
    | some rule =>
        rw [h] at hc
        obtain ⟨before, after, htable, hmatch, hbefore⟩ := RuleSet.rowOf?_eq_some_iff.1 h
        exact .inl ⟨before, rule, after, htable, hmatch, hbefore, hc⟩

/-- Names that differ only in the case of letters are classed alike. -/
theorem classify_eq_of_lower_eq (rows : Classifier) {receiver receiver' method method' : Text}
    (hreceiver : receiver'.lower = receiver.lower) (hmethod : method'.lower = method.lower) :
    rows.classify receiver' method' = rows.classify receiver method := by
  rw [Classifier.classify, Classifier.classify, hreceiver, hmethod]

/-! ## Kept answers -/

namespace CallMemo

/-- Every answer that is kept is the one that the rows give. -/
def Right (memo : CallMemo) : Prop :=
  ∀ entry ∈ memo.known, entry.2 = memo.rows.classify entry.1.1 entry.1.2

theorem right_ofRules (rules : RuleSet) : (ofRules rules).Right := nofun

variable {memo : CallMemo}

/-- One call is classed by the rows, and what is kept is right afterwards. -/
theorem Right.classify (h : memo.Right) (call : Text × Text) :
    (memo.classify call).1 = memo.rows.classify call.1 call.2 ∧
      (memo.classify call).2.rows = memo.rows ∧ (memo.classify call).2.Right := by
  rw [CallMemo.classify]
  cases hknown : memo.known.lookup call with
  | some c =>
      obtain ⟨before, after, heq, -⟩ := List.lookup_eq_some_iff.1 hknown
      have hmem : (call, c) ∈ memo.known := heq ▸ List.mem_append_right _ List.mem_cons_self
      exact ⟨h _ hmem, rfl, h⟩
  | none =>
      refine ⟨rfl, rfl, fun entry hentry => ?_⟩
      obtain rfl | hentry := List.mem_cons.1 hentry
      · rfl
      · exact h entry hentry

theorem Right.classifyAll (h : memo.Right) (calls : List (Text × Text)) :
    memo.classifyAll calls = calls.map fun call => memo.rows.classify call.1 call.2 := by
  induction calls generalizing memo with
  | nil => rfl
  | cons call calls ih =>
      obtain ⟨hanswer, hrows, hright⟩ := h.classify call
      rw [CallMemo.classifyAll, hanswer, ih hright, hrows, List.map_cons]

/-- For every table and any calls, one after the other: each of them has exactly the class of the first row that
matches it, and a call whose names differ only in the case of letters has the same class, wherever it stands among
whichever others. -/
theorem classifyAll_firstMatch (rules : RuleSet) {calls : List (Text × Text)} {k : Nat} {receiver method : Text}
    (hcall : calls[k]? = some (receiver, method)) :
    ∃ c, ((ofRules rules).classifyAll calls)[k]? = some c ∧
      (∀ c', FirstMatch rules.sinkRules receiver method c' ↔ c' = c) ∧
      ∀ (others : List (Text × Text)) (l : Nat) (receiver' method' : Text),
        others[l]? = some (receiver', method') → receiver'.lower = receiver.lower → method'.lower = method.lower →
          ((ofRules rules).classifyAll others)[l]? = some c := by
  have hanswer (calls : List (Text × Text)) (k : Nat) (receiver method : Text)
      (hcall : calls[k]? = some (receiver, method)) :
      ((ofRules rules).classifyAll calls)[k]? = some (rules.classifier.classify receiver method) := by
    rw [(right_ofRules rules).classifyAll, List.getElem?_map, hcall]
    rfl
  refine ⟨_, hanswer calls k receiver method hcall, firstMatch_iff rules receiver method, ?_⟩
  intro others l receiver' method' hother hreceiver hmethod
  rw [hanswer others l receiver' method' hother, classify_eq_of_lower_eq _ hreceiver hmethod]

/-- Two rows, of which the first one also stands for a call that the second one matches. -/
def auditRules : RuleSet :=
  { RuleSet.standard with sinkRules := [⟨"audit", "*", .ignoredOutput⟩, ⟨"*", "execute*", .executionSink⟩] }

/-- Three calls in a row, the last one as the first one but in capitals. -/
def auditCalls : List (Text × Text) := [("audit", "execute"), ("stmt", "execute"), ("AUDIT", "Execute")]

theorem classifyAll_auditCalls :
    auditCalls[0]? = some (("audit" : Text), ("execute" : Text)) ∧
      (ofRules auditRules).classifyAll auditCalls = [.ignoredOutput, .executionSink, .ignoredOutput] ∧
      FirstMatch auditRules.sinkRules "audit" "execute" .ignoredOutput := by
  have hcall : auditCalls[0]? = some (("audit" : Text), ("execute" : Text)) := rfl
  have hanswers : (ofRules auditRules).classifyAll auditCalls =
      [.ignoredOutput, .executionSink, .ignoredOutput] := by decide +kernel
  obtain ⟨c, hanswer, hfirst, -⟩ := classifyAll_firstMatch auditRules hcall
  rw [hanswers] at hanswer
  exact ⟨hcall, hanswers, (hfirst _).2 (Option.some.inj hanswer)⟩

end CallMemo

end EmbeddedSql
