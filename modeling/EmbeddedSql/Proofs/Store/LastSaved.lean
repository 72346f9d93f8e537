/-
# The last result that was saved

Asked for a path and a content, the store gives back the result that was saved last for them, unless that
has an error.  What else happened does not matter: runs that were started and finished, events, results of
other paths and contents, and attempts that were refused.

An operation either saves a result for the path and content, and then this is what is given back, or leaves
what would be given back as it was (`gives_perform`).  For many operations it follows by going through them
from the first to the last (`gives_performAll`).

A text that the database cannot hold is refused.  This does not hold of statements, which are kept as JSON:
two halves of a surrogate pair that stand side by side come back as one character.  So here the statements
have to be made of characters (`GivenResult.HasPlainStatements`).
-/
import EmbeddedSql.Proofs.Store.Operations

namespace EmbeddedSql

/-! ## Results that were given -/

theorem ofString_inj {s t : String} : Text.ofString s = Text.ofString t ↔ s = t := by
  refine ⟨fun h => ?_, fun h => h ▸ rfl⟩
  have hsome : some s = some t := by rw [← Text.toString?_ofString, h, Text.toString?_ofString]
  exact Option.some.inj hsome

namespace GivenResult

/-- Was it given for this path and content? -/
def isFor (filePath contentHash : String) (r : GivenResult) : Bool :=
  r.filePath = Text.ofString filePath ∧ r.contentHash = some (Text.ofString contentHash)

/-- The result, if it has no error. -/
def unlessError (r : GivenResult) : Option GivenResult := if r.error = none then some r else none

def HasPlainStatements (r : GivenResult) : Prop :=
  ∀ c ∈ r.candidates, ∀ s ∈ c.statements, s.toString?.isSome = true

instance (r : GivenResult) : Decidable r.HasPlainStatements :=
  inferInstanceAs (Decidable (∀ c ∈ r.candidates, ∀ s ∈ c.statements, s.toString?.isSome = true))

end GivenResult

theorem isPlain_of_given {r : ScanResult} (h : r.given.HasPlainStatements) :
    ∀ c ∈ r.candidates, c.IsPlain := by
  intro c hc s hs
  obtain ⟨text, htext⟩ := Option.isSome_iff_exists.1 (h c.given (List.mem_map_of_mem hc) s hs)
  exact ⟨text.toList, (Text.ofString_toString? htext).symm⟩

theorem isFor_given {r : ScanResult} {p h : String} :
    r.given.isFor p h = true ↔ r.filePath = p ∧ r.contentHash = some h := by
  rw [GivenResult.isFor, decide_eq_true_iff, ScanResult.given, ofString_inj]
  refine and_congr_right fun _ => ?_
  cases r.contentHash with
  | none => simp
  | some hash => simp [ofString_inj]

theorem unlessError_given (r : ScanResult) :
    r.given.unlessError = (if r.isOk then some r else none).map ScanResult.given := by
  unfold GivenResult.unlessError ScanResult.isOk
  cases herror : r.error with
  | none => simp [ScanResult.given, herror]
  | some e => simp [ScanResult.given, herror]

/-- The result that an operation has saved, if it was a save that was not refused. -/
def Operation.saved? : Operation → Except StoreError Answer → Option GivenResult
  | .save _ r, .ok _ => some r
  | _, _ => none

namespace Connection

variable {c : Connection} {p h : String}

/-- The results that operations save, in their order. -/
def saved (c : Connection) (ops : List Operation) : List GivenResult :=
  (ops.zip (c.performAll ops).1).filterMap fun (op, answer) => op.saved? answer

/-- The last result that operations save for a path and a content. -/
def lastSaved? (c : Connection) (ops : List Operation) (filePath contentHash : String) :
    Option GivenResult :=
  ((c.saved ops).filter (·.isFor filePath contentHash)).getLast?

/-- What the store gives back for a path and a content, as it was given. -/
def gives (c : Connection) (filePath contentHash : String) : Option GivenResult :=
  (c.store.cached? filePath contentHash).map ScanResult.given

theorem saved_cons (c : Connection) (op : Operation) (ops : List Operation) :
    c.saved (op :: ops) =
      (op.saved? (c.perform op).1).toList ++ (c.perform op).2.saved ops := by
  unfold saved
  rw [performAll]
  dsimp only
  rw [List.zip_cons_cons, List.filterMap_cons]
  cases op.saved? (c.perform op).1 <;> rfl

theorem lastSaved?_cons (c : Connection) (op : Operation) (ops : List Operation) (p h : String) :
    c.lastSaved? (op :: ops) p h =
      ((c.perform op).2.lastSaved? ops p h).or
        ((op.saved? (c.perform op).1).filter (·.isFor p h)) := by
  unfold lastSaved?
  rw [saved_cons, List.filter_append, List.getLast?_append]
  congr 1
  cases op.saved? (c.perform op).1 with
  | none => rfl
  | some r =>
      rw [Option.toList_some, List.filter_singleton, Option.filter_some]
      cases r.isFor p h <;> rfl

/-! ## One operation -/

theorem gives_of_sameResults {store : Store} (h : c.store.SameResults store) :
    gives { c with store } = c.gives := by
  funext p hash
  rw [gives, gives, h.cached?_eq]

/-- A result does not show for another path or another content, whether it is saved or refused. -/
theorem cached?_attemptSave (hidle : c.transaction = none) {runId : Option Text} {r : GivenResult}
    (hnot : r.isFor p h = false) :
    (c.attemptSave runId r).2.store.cached? p h = c.store.cached? p h := by
  rcases attemptSave_cases hidle runId r with
    ⟨-, hsave⟩ | ⟨e, hsave⟩ | ⟨hash, store, hhash, hfold, hsave⟩
  · rw [hsave]
  · rw [hsave]
  · obtain ⟨id, digest, result, rfl, rfl, rfl, hdigest, hsaved⟩ :=
      of_foldlM_saveStatements hhash hfold
    rw [hsave]
    refine Store.cached?_save_of_ne hdigest hsaved fun heq => ?_
    obtain ⟨rfl, rfl⟩ := Prod.mk.inj heq
    rw [isFor_given.2 ⟨rfl, hdigest⟩] at hnot
    cases hnot

/-- A result that is not refused is given back. -/
theorem gives_attemptSave (hidle : c.transaction = none) {runId : Option Text} {r : GivenResult}
    (hplain : r.HasPlainStatements) (hfor : r.isFor p h = true) :
    (∃ e, c.attemptSave runId r = (.error e, c)) ∨
      ∃ c', c.attemptSave runId r = (.ok (), c') ∧ c'.gives p h = r.unlessError := by
  rcases attemptSave_cases hidle runId r with
    ⟨hnone, -⟩ | hsave | ⟨hash, store, hhash, hfold, hsave⟩
  · rw [GivenResult.isFor, hnone] at hfor
    simp at hfor
  · exact .inl hsave
  · obtain ⟨id, digest, result, rfl, rfl, rfl, hdigest, hsaved⟩ :=
      of_foldlM_saveStatements hhash hfold
    obtain ⟨rfl, hh⟩ := isFor_given.1 hfor
    obtain rfl : digest = h := Option.some.inj (hdigest.symm.trans hh)
    refine .inr ⟨_, hsave, ?_⟩
    rw [gives, Store.cached?_save_of_isPlain hdigest (isPlain_of_given hplain) hsaved,
      unlessError_given]

theorem gives_perform (hidle : c.transaction = none) (op : Operation)
    (hplain : ∀ runId r, op = .save runId r → r.HasPlainStatements) (p h : String) :
    (c.perform op).2.gives p h =
      ((op.saved? (c.perform op).1).filter (·.isFor p h)).elim (c.gives p h)
        GivenResult.unlessError := by
  by_cases hop : ∃ runId r, op = .save runId r
  · obtain ⟨runId, r, rfl⟩ := hop
    cases hfor : r.isFor p h with
    | false =>
        have hnone : ∀ answer, ((Operation.save runId r).saved? answer).filter (·.isFor p h) = none := by
          rintro (e | answer)
          · rfl
          · rw [Operation.saved?, Option.filter_some, hfor]
            rfl
        rw [hnone]
        exact congrArg _ (cached?_attemptSave hidle hfor)
    | true =>
        rcases gives_attemptSave hidle (hplain runId r rfl) hfor with ⟨e, hsave⟩ | ⟨c', hsave, hgives⟩
        · rw [perform, hsave]
          rfl
        · rw [perform, hsave]
          dsimp only [Except.map, Operation.saved?]
          rw [hgives, Option.filter_some, hfor]
          rfl
  · have hnone : op.saved? (c.perform op).1 = none := by
      cases op with
      | save runId r => exact absurd ⟨runId, r, rfl⟩ hop
      | _ => rfl
    rw [hnone]
    rcases perform_leaves hidle op with ⟨-, hleaves⟩ | ⟨store, hleaves, hsame⟩
    · rw [hleaves, gives, close, hidle]
      rfl
    · rw [hleaves, gives_of_sameResults (hsame fun runId r heq => hop ⟨runId, r, heq⟩)]
      rfl

/-! ## Many operations -/

theorem gives_performAll (hidle : c.transaction = none) (ops : List Operation)
    (hplain : ∀ runId r, .save runId r ∈ ops → r.HasPlainStatements) (p h : String) :
    (c.performAll ops).2.gives p h =
      (c.lastSaved? ops p h).elim (c.gives p h) GivenResult.unlessError := by
  induction ops generalizing c with
  | nil => rfl
  | cons op ops ih =>
      have hrest := ih (transaction_perform hidle op) fun runId r hm =>
        hplain runId r (List.mem_cons_of_mem op hm)
      have hfirst := gives_perform hidle op
        (fun runId r heq => hplain runId r (heq ▸ List.mem_cons_self)) p h
      rw [lastSaved?_cons]
      refine hrest.trans ?_
      cases (c.perform op).2.lastSaved? ops p h with
      | some r => rfl
      | none => exact hfirst

theorem isOpen_performAll (hidle : c.transaction = none) {ops : List Operation}
    (hops : .close ∉ ops) : (c.performAll ops).2.isOpen = c.isOpen := by
  induction ops generalizing c with
  | nil => rfl
  | cons op ops ih =>
      rw [List.mem_cons, not_or] at hops
      exact (ih (transaction_perform hidle op) hops.2).trans (isOpen_perform hidle (Ne.symm hops.1))

theorem perform_findCached (hopen : c.isOpen = true) (p h : String) :
    c.perform (.findCached p h) = (.ok (.result (c.store.cached? p h)), c) := by
  rw [perform, ask, hopen]
  rfl

theorem of_connect {s : Store} (hc : Connection.connect s = .ok c) :
    c.isOpen = true ∧ s.SameResults c.store := by
  have hsame := Store.sameResults_migrate s
  unfold Connection.connect at hc
  split at hc
  · next hmigrate =>
      cases hc
      rw [hmigrate] at hsame
      exact ⟨rfl, hsame⟩
  · cases hc

/-- A store that is opened and used, some of the time without success.  What it then gives back for a path and
a content is the result that was saved last for them, if that has no error, and nothing if it has one.  If
none was saved, it is what the store held when it was opened.  Saving a result for another path or another
content makes no difference. -/
theorem findCached_lastSaved {s : Store} (hc : Connection.connect s = .ok c)
    {ops : List Operation} (hops : .close ∉ ops)
    (hplain : ∀ runId r, .save runId r ∈ ops → r.HasPlainStatements) (p h : String) :
    let after := (c.performAll ops).2
    (∃ found, after.perform (.findCached p h) = (.ok (.result found), after) ∧
      found.map ScanResult.given = (c.lastSaved? ops p h).elim
        ((s.cached? p h).map ScanResult.given) GivenResult.unlessError) ∧
    (s.files = [] → s.cached? p h = none) ∧
    ∀ runId r, r.isFor p h = false →
      ((after.perform (.save runId r)).2.perform (.findCached p h)).1 =
        (after.perform (.findCached p h)).1 := by
  obtain ⟨hopen, hsame⟩ := of_connect hc
  have hidle := (Reachable.connect hc).transaction_eq_none
  intro after
  have hafter : after.isOpen = true := (isOpen_performAll hidle hops).trans hopen
  have hidle' : after.transaction = none :=
    ((Reachable.connect hc).performAll ops).transaction_eq_none
  refine ⟨⟨_, perform_findCached hafter p h, ?_⟩, fun hfiles => ?_, fun runId r hnot => ?_⟩
  · rw [← hsame.cached?_eq]
    exact gives_performAll hidle ops hplain p h
  · rw [Store.cached?, Store.scannedFile?, hfiles]
    rfl
  · have hkept : (after.perform (.save runId r)).2.isOpen = after.isOpen :=
      isOpen_perform hidle' (by rintro ⟨⟩)
    have hsame : (after.perform (.save runId r)).2.store.cached? p h = after.store.cached? p h :=
      cached?_attemptSave hidle' hnot
    rw [perform_findCached (hkept.trans hafter), perform_findCached hafter, hsame]

/-! A file is saved twice, the second time under another run and with fewer candidates.  Before and after
that an attempt to save it is refused, and another file of the same content is saved with an error. -/

def failedResult : ScanResult := ⟨"B.java", [], some "0", some "unterminated"⟩

def savedTwice : List Operation :=
  [.createRun "" "first" (some "src"),
    .save (some (Text.ofString "first")) (resultWith [candidateAt 1 1, candidateAt 2 2]).given,
    .save (some (Text.ofString "second")) (resultWith []).given,
    .createRun "" "second" (some "src"),
    .save (some (Text.ofString "second")) (resultWith [candidateAt 3 3]).given,
    .save (some (Text.ofString "second")) (resultWith [candidateAt 5 5, candidateAt 7 6]).given,
    .save (some (Text.ofString "second")) failedResult.given,
    .finishRun "" "second" .done]

/-- The second result is given back for the one file, and nothing for the other. -/
theorem findCached_lastSaved_savedTwice :
    connect .empty = .ok opened ∧ .close ∉ savedTwice ∧
      (∀ runId r, .save runId r ∈ savedTwice → r.HasPlainStatements) ∧
      let after := (opened.performAll savedTwice).2
      (∃ found, after.perform (.findCached "A.java" "0") = (.ok (.result found), after) ∧
        found.map ScanResult.given = some (resultWith [candidateAt 3 3]).given) ∧
      ∃ found, after.perform (.findCached "B.java" "0") = (.ok (.result found), after) ∧
        found.map ScanResult.given = none := by
  have hconnect : connect .empty = .ok opened := by decide +kernel
  have hopen : Operation.close ∉ savedTwice := by simp [savedTwice]
  have hplain : ∀ runId r, .save runId r ∈ savedTwice → r.HasPlainStatements := by
    intro runId r hm
    simp only [savedTwice, List.mem_cons, Operation.save.injEq, reduceCtorEq, List.not_mem_nil,
      false_or, or_false] at hm
    rcases hm with ⟨-, rfl⟩ | ⟨-, rfl⟩ | ⟨-, rfl⟩ | ⟨-, rfl⟩ | ⟨-, rfl⟩ <;> decide +kernel
  obtain ⟨⟨found, hfound, hgiven⟩, -⟩ := findCached_lastSaved hconnect hopen hplain "A.java" "0"
  obtain ⟨⟨other, hother, hnone⟩, -⟩ := findCached_lastSaved hconnect hopen hplain "B.java" "0"
  have hlast : opened.lastSaved? savedTwice "A.java" "0" =
      some (resultWith [candidateAt 3 3]).given := by
    decide +kernel
  have hfailed : opened.lastSaved? savedTwice "B.java" "0" = some failedResult.given := by
    decide +kernel
  rw [hlast] at hgiven
  rw [hfailed] at hnone
  exact ⟨hconnect, hopen, hplain, ⟨found, hfound, hgiven⟩, other, hother, hnone⟩

end Connection

end EmbeddedSql
