/-
# Operations on a store

A store is used by operations, one after the other.  Each is answered or refused, and leaves a connection
for the next one.

| operation | may change | is refused |
| :-- | :-- | :-- |
| `createRun`, `finishRun` | runs | if there is no such run, or none can be made |
| `save` | files and findings | if a text, a number or the run is refused, or a candidate ends before it starts |
| `logEvent` | events | never |
| `migrate` | the schema | if the database cannot be changed |
| `close` | whether the connection is open | never |
| all others | nothing | if a limit takes more than 64 bits |

All but `logEvent` and `close` are refused by a closed connection, unless there is nothing to do.

Only `save` opens a transaction, and none is open after it (`Connection.Reachable.transaction_eq_none`).  An
attempt to save that is refused leaves the connection as it found it, whatever was carried out before
the refusal (`attemptSave_atomic`).
-/
import Mathlib.Data.List.Basic
import EmbeddedSql.Proofs.Store.Cached
import EmbeddedSql.Proofs.Store.Transaction

namespace EmbeddedSql

inductive Operation where
  | createRun (now id : String) (root : Option String)
  | finishRun (now id : String) (status : RunStatus)
  | save (runId : Option Text) (r : GivenResult)
  | logEvent (runId eventType : Option String) (data : Json) (duration : Option Int)
  | migrate
  | close
  | version
  | findRun (id : String)
  | listRuns (limit : Int)
  | findFile (filePath contentHash : String)
  | findCached (filePath contentHash : String)
  | listFindings (query : Store.FindingQuery)
  | queryEvents (eventType runId : Option String)

inductive Answer where
  | done
  | stored (taken : Bool)
  | version (n : Int)
  | versions (reached : List Int)
  | run (found : Option Run)
  | runs (found : List Run)
  | file (found : Option ScannedFile)
  | result (found : Option ScanResult)
  | findings (found : List Finding)
  | events (found : List Event)
deriving DecidableEq

namespace Connection

/-- Use the store, and go on with the same connection if that is refused. -/
def tryUpdate {α : Type} (c : Connection) (answer : α → Answer)
    (f : Store → Except StoreError (α × Store)) : Except StoreError Answer × Connection :=
  match c.update f with
  | .error e => (.error e, c)
  | .ok (a, c) => (.ok (answer a), c)

def perform (c : Connection) : Operation → Except StoreError Answer × Connection
  | .createRun now id root => c.tryUpdate (fun run => .run (some run)) (·.createRun now id root)
  | .finishRun now id status => c.tryUpdate (fun run => .run (some run)) (·.finishRun now id status)
  | .save runId r =>
    let (saved, c) := c.attemptSave runId r
    (saved.map fun _ => .done, c)
  | .logEvent runId eventType data duration =>
    match c.logEvent? runId eventType data duration with
    | none => (.ok (.stored false), c)
    | some c => (.ok (.stored true), c)
  | .migrate =>
    let (reached, c) := c.migrate
    (reached.map .versions, c)
  | .close => (.ok .done, c.close)
  | .version => (c.ask fun s => .ok (.version s.schema.version), c)
  | .findRun id => (c.ask fun s => .ok (.run (s.run? id)), c)
  | .listRuns limit => (c.ask fun s => (s.listRuns limit).map .runs, c)
  | .findFile filePath hash => (c.ask fun s => .ok (.file (s.scannedFile? filePath hash)), c)
  | .findCached filePath hash => (c.ask fun s => .ok (.result (s.cached? filePath hash)), c)
  | .listFindings query => (c.ask fun s => .ok (.findings (s.listFindings query)), c)
  | .queryEvents eventType runId => (c.ask fun s => .ok (.events (s.queryEvents eventType runId)), c)

/-- The answers to operations that are performed one after the other, and the connection afterwards. -/
def performAll (c : Connection) : List Operation → List (Except StoreError Answer) × Connection
  | [] => ([], c)
  | op :: ops =>
    let (answer, c) := c.perform op
    let (answers, c) := c.performAll ops
    (answer :: answers, c)

/-- Connections that come from opening some store and performing operations. -/
inductive Reachable : Connection → Prop
  | connect {s : Store} {c : Connection} : connect s = .ok c → Reachable c
  | perform {c : Connection} (op : Operation) : Reachable c → Reachable (c.perform op).2

variable {c c' : Connection}

theorem Reachable.performAll (h : c.Reachable) (ops : List Operation) :
    (c.performAll ops).2.Reachable := by
  induction ops generalizing c with
  | nil => exact h
  | cons op ops ih => exact ih (h.perform op)

/-! ## What an operation leaves -/

theorem tryUpdate_leaves {α : Type} {answer : α → Answer} {f : Store → Except StoreError (α × Store)}
    (hf : ∀ a store, f c.store = .ok (a, store) → c.store.SameResults store) :
    ∃ store, (c.tryUpdate answer f).2 = { c with store } ∧ c.store.SameResults store := by
  unfold tryUpdate update
  split
  · exact ⟨c.store, rfl, rfl, rfl⟩
  · next h =>
      split at h
      · cases h
      · split at h
        · cases h
        · next found =>
            cases h
            exact ⟨_, rfl, hf _ _ found⟩

/-- Where no transaction is open, an operation closes the connection or changes nothing but the store; and
what it changes there are no results, unless it saves one. -/
theorem perform_leaves (hidle : c.transaction = none) (op : Operation) :
    (op = .close ∧ (c.perform op).2 = c.close) ∨
      ∃ store, (c.perform op).2 = { c with store } ∧
        ((∀ runId r, op ≠ .save runId r) → c.store.SameResults store) := by
  have hsame : ∃ store, c = { c with store } ∧
      ((∀ runId r, op ≠ .save runId r) → c.store.SameResults store) :=
    ⟨c.store, rfl, fun _ => ⟨rfl, rfl⟩⟩
  cases op with
  | createRun now id root =>
      refine .inr (Exists.imp (fun store h => ⟨h.1, fun _ => h.2⟩) (tryUpdate_leaves ?_))
      exact fun run store h => Store.sameResults_createRun h
  | finishRun now id status =>
      refine .inr (Exists.imp (fun store h => ⟨h.1, fun _ => h.2⟩) (tryUpdate_leaves ?_))
      exact fun run store h => Store.sameResults_finishRun h
  | save runId r =>
      refine .inr ?_
      rcases attemptSave_cases hidle runId r with ⟨-, h⟩ | ⟨e, h⟩ | ⟨hash, store, -, -, h⟩
      · exact ⟨c.store, congrArg Prod.snd h, fun hne => absurd rfl (hne runId r)⟩
      · exact ⟨c.store, congrArg Prod.snd h, fun hne => absurd rfl (hne runId r)⟩
      · exact ⟨store, congrArg Prod.snd h, fun hne => absurd rfl (hne runId r)⟩
  | logEvent runId eventType data duration =>
      refine .inr ?_
      unfold perform
      dsimp only
      split
      · exact hsame
      · next c' h =>
          unfold logEvent? at h
          split at h
          · cases h
          · obtain ⟨store, hstore, rfl⟩ := Option.map_eq_some_iff.1 h
            exact ⟨store, rfl, fun _ => Store.sameResults_logEvent? hstore⟩
  | migrate =>
      refine .inr ?_
      unfold perform migrate
      dsimp only
      split
      · exact hsame
      · exact ⟨_, rfl, fun _ => Store.sameResults_migrate c.store⟩
  | close => exact .inl ⟨rfl, rfl⟩
  | version => exact .inr hsame
  | findRun id => exact .inr hsame
  | listRuns limit => exact .inr hsame
  | findFile filePath hash => exact .inr hsame
  | findCached filePath hash => exact .inr hsame
  | listFindings query => exact .inr hsame
  | queryEvents eventType runId => exact .inr hsame

/-! ## No transaction is left open -/

theorem transaction_connect {s : Store} (h : Connection.connect s = .ok c) :
    c.transaction = none := by
  unfold Connection.connect at h
  split at h
  · cases h
    rfl
  · cases h

theorem transaction_perform (hidle : c.transaction = none) (op : Operation) :
    (c.perform op).2.transaction = none := by
  rcases perform_leaves hidle op with ⟨-, h⟩ | ⟨store, h, -⟩
  · rw [h]
    rfl
  · rw [h]
    exact hidle

theorem isOpen_perform (hidle : c.transaction = none) {op : Operation} (hop : op ≠ .close) :
    (c.perform op).2.isOpen = c.isOpen := by
  rcases perform_leaves hidle op with ⟨rfl, -⟩ | ⟨store, h, -⟩
  · exact absurd rfl hop
  · rw [h]

theorem Reachable.transaction_eq_none (h : c.Reachable) : c.transaction = none := by
  induction h with
  | connect h => exact transaction_connect h
  | perform op _ ih => exact transaction_perform ih op

/-! ## A refused result leaves no trace -/

theorem eq_of_attemptSave_eq_error (hidle : c.transaction = none) {runId : Option Text}
    {r : GivenResult} {e : StoreError} (h : c.attemptSave runId r = (.error e, c')) : c' = c := by
  rcases attemptSave_cases hidle runId r with ⟨-, h'⟩ | ⟨e', h'⟩ | ⟨hash, store, -, -, h'⟩
  · rw [h'] at h
    cases h
  · rw [h'] at h
    exact (congrArg Prod.snd h).symm
  · rw [h'] at h
    cases h

/-- If a result cannot be saved, for whatever reason and at whichever of its statements, then the files and
findings are those of before, no transaction is open, and all later operations are answered as if there
had been no attempt, and end at the same connection.  The attempt is refused for the reason for which the
first statement is that is refused; if none is, all of them are carried out. -/
theorem attemptSave_atomic (hc : c.Reachable) (runId : Option Text) (r : GivenResult) :
    (∀ e c', c.attemptSave runId r = (.error e, c') →
      c'.store.files = c.store.files ∧ c'.store.findings = c.store.findings ∧
        c'.transaction = none ∧ ∀ ops, c'.performAll ops = c.performAll ops) ∧
    ∀ hash, c.isOpen = true → r.contentHash = some hash →
      (∀ before refused after store e,
        saveStatements runId r hash = before ++ refused :: after →
        before.foldlM Statement.run c.store = .ok store → refused.run store = .error e →
        (c.attemptSave runId r).1 = .error e) ∧
      ∀ store, (saveStatements runId r hash).foldlM Statement.run c.store = .ok store →
        c.attemptSave runId r = (.ok (), { c with store }) := by
  have hidle := hc.transaction_eq_none
  refine ⟨fun e c' h => ?_, fun hash hopen hr => ⟨?_, fun store hfold => ?_⟩⟩
  · obtain rfl := eq_of_attemptSave_eq_error hidle h
    exact ⟨rfl, rfl, hidle, fun _ => rfl⟩
  · intro before refused after store e hstatements hbefore hrefused
    have hfold : (saveStatements runId r hash).foldlM Statement.run c.store = .error e := by
      rw [hstatements, List.foldlM_append, hbefore]
      exact (List.foldlM_cons ..).trans (congrArg (· >>= _) hrefused)
    rw [attemptSave_eq hopen hidle hr, hfold]
  · rw [attemptSave_eq hopen hidle hr, hfold]

/-! A file has been saved under one run, and is saved again under another.  Its findings are deleted, its row
is replaced and a finding is added before the second candidate is refused. -/

def candidateAt (startLine endLine : Int) : Candidate :=
  .fresh (Text.ofString "SELECT a FROM t") startLine endLine .literal .assigned

def resultWith (candidates : List Candidate) : ScanResult := ⟨"A.java", candidates, some "0", none⟩

def opened : Connection := ⟨Store.empty.migrate.1, true, none⟩

def twoRuns : List Operation :=
  [.createRun "" "first" (some "src"),
    .save (some (Text.ofString "first")) (resultWith [candidateAt 1 1]).given,
    .createRun "" "second" (some "src")]

def replacement : GivenResult := (resultWith [candidateAt 2 2, candidateAt 4 3]).given

/-- What was saved first is still there. -/
theorem attemptSave_atomic_secondCandidate :
    ∃ (c c' : Connection) (before : List Statement) (refused : Statement) (store : Store),
      c.Reachable ∧
      saveStatements (some (Text.ofString "second")) replacement (Text.ofString "0") =
        before ++ [refused] ∧
      before.foldlM Statement.run c.store = .ok store ∧
      store.files ≠ c.store.files ∧ store.findings ≠ c.store.findings ∧
      c.attemptSave (some (Text.ofString "second")) replacement = (.error .endBeforeStart, c') ∧
      c'.store.files = c.store.files ∧ c'.store.findings = c.store.findings ∧
      c'.transaction = none ∧ ∀ ops, c'.performAll ops = c.performAll ops := by
  let c := (opened.performAll twoRuns).2
  let path := Text.ofString "A.java"
  let hash := Text.ofString "0"
  let runId := Text.ofString "second"
  let before : List Statement :=
    [.deleteFindings path hash, .putFile path hash (some runId) none,
      .addFinding runId path hash 0 (candidateAt 2 2).given]
  let refused : Statement := .addFinding runId path hash 1 (candidateAt 4 3).given
  let store := (before.foldlM Statement.run c.store).toOption.getD c.store
  have hconnect : connect .empty = .ok opened := by decide +kernel
  have hc : c.Reachable := (Reachable.connect hconnect).performAll twoRuns
  have hbefore : before.foldlM Statement.run c.store = .ok store := by decide +kernel
  have hrefused : refused.run store = .error .endBeforeStart := by decide +kernel
  obtain ⟨hundone, hattempt⟩ := attemptSave_atomic hc (some runId) replacement
  have hfails : (c.attemptSave (some runId) replacement).1 = .error .endBeforeStart :=
    (hattempt hash (by decide +kernel) rfl).1 before refused [] store _ rfl hbefore hrefused
  have hends : c.attemptSave (some runId) replacement =
      (.error .endBeforeStart, (c.attemptSave (some runId) replacement).2) := by
    rw [← hfails]
  exact ⟨c, _, before, refused, store, hc, rfl, hbefore, by decide +kernel, by decide +kernel, hends,
    hundone _ _ hends⟩

end Connection

end EmbeddedSql
