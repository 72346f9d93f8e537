/-
# The counts of runs

A store is new, and is used and opened again any number of times.  The log tells the operations and how they
were answered, and from it follows what the store has to say of its runs.

| in the log                     | in the store                                              |
| :--                            | :--                                                       |
| creations that were answered   | the runs that there are (`Tells.runs`)                    |
| saves that were answered       | the rows of files and findings (`Tells.results`)          |

The counts of a run are taken from the rows when it is finished.  A result that is saved again under another
run counts for that one from then on, with all of its candidates.
-/
import EmbeddedSql.Proofs.Store.Deposits

namespace EmbeddedSql

open Deposit (standingUnder)

/-! ## The log -/

/-- Operations in their order, with what each was answered. -/
abbrev Log := List (Operation × Except StoreError Answer)

/-- The run that is there after an operation that creates one. -/
def Operation.started? : Operation → Except StoreError Answer → Option String
  | .createRun _ id _, .ok _ => some id
  | _, _ => none

/-- What an operation has saved.  A result without a digest is passed over. -/
def Operation.deposit? : Operation → Except StoreError Answer → Option Deposit
  | .save (some runId) r, .ok _ => r.contentHash.map fun hash => ⟨runId, hash, r⟩
  | _, _ => none

namespace Log

def started (log : Log) : List String := log.filterMap fun (op, answer) => op.started? answer

def deposits (log : Log) : List Deposit := log.filterMap fun (op, answer) => op.deposit? answer

theorem mem_started_concat {log : Log} {op : Operation} {answer : Except StoreError Answer}
    {id : String} : id ∈ started (log ++ [(op, answer)]) ↔
      id ∈ log.started ∨ op.started? answer = some id := by
  simp [started, List.filterMap_append]

theorem deposits_concat (log : Log) (op : Operation) (answer : Except StoreError Answer) :
    deposits (log ++ [(op, answer)]) = log.deposits ++ (op.deposit? answer).toList := by
  rw [deposits, List.filterMap_append]
  rfl

end Log

namespace Connection

/-- Connections to a store that was new once, with the log of all that was done since.  It may have been closed
and opened again. -/
inductive Lived : Connection → Log → Prop
  | connect {c : Connection} : connect .empty = .ok c → Lived c []
  | perform {c : Connection} {log : Log} (op : Operation) :
      Lived c log → Lived (c.perform op).2 (log ++ [(op, (c.perform op).1)])
  | reopen {c c' : Connection} {log : Log} :
      Lived c log → Connection.connect c.close.store = .ok c' → Lived c' log

end Connection

/-! ## Runs -/

namespace Store

variable {s s' : Store} {now id other : String}

theorem run?_createRun {root : Option String} {run : Run}
    (h : s.createRun now id root = .ok (run, s')) :
    (s'.run? other).isSome = true ↔ (s.run? other).isSome = true ∨ id = other := by
  unfold createRun at h
  split at h
  · next found hrun =>
      cases h
      refine ⟨.inl, fun hor => hor.elim (fun hsome => hsome) ?_⟩
      rintro rfl
      rw [hrun]
      rfl
  · cases h
  · cases h
    simp only [run?, List.find?_append, Option.isSome_or, Bool.or_eq_true]
    simp

/-- Changing the runs of one identity, but not the identity. -/
theorem run?_map (s : Store) (id other : String) (change : Run → Run)
    (hchange : ∀ run, (change run).id = run.id) :
    Store.run? { s with runs := s.runs.map fun run => if run.id == id then change run else run }
        other =
      (s.run? other).map fun run => if run.id == id then change run else run := by
  unfold run?
  rw [List.find?_map]
  congr 2
  funext run
  rw [Function.comp_apply]
  split
  · rw [hchange]
  · rfl

theorem id_of_run? {run : Run} (h : s.run? id = some run) : run.id = id := by
  have hid := List.find?_some (p := fun run : Run => run.id == id) h
  exact beq_iff_eq.1 hid

/-- Finishing a run that is there gives it the counts of the moment, and leaves the other runs alone. -/
theorem finishRun_of_some {run : Run} (hrun : s.run? id = some run) (now : String)
    (status : RunStatus) :
    let finished : Run := { s.countRun run with endedAt := some now, status }
    ∃ s', s.finishRun now id status = .ok (finished, s') ∧ s'.run? id = some finished ∧
      ∀ other, other ≠ id → s'.run? other = s.run? other := by
  intro finished
  -- The lookup after the change is the changed lookup, for this run as for any other.
  have hmap := fun other => run?_map s id other
    (fun run => { s.countRun run with endedAt := some now, status }) fun _ => rfl
  have hself := hmap id
  rw [hrun, Option.map_some, if_pos (beq_iff_eq.2 (id_of_run? hrun))] at hself
  refine ⟨_, ?_, hself, fun other hne => ?_⟩
  · unfold finishRun
    dsimp only
    rw [hself]
  · rw [hmap other]
    cases hother : s.run? other with
    | none => rfl
    | some found =>
        rw [Option.map_some, if_neg]
        rw [beq_iff_eq, id_of_run? hother]
        exact hne

theorem finishRun_of_none (hrun : s.run? id = none) (now : String) (status : RunStatus) :
    s.finishRun now id status = .error .noRun := by
  have hmap := run?_map s id id
    (fun run => { s.countRun run with endedAt := some now, status }) fun _ => rfl
  rw [hrun, Option.map_none] at hmap
  unfold finishRun
  dsimp only
  rw [hmap]

theorem run?_finishRun {run : Run} {status : RunStatus}
    (h : s.finishRun now id status = .ok (run, s')) :
    (s'.run? other).isSome = (s.run? other).isSome := by
  cases hrun : s.run? id with
  | none =>
      rw [finishRun_of_none hrun] at h
      cases h
  | some found =>
      obtain ⟨s'', hfinish, hself, hothers⟩ := finishRun_of_some hrun now status
      cases hfinish.symm.trans h
      by_cases hother : other = id
      · subst hother
        rw [hself, hrun]
        rfl
      · rw [hothers other hother]

theorem runs_save {runId : Option String} {r : ScanResult} (h : s.save runId r = .ok s') :
    s'.runs = s.runs := by
  unfold save at h
  split at h
  · cases h
    rfl
  · cases h
  · split at h
    · cases h
    · obtain ⟨added, -, h⟩ := ok_of_bind_eq_ok h
      cases h
      rfl

theorem runs_logEvent? {runId eventType : Option String} {data : Json} {duration : Option Int}
    (h : s.logEvent? runId eventType data duration = some s') : s'.runs = s.runs := by
  cases eventType with
  | none => cases h
  | some eventType =>
      unfold logEvent? at h
      generalize (if data.isVoid then Json.obj [] else data) = data at h
      dsimp only at h
      split at h
      · cases h
        rfl
      · cases h

end Store

namespace Connection

variable {c c' : Connection} {log : Log}

/-- What `tryUpdate` comes to. -/
theorem tryUpdate_cases {α : Type} (answer : α → Answer)
    (f : Store → Except StoreError (α × Store)) :
    (∃ e, c.tryUpdate answer f = (.error e, c)) ∨
      ∃ a store, c.isOpen = true ∧ f c.store = .ok (a, store) ∧
        c.tryUpdate answer f = (.ok (answer a), { c with store }) := by
  unfold tryUpdate update
  split
  · next e _ => exact .inl ⟨e, rfl⟩
  · next a c' h =>
      split at h
      · cases h
      · next hopen =>
          split at h
          · cases h
          · next found =>
              cases h
              exact .inr ⟨_, _, by simpa using hopen, found, rfl⟩

/-- The runs after an operation are those from before, and the one that it has created. -/
theorem run?_perform (hidle : c.transaction = none) (op : Operation) (id : String) :
    ((c.perform op).2.store.run? id).isSome = true ↔
      (c.store.run? id).isSome = true ∨ op.started? (c.perform op).1 = some id := by
  have hsame : ∀ {store : Store}, store.runs = c.store.runs →
      ((store.run? id).isSome = true ↔
        (c.store.run? id).isSome = true ∨ (none : Option String) = some id) := by
    intro store hruns
    rw [Store.run?, hruns, or_iff_left nofun]
    rfl
  cases op with
  | createRun now new root =>
      rcases c.tryUpdate_cases (fun run => .run (some run)) (·.createRun now new root) with
        ⟨e, h⟩ | ⟨run, store, -, hcreate, h⟩
      · rw [perform, h]
        exact hsame rfl
      · rw [perform, h]
        exact (Store.run?_createRun hcreate).trans
          (or_congr_right ⟨congrArg some, Option.some.inj⟩)
  | finishRun now finished status =>
      rcases c.tryUpdate_cases (fun run => .run (some run)) (·.finishRun now finished status) with
        ⟨e, h⟩ | ⟨run, store, -, hfinish, h⟩
      · rw [perform, h]
        exact hsame rfl
      · rw [perform, h]
        show (store.run? id).isSome = true ↔ _ ∨ (none : Option String) = some id
        rw [Store.run?_finishRun hfinish, or_iff_left nofun]
  | save runId r =>
      rcases attemptSave_cases hidle runId r with
        ⟨-, h⟩ | ⟨e, h⟩ | ⟨hash, store, hhash, hfold, h⟩
      · rw [perform, h]
        exact hsame rfl
      · rw [perform, h]
        exact hsame rfl
      · obtain ⟨id', digest, result, -, -, -, -, hsaved⟩ := of_foldlM_saveStatements hhash hfold
        rw [perform, h]
        exact hsame (Store.runs_save hsaved)
  | logEvent runId eventType data duration =>
      show ((c.perform _).2.store.run? id).isSome = true ↔ _ ∨ (none : Option String) = some id
      unfold perform
      dsimp only
      split
      · exact hsame rfl
      · next c' h =>
          unfold logEvent? at h
          split at h
          · cases h
          · obtain ⟨store, hstore, rfl⟩ := Option.map_eq_some_iff.1 h
            exact hsame (Store.runs_logEvent? hstore)
  | migrate =>
      show ((c.perform _).2.store.run? id).isSome = true ↔ _ ∨ (none : Option String) = some id
      unfold perform migrate
      dsimp only
      split
      · exact hsame rfl
      · exact hsame rfl
  | close =>
      show ((c.close.store).run? id).isSome = true ↔ _ ∨ (none : Option String) = some id
      rw [close, hidle]
      exact hsame rfl
  | _ => exact hsame rfl

/-! ## Results -/

theorem deposit?_eq_none {op : Operation} (hop : ∀ runId r, op ≠ .save runId r)
    (answer : Except StoreError Answer) : op.deposit? answer = none := by
  cases op with
  | save runId r => exact absurd rfl (hop runId r)
  | _ => rfl

theorem deposit?_error (op : Operation) (e : StoreError) : op.deposit? (.error e) = none := by
  cases op with
  | save runId r => cases runId <;> rfl
  | _ => rfl

/-- What the store holds after an operation is what it held before, and what has been saved. -/
theorem holds_perform (hidle : c.transaction = none) {deposits : List Deposit}
    (h : c.store.Holds deposits) (op : Operation) :
    (c.perform op).2.store.Holds (deposits ++ (op.deposit? (c.perform op).1).toList) := by
  -- Only saving a result changes the tables of results.
  by_cases hop : ∃ runId r, op = .save runId r
  · obtain ⟨runId, r, rfl⟩ := hop
    rcases attemptSave_cases hidle runId r with
      ⟨hnone, hsave⟩ | ⟨e, hsave⟩ | ⟨hash, store, hhash, hfold, hsave⟩
    · have hpassed : ∀ answer, (Operation.save runId r).deposit? answer = none := by
        rintro (e | answer) <;> cases runId <;> simp [Operation.deposit?, hnone]
      rw [hpassed, perform, hsave]
      simpa using h
    · rw [perform, hsave]
      dsimp only [Except.map]
      rw [deposit?_error]
      simpa using h
    · obtain ⟨id, digest, result, rfl, rfl, rfl, hdigest, hsaved⟩ :=
        of_foldlM_saveStatements hhash hfold
      have hstore := h.save hdigest hsaved
      rw [perform, hsave]
      simpa [Operation.deposit?, hhash, Except.map] using hstore
  · have hnot : ∀ runId r, op ≠ .save runId r := fun runId r heq => hop ⟨runId, r, heq⟩
    rw [deposit?_eq_none hnot]
    simp only [Option.toList_none, List.append_nil]
    rcases perform_leaves hidle op with ⟨-, hleaves⟩ | ⟨store, hleaves, hsame⟩
    · rw [hleaves, close, hidle]
      exact h
    · rw [hleaves]
      exact h.sameResults (hsame hnot)

/-! ## The whole log -/

/-- What the log tells of the store. -/
structure Tells (log : Log) (s : Store) : Prop where
  runs : ∀ id, (s.run? id).isSome = true ↔ id ∈ log.started
  results : s.Holds log.deposits

theorem runs_connect {s : Store} (h : connect s = .ok c) : c.store.runs = s.runs := by
  have hmigrate : s.migrate.1.runs = s.runs := rfl
  unfold connect at h
  split at h
  · next heq =>
      cases h
      rw [heq] at hmigrate
      exact hmigrate
  · cases h

theorem tells_connect {s : Store} (h : Tells log s) (hconnect : connect s = .ok c) :
    Tells log c.store := by
  refine ⟨fun id => ?_, h.results.sameResults (of_connect hconnect).2⟩
  rw [Store.run?, runs_connect hconnect]
  exact h.runs id

theorem Lived.reachable (h : c.Lived log) : c.Reachable := by
  induction h with
  | connect h => exact .connect h
  | perform op _ ih => exact .perform op ih
  | reopen _ h _ => exact .connect h

theorem Lived.performAll (h : c.Lived log) (ops : List Operation) :
    (c.performAll ops).2.Lived (log ++ ops.zip (c.performAll ops).1) := by
  induction ops generalizing c log with
  | nil => simpa [Connection.performAll] using h
  | cons op ops ih =>
      have hrest := ih (h.perform op)
      rwa [List.append_assoc] at hrest

theorem Lived.tells (h : c.Lived log) : Tells log c.store := by
  induction h with
  | connect h =>
      refine tells_connect ⟨fun id => ?_, rfl, rfl⟩ h
      exact iff_of_false nofun (List.not_mem_nil)
  | perform op hlived ih =>
      have hidle := hlived.reachable.transaction_eq_none
      refine ⟨fun id => ?_, ?_⟩
      · rw [run?_perform hidle, ih.runs, Log.mem_started_concat]
      · rw [Log.deposits_concat]
        exact holds_perform hidle ih.results op
  | reopen hlived h ih =>
      have hidle := hlived.reachable.transaction_eq_none
      rw [close, hidle] at h
      exact tells_connect ih h

/-! ## Finishing -/

/-- In a store that was new once, finishing a run succeeds if it was created, and then gives it the counts of
the results that were saved under it and not replaced since: one file for each path and content, those with an
error, and all of their candidates.  Each finding stands with the row of its file under the same run, and the
findings of a file are numbered from zero on without gaps, as many as the result that was saved last has
candidates. -/
theorem finishRun_counts (h : c.Lived log) :
    (∀ now id status, c.isOpen = true →
      (id ∈ log.started → ∃ run c',
        c.perform (.finishRun now id status) = (.ok (.run (some run)), c') ∧
        c'.store.run? id = some run ∧ run.status = status ∧
        run.fileCount = (standingUnder id log.deposits).length ∧
        run.errorCount = (standingUnder id log.deposits).countP (·.result.error.isSome) ∧
        run.findingCount =
          ((standingUnder id log.deposits).map (·.result.candidates.length)).sum ∧
        ∀ other, other ≠ id → c'.store.run? other = c.store.run? other) ∧
      (id ∉ log.started → c.perform (.finishRun now id status) = (.error .noRun, c))) ∧
    (∀ f ∈ c.store.findings, ∃ file ∈ c.store.files, file.filePath = f.filePath ∧
      file.contentHash = f.contentHash ∧ file.runId = f.runId) ∧
    ∀ filePath hash,
      (c.store.findings.filter fun f => f.filePath = filePath ∧ f.contentHash = hash).map
          (·.ordinal) =
        List.range ((Deposit.standingFor? (Text.ofString filePath, Text.ofString hash)
          log.deposits).elim 0 (·.result.candidates.length)) := by
  have htells := h.tells
  refine ⟨fun now id status hopen => ⟨fun hstarted => ?_, fun hnot => ?_⟩,
    fun f hf => htells.results.exists_file hf, htells.results.ordinals⟩
  · obtain ⟨run, hrun⟩ := Option.isSome_iff_exists.1 ((htells.runs id).2 hstarted)
    obtain ⟨store, hfinish, hself, hothers⟩ := Store.finishRun_of_some hrun now status
    obtain ⟨hfiles, herrors, hfindings⟩ := htells.results.countRun run
    rw [Store.id_of_run? hrun] at hfiles herrors hfindings
    refine ⟨_, { c with store }, ?_, hself, rfl, hfiles, herrors, hfindings, hothers⟩
    rw [perform, tryUpdate, update, hopen]
    dsimp only
    rw [hfinish]
    rfl
  · have hnone : c.store.run? id = none := by
      rw [← Option.not_isSome_iff_eq_none, htells.runs id]
      exact hnot
    rw [perform, tryUpdate, update, hopen]
    rw [Store.finishRun_of_none hnone]
    rfl

/-- Of the two runs that save one file after the other, only the second one counts it, with the one candidate
that it saved, and another file that has an error. -/
theorem finishRun_counts_savedTwice :
    ∃ (c : Connection) (log : Log), c.Lived log ∧ c.isOpen = true ∧
      ("first" ∈ log.started ∧ ∃ run c',
        c.perform (.finishRun "" "first" .done) = (.ok (.run (some run)), c') ∧
        run.fileCount = 0 ∧ run.errorCount = 0 ∧ run.findingCount = 0) ∧
      "second" ∈ log.started ∧ ∃ run c',
        c.perform (.finishRun "" "second" .done) = (.ok (.run (some run)), c') ∧
        run.fileCount = 2 ∧ run.errorCount = 1 ∧ run.findingCount = 1 := by
  have hconnect : connect .empty = .ok opened := by decide +kernel
  let log : Log := savedTwice.zip (opened.performAll savedTwice).1
  let c := (opened.performAll savedTwice).2
  have hlived : c.Lived log := (Lived.connect hconnect).performAll savedTwice
  have hopen : c.isOpen = true := by decide +kernel
  have hfirst : "first" ∈ log.started := by decide +kernel
  have hsecond : "second" ∈ log.started := by decide +kernel
  have hstanding : (standingUnder "first" log.deposits = [] ∧
      (standingUnder "second" log.deposits).map (fun d => d.result.candidates.length) = [1, 0] ∧
      (standingUnder "second" log.deposits).countP (fun d => d.result.error.isSome) = 1) := by
    decide +kernel
  obtain ⟨hnone, hlengths, herror⟩ := hstanding
  have hlength := congrArg List.length hlengths
  rw [List.length_map] at hlength
  obtain ⟨hfinish, -⟩ := finishRun_counts hlived
  obtain ⟨run, c', hperform, -, -, hfiles, herrors, hfindings, -⟩ :=
    (hfinish "" "first" .done hopen).1 hfirst
  obtain ⟨run', c'', hperform', -, -, hfiles', herrors', hfindings', -⟩ :=
    (hfinish "" "second" .done hopen).1 hsecond
  rw [hnone] at hfiles herrors hfindings
  rw [hlength] at hfiles'
  rw [herror] at herrors'
  rw [hlengths] at hfindings'
  exact ⟨c, log, hlived, hopen, ⟨hfirst, run, c', hperform, hfiles, herrors, hfindings⟩,
    hsecond, run', c'', hperform', hfiles', herrors', hfindings'⟩

end Connection

end EmbeddedSql
