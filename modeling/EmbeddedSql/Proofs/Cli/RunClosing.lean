/-
# Which runs are closed

A scan command with a store begins a run, does its work and then closes the run.  The work can fail in three
places: the journal cannot be opened, the files cannot be scanned, or a result cannot be saved.  What becomes
of the run then is told in two records of it.

| work | event of the run | run in the store |
| :-- | :-- | :-- |
| comes to its end | `success`, with the counts | closed: `done` or `error` |
| fails | `error`, with the reason | as it was begun |
| fails for the journal | none | as it was begun |

With a journal the event is recorded in either case (`scanAndRecord`), but the run is closed only where the work comes to
its end.  Nothing in between touches the runs of the store (`Journal.HasRuns`), so a run whose work has
failed stays as it was begun: under way, with no end and nothing counted, although results may have been
saved under it.
-/
import EmbeddedSql.Proofs.Cli.RunCounts
import EmbeddedSql.Proofs.Store.ScanRoundTrip

namespace EmbeddedSql

/-! ## What can be saved -/

/-- A candidate that the store takes. -/
structure Candidate.IsWritable (c : Candidate) : Prop where
  startLine : isWord64 c.startLine = true
  endLine : isWord64 c.endLine = true
  ordered : c.startLine ≤ c.endLine
  encodable : ∀ o, CodePoint.surrogate o ∉ c.text

namespace Store

variable {s s' : Store} {runId filePath hash : String} {ordinal : Nat} {c : Candidate}
  {cs : List Candidate}

theorem findingOf_isOk_iff :
    (∃ f, findingOf runId filePath hash ordinal c = .ok f) ↔ c.IsWritable := by
  rw [findingOf]
  constructor
  · rintro ⟨f, hf⟩
    split at hf
    · cases hf
    · next hlines =>
        split at hf
        · cases hf
        · next text htext =>
            split at hf
            · cases hf
            · next horder =>
                simp only [Bool.or_eq_true, Bool.not_eq_true', not_or, Bool.not_eq_false] at hlines
                refine ⟨hlines.1, hlines.2, Int.not_lt.1 horder, fun o ho => ?_⟩
                rw [Text.toString?_eq_none ho] at htext
                cases htext
  · rintro ⟨hstart, hend, horder, hencodable⟩
    obtain ⟨text, htext⟩ := Text.exists_toString? hencodable
    have hlines : ¬ (!isWord64 c.startLine || !isWord64 c.endLine) = true := by
      rw [hstart, hend]
      exact Bool.false_ne_true
    rw [if_neg hlines, htext]
    exact ⟨_, if_neg (Int.not_lt.2 horder)⟩

theorem findingsOf_isOk_iff :
    (∃ fs, findingsOf runId filePath hash ordinal cs = .ok fs) ↔ ∀ c ∈ cs, c.IsWritable := by
  induction cs generalizing ordinal with
  | nil =>
      constructor
      · intro _ c hc
        cases hc
      · exact fun _ => ⟨[], rfl⟩
  | cons c cs ih =>
      rw [List.forall_mem_cons, findingsOf]
      constructor
      · rintro ⟨fs, hfs⟩
        obtain ⟨f, hf, hrest⟩ := ok_of_bind_eq_ok hfs
        obtain ⟨fs', hfs', -⟩ := ok_of_bind_eq_ok hrest
        exact ⟨findingOf_isOk_iff.1 ⟨f, hf⟩, ih.1 ⟨fs', hfs'⟩⟩
      · rintro ⟨hc, hcs⟩
        obtain ⟨f, hf⟩ := findingOf_isOk_iff.2 hc
        obtain ⟨fs, hfs⟩ := ih.2 hcs
        refine ⟨f :: fs, ?_⟩
        rw [hf]
        show (findingsOf runId filePath hash (ordinal + 1) cs >>= _) = _
        rw [hfs]
        rfl

/-- Under a run that is there, a result is saved if the store takes all of its candidates. -/
theorem save_isOk_iff {r : ScanResult} (hrun : (s.run? runId).isSome) :
    (∃ s', s.save (some runId) r = .ok s') ↔
      (r.contentHash ≠ none → ∀ c ∈ r.candidates, c.IsWritable) := by
  cases hr : r.contentHash with
  | none =>
      constructor
      · exact fun _ hne => absurd rfl hne
      · intro _
        refine ⟨s, ?_⟩
        rw [save.eq_def, hr]
  | some hash =>
      obtain ⟨store, hstore⟩ := save_eq_map hr hrun
      rw [hstore]
      constructor
      · rintro ⟨s', hs'⟩ -
        obtain ⟨fs, hfs, -⟩ := ok_of_map_eq_ok hs'
        exact findingsOf_isOk_iff.1 ⟨fs, hfs⟩
      · intro hwritable
        obtain ⟨fs, hfs⟩ := findingsOf_isOk_iff.2 (hwritable (Option.some_ne_none hash))
        exact ⟨store fs, by rw [hfs]; rfl⟩

end Store

/-! ## Nothing touches the runs -/

theorem Journal.getLast?_record (j : Journal) (now : String) (e : Occurrence) :
    (j.record now e).lines.getLast? = some (e.toJson now).toLine := by
  rw [lines_record, List.getLast?_concat]

/-- A journal with a store that is open, outside of any transaction, and has these runs. -/
def Journal.HasRuns (j : Journal) (runs : List Run) : Prop :=
  ∃ c, j.connection = some c ∧ c.isOpen = true ∧ c.transaction = none ∧ c.store.runs = runs

variable {runs : List Run} {j j' : Journal} {now runId : String}

theorem Journal.HasRuns.record (h : j.HasRuns runs) (now : String) (e : Occurrence) :
    (j.record now e).HasRuns runs := by
  obtain ⟨c, hc, hopen, hidle, hruns⟩ := h
  unfold Journal.record
  rw [hc]
  dsimp only
  unfold Connection.logEvent?
  rw [hopen]
  split
  · next c' hlog =>
      obtain ⟨store, hstore, rfl⟩ := Option.map_eq_some_iff.1 hlog
      exact ⟨_, rfl, rfl, hidle, (Store.runs_logEvent? hstore).trans hruns⟩
  · exact ⟨c, rfl, hopen, hidle, hruns⟩

/-- Recording results leaves the runs alone, and comes to its end where all of the results can be
saved. -/
theorem recordResults_hasRuns {results : List ScanResult} {o : Except StoreError Unit}
    (h : j.HasRuns runs) (hrun : (runs.find? (·.id == runId)).isSome)
    (hrecord : recordResults now (some runId) j results = (j', o)) :
    j'.HasRuns runs ∧
      (o = .ok () ↔ ∀ r ∈ results, r.contentHash ≠ none → ∀ c ∈ r.candidates, c.IsWritable) := by
  induction results generalizing j with
  | nil =>
      cases hrecord
      refine ⟨h, fun _ r hr => ?_, fun _ => rfl⟩
      cases hr
  | cons r results ih =>
      obtain ⟨c, hc, hopen, hidle, hruns⟩ := h.record now (.ofResult (some runId) r)
      have hthere : (c.store.run? runId).isSome := by
        rw [Store.run?, hruns]
        exact hrun
      have hsave := Store.save_isOk_iff hthere (r := r)
      rw [recordResults, hc] at hrecord
      dsimp only at hrecord
      rw [Connection.save_eq hopen hidle] at hrecord
      rw [List.forall_mem_cons]
      cases hsaved : c.store.save (some runId) r with
      | error e =>
          -- the transaction has been rolled back, so the store is the one that the event left
          rw [hsaved] at hrecord
          cases hrecord
          refine ⟨⟨c, hc, hopen, hidle, hruns⟩, ?_, ?_⟩
          · rintro ⟨⟩
          · rintro ⟨hr, -⟩
            obtain ⟨s', hs'⟩ := hsave.2 hr
            cases hsaved.symm.trans hs'
      | ok store =>
          rw [hsaved] at hrecord
          have hstart : Journal.HasRuns { j.record now (.ofResult (some runId) r) with
              connection := some { c with store } } runs :=
            ⟨_, rfl, hopen, hidle, (Store.runs_save hsaved).trans hruns⟩
          obtain ⟨hkeeps, hiff⟩ := ih hstart hrecord
          refine ⟨hkeeps, fun hok => ⟨hsave.1 ⟨store, hsaved⟩, hiff.1 hok⟩, ?_⟩
          exact fun hall => hiff.2 hall.2

/-- What has to be so for the work of a run to come to its end. -/
def WorkEnds (opening : Except JournalError Unit) (settings : Settings) (workers : Workers)
    (cache : Option ResultCache) (disk : Disk) (files : List String) : Prop :=
  opening = .ok () ∧ ∃ out, scanFiles settings workers cache disk files = .ok out ∧
    ∀ r ∈ out.1, r.contentHash ≠ none → ∀ c ∈ r.candidates, c.IsWritable

/-- How a run that fails is recorded: its event tells the reason, or the reason is that the journal cannot be
opened. -/
def IsRecorded (opening : Except JournalError Unit) (runId now : String) (fault : Fault)
    (before lines : List String) : Prop :=
  opening = .ok () ∧
      lines.getLast? = some ((runEvent (some runId) [] (some fault.message)).toJson now).toLine ∨
    ∃ e, opening = .error e ∧ fault = .journal e ∧ lines = before

/-- The work of a run leaves the runs alone too, and its failure is recorded. -/
theorem scanAndRecord_hasRuns {settings : Settings} {workers : Workers} {disk : Disk}
    {opening : Except JournalError Unit} {cache : Option ResultCache} {cacheHits : Nat}
    {files : List String} {o : Except Fault ScanReport} (h : j.HasRuns runs)
    (hrun : (runs.find? (·.id == runId)).isSome)
    (hwork : scanAndRecord settings workers now disk opening (some runId) cache cacheHits files j =
      (j', o)) :
    j'.HasRuns runs ∧
      ((∃ report, o = .ok report) ↔ WorkEnds opening settings workers cache disk files) ∧
      ∀ fault, o = .error fault → IsRecorded opening runId now fault j.lines j'.lines := by
  have hout := workedOut_scanAndRecord settings workers now disk opening (some runId) cache cacheHits files j
  rw [hwork] at hout
  cases hout with
  | @unopened e hopening =>
      refine ⟨h, ⟨?_, ?_⟩, ?_⟩
      · rintro ⟨report, ⟨⟩⟩
      · rintro ⟨hopened, -⟩
        cases hopening.symm.trans hopened
      · rintro fault ⟨⟩
        exact .inr ⟨e, hopening, rfl, rfl⟩
  | unscanned hopening hscan =>
      refine ⟨h.record now _, ⟨?_, ?_⟩, ?_⟩
      · rintro ⟨report, ⟨⟩⟩
      · rintro ⟨-, out, hout, -⟩
        cases hscan.symm.trans hout
      · rintro fault ⟨⟩
        exact .inl ⟨hopening, j.getLast?_record now _⟩
  | @unsaved results _ j₁ e hopening hscan hrecord =>
      obtain ⟨hkeeps, hiff⟩ := recordResults_hasRuns h hrun hrecord
      refine ⟨hkeeps.record now _, ⟨?_, ?_⟩, ?_⟩
      · rintro ⟨report, ⟨⟩⟩
      · rintro ⟨-, out, hout, hwritable⟩
        cases hscan.symm.trans hout
        cases hiff.2 hwritable
      · rintro fault ⟨⟩
        exact .inl ⟨hopening, j₁.getLast?_record now _⟩
  | @reported results cache' j₁ hopening hscan hrecord =>
      obtain ⟨hkeeps, hiff⟩ := recordResults_hasRuns h hrun hrecord
      refine ⟨hkeeps.record now _, ⟨?_, ?_⟩, ?_⟩
      · exact fun _ => ⟨hopening, (results, cache'), hscan, hiff.1 rfl⟩
      · exact fun _ => ⟨_, rfl⟩
      · rintro fault ⟨⟩

/-! ## The run -/

/-- A run as it is begun. -/
def begunRun (occasion : Occasion) (paths : List Path) : Run :=
  ⟨occasion.freshId, rootText paths, occasion.now, none, .running, 0, 0, 0⟩

/-- The store with one more run. -/
def Store.begin (s : Store) (run : Run) : Store := { s with runs := s.runs ++ [run] }

theorem Store.run?_begin {s : Store} {run : Run} (hfresh : s.run? run.id = none) :
    (s.begin run).run? run.id = some run := by
  have hnone : s.runs.find? (·.id == run.id) = none := hfresh
  show (s.runs ++ [run]).find? (·.id == run.id) = some run
  rw [List.find?_append, hnone, Option.none_or, List.find?_singleton, beq_self_eq_true, if_pos rfl]

theorem Connection.update_eq {α : Type} {c : Connection} (hopen : c.isOpen = true)
    (f : Store → Except StoreError (α × Store)) :
    c.update f = (f c.store).map fun out => (out.1, { c with store := out.2 }) := by
  unfold update
  rw [hopen]
  cases f c.store <;> rfl

/-- A new run is begun in the store of an open connection. -/
theorem createRun_update {c : Connection} {occasion : Occasion} (hopen : c.isOpen = true)
    (hfresh : c.store.run? occasion.freshId = none) (paths : List Path) :
    c.update (·.createRun occasion.now occasion.freshId (some (rootText paths))) =
      .ok (begunRun occasion paths, { c with store := c.store.begin (begunRun occasion paths) }) := by
  have hcreate : c.store.createRun occasion.now occasion.freshId (some (rootText paths)) =
      .ok (begunRun occasion paths, c.store.begin (begunRun occasion paths)) := by
    unfold Store.createRun
    rw [hfresh]
    rfl
  rw [Connection.update_eq hopen, hcreate]
  rfl

/-- A run that is there is closed with a status. -/
theorem finishRun_update {c : Connection} {id : String} {run : Run} (hopen : c.isOpen = true)
    (hrun : c.store.run? id = some run) (now : String) (status : RunStatus) :
    ∃ closed c', c.update (·.finishRun now id status) = .ok (closed, c') ∧
      c'.store.run? id = some closed ∧ closed.endedAt = some now ∧ closed.status = status := by
  obtain ⟨store, hfinish, hself, -⟩ := Store.finishRun_of_some hrun now status
  refine ⟨_, { c with store }, ?_, hself, rfl, rfl⟩
  rw [Connection.update_eq hopen, hfinish]
  rfl

/-- The run of a command is closed with the status of its report where its work comes to its end, and
otherwise stays as it was begun. -/
theorem scanWithStore_closes {config : Config} {settings : Settings} {workers : Workers}
    {occasion : Occasion} {disk : Disk} {paths : List Path} {files : List String} {c : Connection}
    {o : Except Fault ScanReport} (hopen : c.isOpen = true) (hidle : c.transaction = none)
    (hfresh : c.store.run? occasion.freshId = none)
    (h : scanWithStore config settings workers occasion disk paths files c = (j, o)) :
    ∃ c' run, j.connection = some c' ∧ c'.store.run? occasion.freshId = some run ∧
      ((∃ report, o = .ok report) ↔ WorkEnds (openJournal config occasion.day disk) settings workers
        (seededCache config disk c.store files) disk files) ∧
      (∀ fault, o = .error fault → run = begunRun occasion paths ∧
        IsRecorded (openJournal config occasion.day disk) occasion.freshId occasion.now fault [] j.lines) ∧
      ∀ report, o = .ok report → run.endedAt = some occasion.now ∧ run.status = report.status := by
  have hbegun : (c.store.begin (begunRun occasion paths)).run? occasion.freshId =
      some (begunRun occasion paths) := Store.run?_begin hfresh
  -- the cache is filled after the run has begun, from tables that this does not touch
  have hcache : (if config.useCache = true then
      some (if config.useCache = true then
        seedCache disk (c.store.begin (begunRun occasion paths)) files
        else (ResultCache.empty, 0)).1 else none) = seededCache config disk c.store files := by
    unfold seededCache
    split <;> rfl
  unfold scanWithStore at h
  rw [createRun_update hopen hfresh] at h
  dsimp only at h
  rw [hcache] at h
  generalize hwork : scanAndRecord _ _ _ _ _ _ _ _ _ _ = worked at h
  obtain ⟨j₁, o₁⟩ := worked
  have hstart : Journal.HasRuns
      ⟨[], some { c with store := c.store.begin (begunRun occasion paths) }, []⟩
      (c.store.begin (begunRun occasion paths)).runs := ⟨_, rfl, hopen, hidle, rfl⟩
  have hthere : ((c.store.begin (begunRun occasion paths)).runs.find?
      (·.id == (begunRun occasion paths).id)).isSome := Option.isSome_of_eq_some hbegun
  obtain ⟨⟨c₂, hc₂, hopen₂, -, hruns⟩, hends, hfailed⟩ := scanAndRecord_hasRuns hstart hthere hwork
  have hrun₂ : c₂.store.run? occasion.freshId = some (begunRun occasion paths) := by
    rw [← hbegun, Store.run?, Store.run?, hruns]
  cases o₁ with
  | error fault =>
      cases h
      refine ⟨c₂, _, hc₂, hrun₂, hends, ?_, ?_⟩
      · intro fault' heq
        exact ⟨rfl, hfailed fault' heq⟩
      · rintro report ⟨⟩
  | ok report =>
      dsimp only at h
      rw [hc₂] at h
      dsimp only at h
      obtain ⟨closed, c₃, hfinish, hclosed, hended, hstatus⟩ :=
        finishRun_update hopen₂ hrun₂ occasion.now report.status
      have hid : (begunRun occasion paths).id = occasion.freshId := rfl
      rw [hid, hfinish] at h
      cases h
      refine ⟨c₃, closed, rfl, hclosed, hends, ?_, ?_⟩
      · rintro fault ⟨⟩
      · rintro report' ⟨⟩
        exact ⟨hended, hstatus⟩

/-! ## The command -/

/-- What is opened is the store on disk, or a new one if there is none. -/
theorem Config.connect_storeOf {config : Config} {disk : Disk} {c : Connection}
    (h : openStore disk config.storePath = .ok c) :
    Connection.connect (config.storeOf disk) = .ok c := by
  unfold openStore at h
  unfold storeOf
  split at h
  · next s hs =>
      rw [hs]
      exact h
  · next hs =>
      rw [hs]
      exact h
  · next hs =>
      rw [hs]
      exact h
  · next hs =>
      rw [hs]
      exact h
  · cases h
  · cases h
  · cases h

/-- A run is closed as done where no result has an error, and as failed where one has. -/
theorem ScanReport.status_cases (report : ScanReport) :
    (report.status = .done ∧ ∀ r ∈ report.results, r.isOk = true) ∨
      (report.status = .error ∧ ∃ r ∈ report.results, r.isOk = false) := by
  unfold status errorCount
  split
  · next hnone =>
      refine .inl ⟨rfl, fun r hr => ?_⟩
      simpa using List.countP_eq_zero.1 hnone r hr
  · next hsome =>
      obtain ⟨r, hr, herror⟩ := List.countP_pos_iff.1 (Nat.pos_of_ne_zero hsome)
      exact .inr ⟨rfl, r, hr, by simpa using herror⟩

/-- A scan command that begins a run in a store, with any files, rules and earlier runs, leaves the run
closed if and only if it ends without a fault; and that is if and only if the journal can be opened, the
files can be scanned and the store takes all that was found.  A run that is closed has the status of the
results.  After a fault the run is as it was begun, while the last line of the journal tells that it has
failed, unless it has failed because there is no journal. -/
theorem Invocation.run_closed_iff {config : Config} {v : Invocation} {w : Workload} {c : Connection}
    (hbase : ".." ∉ config.baseDir.names) (hw : v.workload? config = some w)
    (hdb : v.request.useStore = true) (hstore : openStore w.disk config.storePath = .ok c)
    (hfresh : (config.storeOf v.disk).run? v.occasion.freshId = none) :
    ∃ run, (config.storeOf (v.outcome config).disk).run? v.occasion.freshId = some run ∧
      (run.status ≠ .running ↔ (v.outcome config).fault = none) ∧
      ((v.outcome config).fault = none ↔
        WorkEnds (openJournal config v.occasion.day w.disk) (config.settings w.rules) (v.workers config)
          (seededCache config w.disk (config.storeOf v.disk) w.files) w.disk w.files) ∧
      ((v.outcome config).fault = none → run.endedAt = some v.occasion.now ∧
        ∃ report : ScanReport, (v.outcome config).printed = printReport v.request report ∧
          (run.status = .done ∧ (∀ r ∈ report.results, r.isOk = true) ∨
            run.status = .error ∧ ∃ r ∈ report.results, r.isOk = false)) ∧
      ∀ fault, (v.outcome config).fault = some fault →
        run = begunRun v.occasion v.request.paths ∧
        IsRecorded (openJournal config v.occasion.day w.disk) v.occasion.freshId v.occasion.now fault []
          (v.outcome config).journal := by
  obtain ⟨hdirs, houtcome⟩ := outcome_of_workload?_eq_some hw
  -- what is opened has the runs and the results that were there before the command
  have hconnect := Config.connect_storeOf hstore
  rw [Config.storeOf_ensureDirectories hbase hdirs] at hconnect
  obtain ⟨hopen, hsame⟩ := Connection.of_connect hconnect
  have hfresh' : c.store.run? v.occasion.freshId = none := by
    rw [Store.run?, Connection.runs_connect hconnect]
    exact hfresh
  cases hrun : scanWithStore config (config.settings w.rules) (v.workers config) v.occasion w.disk
      v.request.paths w.files c with
  | mk j o =>
      obtain ⟨c', run, hc', hleft, hends, hfailed, hclosed⟩ :=
        scanWithStore_closes hopen (Connection.transaction_connect hconnect) hfresh' hrun
      rw [houtcome, if_pos hdb, hstore]
      dsimp only
      rw [hrun]
      have hwritten : (config.storeOf (writeBack config v.occasion j w.disk)).run?
          v.occasion.freshId = some run := by
        rw [Config.storeOf_writeBack_some hbase hdirs hstore v.occasion hc', hleft]
      rw [seededCache_congr config hsame.cached?_eq] at hends
      refine ⟨run, ?_⟩
      cases o with
      | error fault =>
          obtain ⟨hbegun, hlast⟩ := hfailed fault rfl
          have hrunning : run.status = .running := by
            rw [hbegun]
            rfl
          refine ⟨hwritten, ?_, ?_, ?_, ?_⟩
          · constructor
            · exact fun hne => absurd hrunning hne
            · rintro ⟨⟩
          · constructor
            · rintro ⟨⟩
            · intro hwork
              obtain ⟨report, hreport⟩ := hends.2 hwork
              cases hreport
          · rintro ⟨⟩
          · rintro fault' ⟨⟩
            exact ⟨hbegun, hlast⟩
      | ok report =>
          obtain ⟨hended, hstatus⟩ := hclosed report rfl
          have hcases := report.status_cases
          rw [← hstatus] at hcases
          refine ⟨hwritten, ?_, ?_, ?_, ?_⟩
          · refine ⟨fun _ => rfl, fun _ hrunning => ?_⟩
            rcases hcases with ⟨hdone, -⟩ | ⟨herror, -⟩
            · cases hrunning.symm.trans hdone
            · cases hrunning.symm.trans herror
          · exact ⟨fun _ => hends.1 ⟨report, rfl⟩, fun _ => rfl⟩
          · exact fun _ => ⟨hended, report, rfl, hcases⟩
          · rintro fault ⟨⟩

/-! ## A run that is not closed

The first file has an error, and its result is saved.  The second holds a statement that cannot be written
down. -/

def unwritableFiles : Disk :=
  .directory (.cons "A.java" (.file (bytesOfText "class A \x7b String s = \"SELECT 1; \x7d"))
    (.cons "B.java" (.file (bytesOfText
      "class B \x7b String s = \"SELECT '\\ud83d\\ude00' FROM t\"; \x7d")) .nil))

def unwritableScan : Invocation where
  request := { scanOfFile none with paths := [⟨0, ["A.java"]⟩, ⟨0, ["B.java"]⟩] }
  occasion := ⟨"2026-01-01 00:00:00", "2026-01-01", "first"⟩
  workerFault := none
  disk := unwritableFiles

theorem Invocation.run_closed_iff_unwritable :
    ∃ fault run, (unwritableScan.outcome localConfig).fault = some fault ∧
      (localConfig.storeOf (unwritableScan.outcome localConfig).disk).run? "first" = some run ∧
      run = ⟨"first", "A.java, B.java", "2026-01-01 00:00:00", none, .running, 0, 0, 0⟩ ∧
      (unwritableScan.outcome localConfig).journal.getLast? = some
        ((runEvent (some "first") [] (some fault.message)).toJson "2026-01-01 00:00:00").toLine ∧
      (localConfig.storeOf (unwritableScan.outcome localConfig).disk).files.map (·.filePath) =
        ["A.java"] := by
  have hopens : ((unwritableScan.workload? localConfig).bind fun w =>
      (openStore w.disk localConfig.storePath).toOption).isSome = true := by decide +kernel
  have hfault : (unwritableScan.outcome localConfig).fault.isSome = true := by decide +kernel
  obtain ⟨c, hc⟩ := Option.isSome_iff_exists.1 hopens
  obtain ⟨w, hw, hc⟩ := Option.bind_eq_some_iff.1 hc
  obtain ⟨fault, hfault⟩ := Option.isSome_iff_exists.1 hfault
  obtain ⟨run, hrun, -, -, -, hfailed⟩ :=
    run_closed_iff (by decide) hw rfl (toOption_eq_some.1 hc) (by decide +kernel)
  obtain ⟨hbegun, hrecorded⟩ := hfailed fault hfault
  have hjournal : ((unwritableScan.workload? localConfig).all fun w =>
      !w.disk.isDirectoryAt (localConfig.journalPath unwritableScan.occasion.day)) = true := by decide +kernel
  rw [hw, Option.all_some, Bool.not_eq_true'] at hjournal
  rcases hrecorded with ⟨-, hlast⟩ | ⟨e, hblocked, -⟩
  · exact ⟨fault, run, hfault, hrun, hbegun, hlast, by decide +kernel⟩
  · rw [openJournal, hjournal] at hblocked
    cases hblocked

end EmbeddedSql
