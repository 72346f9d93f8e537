/-
# What history has of a run

A scan command tells the counts of its run twice.  It reports them from the results that it has, and it
stores them with the run, where they are taken from the rows that the results have left in the store.  A
result without a digest leaves no row: that is the one of a file that could not be scanned, because it could
not be read or because its worker was lost (`ScanResult.failed`).

| count      | in the report            | with the run                                       |
|------------|--------------------------|----------------------------------------------------|
| files      | all results              | the results with a digest                          |
| errors     | the results with errors  | the results with errors that have a digest         |
| statements | all candidates           | all candidates: what failed has none               |

The rows of the run can be told from all others, since its identity is new.  The files of a run differ, so
that none of its results takes the row of another.
-/
import EmbeddedSql.Proofs.Cli.Reuse
import EmbeddedSql.Proofs.Files.Finding
import EmbeddedSql.Proofs.Store.Counts

namespace EmbeddedSql

open Deposit (standing standingUnder)

/-! ## Files, each once -/

theorem nodup_collectFiles {disk : Disk} {glob : String} {paths : List Path} {files : List String}
    (h : collectFiles disk glob paths = .ok files) : files.Nodup := by
  obtain ⟨found, -, rfl⟩ := ok_of_map_eq_ok h
  exact (areFirst_eraseDups _).nodup

/-- The files of a command are those below its paths. -/
theorem Invocation.collectFiles_of_workload? {config : Config} {v : Invocation} {w : Workload}
    (h : v.workload? config = some w) :
    collectFiles v.disk config.fileGlob v.request.paths = .ok w.files := by
  unfold workload? at h
  split at h
  · split at h
    · cases h
    · split at h
      · cases h
      · next hfiles =>
          split at h
          · cases h
          · cases h
            exact hfiles
  · cases h

theorem Invocation.nodup_files {config : Config} {v : Invocation} {w : Workload}
    (h : v.workload? config = some w) : w.files.Nodup :=
  nodup_collectFiles (collectFiles_of_workload? h)

/-! ## Results of files -/

/-- A result that a run has for a file: it has a digest, or the file could not be scanned. -/
inductive FoundFor (p : String) : ScanResult → Prop
  | failed (reason : String) : FoundFor p (.failed p reason)
  | scanned {r : ScanResult} {hash : String} (hpath : r.filePath = p)
      (hhash : r.contentHash = some hash) : FoundFor p r

namespace FoundFor

variable {p : String} {r : ScanResult}

theorem filePath (h : FoundFor p r) : r.filePath = p := by
  cases h with
  | failed reason => rfl
  | scanned hpath => exact hpath

theorem contentHash_eq_none_iff (h : FoundFor p r) :
    r.contentHash = none ↔ ∃ reason, r = .failed r.filePath reason := by
  refine ⟨fun hnone => ?_, ?_⟩
  · cases h with
    | failed reason => exact ⟨reason, rfl⟩
    | scanned _ hhash => cases hnone.symm.trans hhash
  · rintro ⟨reason, heq⟩
    rw [heq]
    rfl

end FoundFor

theorem foundFor_scanApart (settings : Settings) (lost : Option String) (p source : String) :
    FoundFor p (scanApart settings lost p source) := by
  unfold scanApart
  cases lost with
  | some reason => exact .failed reason
  | none =>
      dsimp only
      cases hr : scanSource settings p source with
      | error e => exact .failed _
      | ok r => exact .scanned (of_scanSource hr).1 (of_scanSource hr).2

theorem foundFor_ownResult (settings : Settings) (lost : Option String) (disk : Disk) (p : String) :
    FoundFor p (ownResult settings lost none disk p) := by
  cases hs : disk.readSource (.parse p) with
  | error e =>
      unfold ownResult intakeOf
      dsimp only
      rw [hs]
      cases e <;> exact .failed _
  | ok source =>
      rw [ownResult_of_read hs]
      exact foundFor_scanApart settings lost p source

theorem foundFor_seeded {config : Config} {settings : Settings} {disk : Disk} {store : Store}
    {files : List String} (lost : Option String) {p : String} (hp : p ∈ files) :
    FoundFor p (ownResult settings lost (seededCache config disk store files) disk p) := by
  rcases ownResult_seeded config settings lost disk store hp with ⟨source, r, -, hcached, heq⟩ | heq
  · obtain ⟨hpath, hhash, -⟩ := Store.of_cached?_eq_some hcached
    exact heq ▸ .scanned hpath hhash
  · rw [heq]
    exact foundFor_ownResult settings lost disk p

theorem found_of_results {files : List String} {own : String → ScanResult}
    {results : List ScanResult} (hresults : results = files.map own)
    (h : ∀ p ∈ files, FoundFor p (own p)) :
    results.map (·.filePath) = files ∧ ∀ r ∈ results, ∃ p, FoundFor p r := by
  subst hresults
  refine ⟨?_, fun r hr => ?_⟩
  · rw [List.map_map]
    exact (List.map_congr_left fun p hp => (h p hp).filePath).trans (List.map_id' files)
  · obtain ⟨p, hp, rfl⟩ := List.mem_map.1 hr
    exact ⟨p, h p hp⟩

/-! ## Results as deposits -/

/-- The deposits that results become under a run. -/
def depositsUnder (runId : String) (results : List ScanResult) : List Deposit :=
  results.filterMap fun r => r.contentHash.map fun hash =>
    ⟨Text.ofString runId, Text.ofString hash, r.given⟩

variable {runId : String}

theorem depositsUnder_cons_none {r : ScanResult} (hr : r.contentHash = none)
    (results : List ScanResult) : depositsUnder runId (r :: results) = depositsUnder runId results := by
  rw [depositsUnder, List.filterMap_cons, hr]
  rfl

theorem depositsUnder_cons_some {r : ScanResult} {hash : String} (hr : r.contentHash = some hash)
    (results : List ScanResult) :
    depositsUnder runId (r :: results) =
      ⟨Text.ofString runId, Text.ofString hash, r.given⟩ :: depositsUnder runId results := by
  rw [depositsUnder, List.filterMap_cons, hr]
  rfl

/-- The counts of the deposits and of the results, with those that have no digest between them. -/
theorem counts_depositsUnder (runId : String) {results : List ScanResult}
    (h : ∀ r ∈ results, ∃ p, FoundFor p r) :
    (depositsUnder runId results).length + results.countP (·.contentHash.isNone) = results.length ∧
    (depositsUnder runId results).countP (·.result.error.isSome)
        + results.countP (·.contentHash.isNone) = results.countP (!·.isOk) ∧
    ((depositsUnder runId results).map (·.result.candidates.length)).sum =
      (results.flatMap (·.candidates)).length := by
  induction results with
  | nil => exact ⟨rfl, rfl, rfl⟩
  | cons r results ih =>
      obtain ⟨hlength, herrors, hsum⟩ := ih fun s hs => h s (List.mem_cons_of_mem _ hs)
      obtain ⟨p, hr⟩ := h r List.mem_cons_self
      cases hr with
      | failed reason =>
          rw [depositsUnder_cons_none rfl, List.countP_cons_of_pos rfl, List.countP_cons_of_pos rfl,
            List.flatMap_cons, List.length_cons]
          exact ⟨congrArg (· + 1) hlength, congrArg (· + 1) herrors, hsum⟩
      | scanned hpath hhash =>
          have hdigest : r.contentHash.isNone = false := by
            rw [hhash]
            rfl
          have herror : r.given.error.isSome = !r.isOk := by
            rw [ScanResult.given, Option.isSome_map, ScanResult.isOk, Option.not_isNone]
          rw [depositsUnder_cons_some hhash]
          refine ⟨?_, ?_, ?_⟩
          · rw [List.countP_cons, hdigest, if_neg (by decide), Nat.add_zero, List.length_cons,
              List.length_cons, Nat.add_right_comm, hlength]
          · rw [List.countP_cons, List.countP_cons, List.countP_cons, hdigest, herror,
              if_neg (by decide : ¬ false = true), Nat.add_zero, Nat.add_right_comm, herrors]
          · rw [List.map_cons, List.sum_cons, hsum, List.flatMap_cons, List.length_append,
              ScanResult.given, List.length_map]

/-- Results of different files are saved side by side: all of their deposits stand. -/
theorem standingUnder_depositsUnder {results : List ScanResult}
    (h : (results.map (·.filePath)).Nodup) :
    standingUnder runId (depositsUnder runId results) = depositsUnder runId results := by
  have hpaths : ((depositsUnder runId results).map (·.result.filePath)).Sublist
      (results.map (Text.ofString ·.filePath)) := by
    clear h
    induction results with
    | nil => exact .slnil
    | cons r results ih =>
        cases hr : r.contentHash with
        | none =>
            rw [depositsUnder_cons_none hr]
            exact ih.cons _
        | some hash =>
            rw [depositsUnder_cons_some hr]
            exact ih.cons_cons _
  have hnodup : (results.map (Text.ofString ·.filePath)).Nodup := by
    have hmapped := h.map (f := Text.ofString) fun p q hpq => ofString_inj.1 hpq
    rwa [List.map_map] at hmapped
  have hkeys : ((depositsUnder runId results).map Deposit.key).Nodup := by
    refine List.Nodup.of_map Prod.fst ?_
    rw [List.map_map]
    exact hpaths.nodup hnodup
  rw [standingUnder, Deposit.standing_eq_self hkeys]
  refine List.filter_eq_self.2 fun d hd => ?_
  obtain ⟨r, -, hr⟩ := List.mem_filterMap.1 hd
  obtain ⟨hash, -, rfl⟩ := Option.map_eq_some_iff.1 hr
  exact decide_eq_true rfl

/-! ## Recording -/

/-- A journal with an open store in which the part of a run has the rows of these deposits. -/
def Journal.HoldsUnder (j : Journal) (runId : String) (deposits : List Deposit) : Prop :=
  ∃ c, j.connection = some c ∧ (c.store.under runId).Holds deposits

theorem Journal.HoldsUnder.record {j : Journal} {deposits : List Deposit}
    (h : j.HoldsUnder runId deposits) (now : String) (e : Occurrence) :
    (j.record now e).HoldsUnder runId deposits := by
  obtain ⟨c, hc, hholds⟩ := h
  unfold Journal.record
  rw [hc]
  dsimp only
  unfold Connection.logEvent?
  split
  · next c' hlog =>
      split at hlog
      · cases hlog
      · obtain ⟨store, hstore, rfl⟩ := Option.map_eq_some_iff.1 hlog
        obtain ⟨hfiles, hfindings⟩ := Store.sameResults_logEvent? hstore
        refine ⟨_, rfl, hholds.sameResults ⟨?_, ?_⟩⟩
        · show store.files.filter _ = _
          rw [hfiles]
          rfl
        · show store.findings.filter _ = _
          rw [hfindings]
          rfl
  · exact ⟨c, rfl, hholds⟩

/-- Every result with a digest becomes a deposit. -/
theorem recordResults_holdsUnder {now : String} {results : List ScanResult} {j j' : Journal}
    {deposits : List Deposit} (hj : j.HoldsUnder runId deposits)
    (h : recordResults now (some runId) j results = (j', .ok ())) :
    j'.HoldsUnder runId (deposits ++ depositsUnder runId results) := by
  induction results generalizing j deposits with
  | nil =>
      cases h
      rwa [depositsUnder, List.filterMap_nil, List.append_nil]
  | cons r results ih =>
      obtain ⟨c, hc, hholds⟩ := hj.record now (.ofResult (some runId) r)
      rw [recordResults, hc] at h
      dsimp only at h
      split at h
      · cases h
      · next c' hsave =>
          cases hr : r.contentHash with
          | none =>
              unfold Connection.save Connection.attemptSave at hsave
              rw [ScanResult.given, hr] at hsave
              cases hsave
              rw [depositsUnder_cons_none hr]
              exact ih ⟨c, rfl, hholds⟩ h
          | some hash =>
              have hstore := hholds.save_under hr (Connection.store_of_save hr hsave)
              rw [depositsUnder_cons_some hr, List.append_cons]
              exact ih ⟨c', rfl, hstore⟩ h

/-! ## The run -/

/-- Nothing in the store is under the identity of a run. -/
def Store.IsNew (s : Store) (runId : String) : Prop :=
  (∀ f ∈ s.files, f.runId ≠ runId) ∧ ∀ f ∈ s.findings, f.runId ≠ runId

instance (s : Store) (runId : String) : Decidable (s.IsNew runId) := inferInstanceAs (Decidable (_ ∧ _))

theorem Store.IsNew.sameResults {s s' : Store} (h : s.IsNew runId) (hsame : s.SameResults s') :
    s'.IsNew runId := by
  unfold IsNew
  rw [hsame.1, hsame.2]
  exact h

theorem Store.IsNew.holds {s : Store} (h : s.IsNew runId) : (s.under runId).Holds [] := by
  refine ⟨?_, ?_⟩
  · show (s.files.filter (·.runId == runId)).map _ = []
    rw [List.filter_eq_nil_iff.2 fun f hf => by simpa using h.1 f hf, List.map_nil]
  · show (s.findings.filter (·.runId == runId)).map _ = []
    rw [List.filter_eq_nil_iff.2 fun f hf => by simpa using h.2 f hf, List.map_nil]

theorem id_of_createRun {s s' : Store} {now : String} {root : Option String} {run : Run}
    (h : s.createRun now runId root = .ok (run, s')) : run.id = runId := by
  unfold Store.createRun at h
  split at h
  · next hrun =>
      cases h
      exact Store.id_of_run? hrun
  · cases h
  · cases h
    rfl

/-- The counts that a run is finished with, where its part of the store has the rows of its results. -/
theorem finishRun_depositsUnder {s s' : Store} {now : String} {status : RunStatus} {run : Run}
    {results : List ScanResult} (hholds : (s.under runId).Holds (depositsUnder runId results))
    (hfound : ∀ r ∈ results, ∃ p, FoundFor p r) (hpaths : (results.map (·.filePath)).Nodup)
    (h : s.finishRun now runId status = .ok (run, s')) :
    s'.run? runId = some run ∧
    run.fileCount + results.countP (·.contentHash.isNone) = results.length ∧
    run.errorCount + results.countP (·.contentHash.isNone) = results.countP (!·.isOk) ∧
    run.findingCount = (results.flatMap (·.candidates)).length := by
  cases hrun : s.run? runId with
  | none =>
      rw [Store.finishRun_of_none hrun] at h
      cases h
  | some begun =>
      obtain ⟨s'', hfinish, hself, -⟩ := Store.finishRun_of_some hrun now status
      cases hfinish.symm.trans h
      obtain rfl := Store.id_of_run? hrun
      -- The run is counted in its own part of the store, in which every deposit stands.
      obtain ⟨hfiles, herrors, hfindings⟩ := hholds.countRun begun
      rw [Store.countRun_under, standingUnder_depositsUnder hpaths] at hfiles herrors hfindings
      obtain ⟨hlength, herror, hsum⟩ := counts_depositsUnder begun.id hfound
      refine ⟨hself, ?_, ?_, ?_⟩
      · rw [← hlength, ← hfiles]
      · rw [← herror, ← herrors]
      · rw [← hsum, ← hfindings]

/-- What a run with a store reports and stores. -/
theorem scanWithStore_counts {config : Config} {settings : Settings} {workers : Workers}
    {occasion : Occasion} {disk : Disk} {paths : List Path} {files : List String} {c : Connection}
    {j : Journal} {report : ScanReport} (hnew : c.store.IsNew occasion.freshId)
    (hfiles : files.Nodup)
    (h : scanWithStore config settings workers occasion disk paths files c = (j, .ok report)) :
    report.results.map (·.filePath) = files ∧ (∀ r ∈ report.results, ∃ p, FoundFor p r) ∧
    j.lines.getLast? =
      some ((runEvent (some occasion.freshId) report.context none).toJson occasion.now).toLine ∧
    ∃ c' run, j.connection = some c' ∧ c'.store.run? occasion.freshId = some run ∧
      run.fileCount + report.results.countP (·.contentHash.isNone) = report.results.length ∧
      run.errorCount + report.results.countP (·.contentHash.isNone) = report.errorCount ∧
      run.findingCount = report.candidateCount := by
  obtain ⟨run, c₁, j₁, cacheHits, hcreate, hscan, hfinished⟩ := scanWithStore_ok h
  have hbegun := hnew.sameResults (Store.sameResults_createRun hcreate)
  rw [id_of_createRun hcreate] at hscan hfinished
  obtain ⟨hresults, j₂, hrecord, rfl⟩ := scanAndRecord_ok hscan
  obtain ⟨hpaths, hfound⟩ := found_of_results hresults fun p hp => foundFor_seeded _ hp
  -- The identity is new: the part of this run begins empty.
  obtain ⟨c₂, hc₂, hholds⟩ := (recordResults_holdsUnder ⟨c₁, rfl, hbegun.holds⟩ hrecord).record
    occasion.now (runEvent (some occasion.freshId) report.context none)
  obtain ⟨finished, c₃, hfinish, rfl⟩ := hfinished c₂ hc₂
  obtain ⟨hself, hcounts⟩ := finishRun_depositsUnder hholds hfound (hpaths ▸ hfiles) hfinish
  refine ⟨hpaths, hfound, ?_, c₃, finished, rfl, hself, hcounts⟩
  rw [Journal.lines_record, List.getLast?_concat]

/-! ## The command -/

theorem Config.sameResults_of_openStore {config : Config} {disk : Disk} {c : Connection}
    (h : openStore disk config.storePath = .ok c) : (config.storeOf disk).SameResults c.store := by
  unfold openStore at h
  unfold storeOf
  split at h
  · next s hs =>
      rw [hs]
      exact (Connection.of_connect h).2
  · next hs =>
      rw [hs]
      exact (Connection.of_connect h).2
  · next hs =>
      rw [hs]
      exact (Connection.of_connect h).2
  · next hs =>
      rw [hs]
      exact (Connection.of_connect h).2
  · cases h
  · cases h
  · cases h

/-- How many of the files could not be scanned at all. -/
def ScanReport.failedCount (r : ScanReport) : Nat := r.results.countP (·.contentHash.isNone)

/-- A scan command with a store, on a disk that may hold any earlier runs.  Its run is in the store afterwards
with the statements that the command reports, and with the files and errors less those of files that could
not be scanned at all.  So history agrees with the report just where each file could be scanned. -/
theorem Invocation.history_counts {config : Config} {v : Invocation} {w : Workload}
    (hbase : ".." ∉ config.baseDir.names) (hw : v.workload? config = some w)
    (hdb : v.request.useStore = true) (hdone : (v.outcome config).fault = none)
    (hnew : (config.storeOf v.disk).IsNew v.occasion.freshId) :
    ∃ (report : ScanReport) (run : Run),
      (v.outcome config).printed = printReport v.request report ∧
      (v.outcome config).journal.getLast? = some
        ((runEvent (some v.occasion.freshId) report.context none).toJson v.occasion.now).toLine ∧
      (config.storeOf (v.outcome config).disk).run? v.occasion.freshId = some run ∧
      run.findingCount = report.candidateCount ∧
      run.fileCount + report.failedCount = report.results.length ∧
      run.errorCount + report.failedCount = report.errorCount ∧
      (run.fileCount = report.results.length ∧ run.errorCount = report.errorCount ↔
        ∀ r ∈ report.results, r.contentHash ≠ none) ∧
      report.results.map (·.filePath) = w.files ∧
      ∀ r ∈ report.results, r.contentHash = none ↔ ∃ reason, r = .failed r.filePath reason := by
  obtain ⟨hdirs, houtcome⟩ := outcome_of_workload?_eq_some hw
  rw [houtcome, if_pos hdb] at hdone ⊢
  cases ho : openStore w.disk config.storePath with
  | error e =>
      rw [ho] at hdone
      cases hdone
  | ok c =>
      rw [ho] at hdone
      dsimp only at hdone ⊢
      have hnew' : c.store.IsNew v.occasion.freshId := by
        rw [← Config.storeOf_ensureDirectories hbase hdirs] at hnew
        exact hnew.sameResults (Config.sameResults_of_openStore ho)
      cases hrun : scanWithStore config (config.settings w.rules) (v.workers config) v.occasion w.disk
          v.request.paths w.files c with
      | mk j result =>
          cases result with
          | error e =>
              rw [hrun] at hdone
              cases hdone
          | ok report =>
              obtain ⟨hpaths, hfound, hlast, c', run, hc', hstored, hfiles, herrors, hfindings⟩ :=
                scanWithStore_counts hnew' (nodup_files hw) hrun
              have hnone : report.failedCount = 0 ↔ ∀ r ∈ report.results, r.contentHash ≠ none := by
                rw [ScanReport.failedCount, List.countP_eq_zero]
                simp
              refine ⟨report, run, rfl, hlast, ?_, hfindings, hfiles, herrors, ?_, hpaths, ?_⟩
              · show (config.storeOf (writeBack config v.occasion j w.disk)).run? _ = _
                rw [Config.storeOf_writeBack_some hbase hdirs ho v.occasion hc', hstored]
              · rw [← hnone]
                unfold ScanReport.failedCount
                omega
              · intro r hr
                obtain ⟨p, hp⟩ := hfound r hr
                exact hp.contentHash_eq_none_iff

/-- The run of a command that finds the store of an earlier one. -/
theorem Invocation.history_counts_secondScan :
    ∃ (report : ScanReport) (run : Run),
      (secondScan.outcome localConfig).printed = printReport secondScan.request report ∧
      (localConfig.storeOf (secondScan.outcome localConfig).disk).run? "second" = some run ∧
      run.findingCount = report.candidateCount ∧ run.fileCount + report.failedCount = 1 ∧
      run.errorCount + report.failedCount = report.errorCount := by
  have hw : (secondScan.workload? localConfig).isSome = true := by decide +kernel
  obtain ⟨w, hw⟩ := Option.isSome_iff_exists.1 hw
  have hfiles : (secondScan.workload? localConfig).map (·.files) = some ["A.java"] := by
    decide +kernel
  rw [hw, Option.map_some, Option.some.injEq] at hfiles
  obtain ⟨report, run, hprinted, -, hrun, hfindings, hcount, herrors, -, hpaths, -⟩ :=
    history_counts (by decide) hw rfl fault_secondScan (by decide +kernel)
  have hone : report.results.length = 1 := by
    rw [← List.length_map, hpaths, hfiles]
    rfl
  exact ⟨report, run, hprinted, hrun, hfindings, hone ▸ hcount, herrors⟩

/-! ## Files that are lost

Two workers share two files, and both are lost.  The command reports two files with errors, and its run has
none. -/

def twoFiles : Disk :=
  .directory (.cons "A.java" (.file (bytesOfText "String s = \"SELECT 1\";"))
    (.cons "B.java" (.file (bytesOfText "String s = \"SELECT 2\";")) .nil))

def sharedScan : Invocation where
  request := { scanOfFile none with paths := [⟨0, ["A.java"]⟩, ⟨0, ["B.java"]⟩], workers := some 2 }
  occasion := ⟨"2026-01-01 00:00:00", "2026-01-01", "first"⟩
  workerFault := some "lost"
  disk := twoFiles

theorem history_lacks_lost_files :
    ∃ (report : ScanReport) (run : Run),
      (sharedScan.outcome localConfig).fault = none ∧
      (sharedScan.outcome localConfig).printed = printReport sharedScan.request report ∧
      (sharedScan.outcome localConfig).journal.getLast? = some
        ((runEvent (some "first") report.context none).toJson sharedScan.occasion.now).toLine ∧
      (localConfig.storeOf (sharedScan.outcome localConfig).disk).run? "first" = some run ∧
      report.results.length = 2 ∧ report.errorCount = 2 ∧ run.fileCount = 0 ∧ run.errorCount = 0 := by
  refine ⟨⟨[.failed "A.java" "lost", .failed "B.java" "lost"], 0⟩,
    ⟨"first", "A.java, B.java", "2026-01-01 00:00:00", some "2026-01-01 00:00:00", .error, 0, 0, 0⟩, ?_⟩
  exact ⟨Option.isNone_iff_eq_none.1 (by decide +kernel), by decide +kernel, by decide +kernel,
    by decide +kernel, rfl, by decide +kernel, rfl, rfl⟩

end EmbeddedSql
