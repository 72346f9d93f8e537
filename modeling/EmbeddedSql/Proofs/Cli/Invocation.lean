/-
# A scan command as a whole

A scan command depends on what is asked, on the occasion, and on the disk that it finds.  Many commands
end before they scan, because a path is missing or the rules are refused; these leave the disk alone.
The others have a workload.  Such a command shows the results of its files and leaves the store as its
run left it, or alone if it has none.
-/
import EmbeddedSql.Proofs.Cli.Recording
import EmbeddedSql.Proofs.Cli.StoreOnDisk

namespace EmbeddedSql

/-! ## Commands as they are carried out -/

/-- A scan command with all that it depends on. -/
structure Invocation where
  request : ScanRequest
  occasion : Occasion
  /-- What keeps its workers from working, if anything does. -/
  workerFault : Option String
  /-- The disk that it finds. -/
  disk : Disk

/-- What a command scans: by which rules, which files, and on what disk. -/
structure Workload where
  rules : RuleSet
  files : List String
  disk : Disk

namespace Invocation

def outcome (config : Config) (v : Invocation) : Outcome :=
  scanCommand config v.workerFault v.occasion v.request v.disk

/-- The same command without a store. -/
def withoutStore (v : Invocation) : Invocation :=
  { v with request := { v.request with useStore := false } }

def workers (config : Config) (v : Invocation) : Workers :=
  ⟨v.request.workers.getD config.workers, v.workerFault⟩

/-- The workload of a command; none if it ends before it scans. -/
def workload? (config : Config) (v : Invocation) : Option Workload :=
  match missingPaths v.disk v.request.paths with
  | .ok [] =>
    match loadRulesOr v.disk (v.request.rulesPath.getD config.rulesPath) with
    | .error _ => none
    | .ok rules =>
      match collectFiles v.disk config.fileGlob v.request.paths with
      | .error _ => none
      | .ok files =>
        match ensureDirectories config v.disk with
        | .error _ => none
        | .ok disk => some ⟨rules, files, disk⟩
  | _ => none

/-- The contents of the files that a command scans. -/
def contents (config : Config) (v : Invocation) : List String :=
  match v.workload? config with
  | none => []
  | some w => w.files.filterMap fun p => (w.disk.readSource (.parse p)).toOption

/-- What keeps a file of the command from being scanned. -/
def lost (config : Config) (v : Invocation) (w : Workload) : Option String :=
  lostWorker (v.workers config) (seededCache config w.disk (config.storeOf v.disk) w.files) w.disk
    w.files

/-- The rules of a command that stores results and that scans this content of a file without an
error. -/
def scannedBy? (config : Config) (v : Invocation) (p source : String) : Option RuleSet :=
  if v.request.useStore then
    (v.workload? config).bind fun w =>
      if p ∈ w.files ∧ (w.disk.readSource (.parse p)).toOption = some source ∧
          (scanApart (config.settings w.rules) (v.lost config w) p source).isOk then
        some w.rules
      else none
  else none

end Invocation

/-- The result of a file in a scan that knows no store. -/
def freshResult (settings : Settings) (disk : Disk) (p : String) : ScanResult :=
  ownResult settings none none disk p

/-- An outcome that shows these results. -/
def Outcome.Reports (o : Outcome) (request : ScanRequest) (results : List ScanResult) : Prop :=
  ∃ report : ScanReport, report.results = results ∧ o.printed = printReport request report ∧
    o.exitCode = if report.errorCount = 0 then 0 else 1

variable {config : Config}

/-! ## One command -/

namespace Invocation

variable {v : Invocation} {w : Workload}

/-- A command that does not come to scan does the same with and without a store, and leaves the disk
alone. -/
theorem outcome_of_workload?_eq_none (h : v.workload? config = none) :
    v.outcome config = v.withoutStore.outcome config ∧ (v.outcome config).disk = v.disk := by
  unfold workload? at h
  unfold outcome scanCommand withoutStore
  dsimp only
  cases hm : missingPaths v.disk v.request.paths with
  | error e => exact ⟨rfl, rfl⟩
  | ok missing =>
      cases missing with
      | cons path rest => exact ⟨rfl, rfl⟩
      | nil =>
          rw [hm] at h
          dsimp only at h ⊢
          cases hr : loadRulesOr v.disk (v.request.rulesPath.getD config.rulesPath) with
          | error o =>
              refine ⟨rfl, ?_⟩
              unfold loadRulesOr at hr
              split at hr
              · cases hr
              · cases hr
                rfl
              · cases hr
                rfl
          | ok rules =>
              rw [hr] at h
              dsimp only at h ⊢
              unfold scanByRules
              dsimp only
              cases hf : collectFiles v.disk config.fileGlob v.request.paths with
              | error e => exact ⟨rfl, rfl⟩
              | ok files =>
                  rw [hf] at h
                  dsimp only at h ⊢
                  cases hd : ensureDirectories config v.disk with
                  | error e => exact ⟨rfl, rfl⟩
                  | ok disk => rw [hd] at h; cases h

/-- A command that comes to scan works on its workload. -/
theorem outcome_of_workload?_eq_some (h : v.workload? config = some w) :
    ensureDirectories config v.disk = .ok w.disk ∧
      v.outcome config =
        if v.request.useStore then
          match openStore w.disk config.storePath with
          | .error e => .ofFault w.disk [] (.store e)
          | .ok c =>
            scanOutcome config v.occasion v.request w.disk
              (scanWithStore config (config.settings w.rules) (v.workers config) v.occasion w.disk
                v.request.paths w.files c)
        else
          scanOutcome config v.occasion v.request w.disk
            (scanWithoutStore config (config.settings w.rules) (v.workers config) v.occasion w.disk
              w.files) := by
  unfold workload? at h
  split at h
  · next hm =>
      split at h
      · cases h
      · next rules hr =>
          split at h
          · cases h
          · next files hf =>
              split at h
              · cases h
              · next disk hd =>
                  cases h
                  refine ⟨hd, ?_⟩
                  unfold outcome scanCommand
                  rw [hm]
                  dsimp only
                  rw [hr]
                  dsimp only
                  unfold scanByRules
                  dsimp only
                  rw [hf]
                  dsimp only
                  rw [hd]
                  rfl
  · cases h

/-- A command without a fault shows the results of its run and writes back its store. -/
theorem scanOutcome_of_fault_eq_none {occasion : Occasion} {request : ScanRequest} {disk : Disk}
    {run : Journal × Except Fault ScanReport}
    (h : (scanOutcome config occasion request disk run).fault = none) :
    ∃ j report, run = (j, .ok report) ∧
      (scanOutcome config occasion request disk run).Reports request report.results ∧
      (scanOutcome config occasion request disk run).disk = writeBack config occasion j disk := by
  obtain ⟨j, result⟩ := run
  cases result with
  | error e => cases h
  | ok report => exact ⟨j, report, rfl, ⟨report, rfl, rfl, rfl⟩, rfl⟩

/-- What a command with a store shows, and what it leaves in the store. -/
theorem outcome_with_store (hbase : ".." ∉ config.baseDir.names)
    (hw : v.workload? config = some w) (hdb : v.request.useStore = true)
    (hdone : (v.outcome config).fault = none)
    (hj : (config.storeOf v.disk).IsJoined config.separator) :
    let cache := seededCache config w.disk (config.storeOf v.disk) w.files
    let own := ownResult (config.settings w.rules) (v.lost config w) cache w.disk
    (v.outcome config).Reports v.request (w.files.map own) ∧
      (config.storeOf (v.outcome config).disk).cached? =
        savedOver own w.files (config.storeOf v.disk).cached? := by
  intro cache own
  obtain ⟨hdirs, houtcome⟩ := outcome_of_workload?_eq_some hw
  rw [houtcome, if_pos hdb] at hdone ⊢
  cases ho : openStore w.disk config.storePath with
  | error e => rw [ho] at hdone; cases hdone
  | ok c =>
      rw [ho] at hdone
      dsimp only at hdone ⊢
      obtain ⟨j, report, hrun, hreports, hdisk⟩ := scanOutcome_of_fault_eq_none hdone
      have hsame : c.store.cached? = (config.storeOf v.disk).cached? := by
        rw [Config.cached?_of_openStore ho, Config.storeOf_ensureDirectories hbase hdirs]
      have hcache : seededCache config w.disk c.store w.files = cache :=
        seededCache_congr config hsame w.files
      have hjoined : c.store.IsJoined (config.settings w.rules).separator := by
        unfold Store.IsJoined
        rw [hsame]
        exact hj
      obtain ⟨hresults, c', hc', hcached⟩ := scanWithStore_leaves hjoined hrun
      rw [hcache] at hresults hcached
      refine ⟨?_, ?_⟩
      · rw [hresults] at hreports
        exact hreports
      · rw [hdisk, Config.storeOf_writeBack_some hbase hdirs ho v.occasion hc', hcached, hsame]
        rfl

/-- What a command without a store shows, and that it leaves the store alone. -/
theorem outcome_without_store (hbase : ".." ∉ config.baseDir.names)
    (hw : v.workload? config = some w) (hdb : v.request.useStore = false)
    (hdone : (v.outcome config).fault = none) :
    (v.workerFault = none → (v.outcome config).Reports v.request
      (w.files.map (freshResult (config.settings w.rules) w.disk))) ∧
      config.storeOf (v.outcome config).disk = config.storeOf v.disk := by
  obtain ⟨hdirs, houtcome⟩ := outcome_of_workload?_eq_some hw
  rw [houtcome, if_neg (by rw [hdb]; decide)] at hdone ⊢
  obtain ⟨j, report, hrun, hreports, hdisk⟩ := scanOutcome_of_fault_eq_none hdone
  obtain ⟨hnone, hresults⟩ := scanWithoutStore_leaves hrun
  refine ⟨fun hf => ?_, ?_⟩
  · rw [hresults hf] at hreports
    exact hreports
  · rw [hdisk, Config.storeOf_writeBack_none hbase w.disk v.occasion hnone,
      Config.storeOf_ensureDirectories hbase hdirs]

end Invocation

end EmbeddedSql
