/-
# Stored results are used again

A scan command with a store takes over what earlier commands have stored, and says nothing of it.  What
it reports is therefore compared with a scan that knows no store.  Between two commands anything may
happen to the files and to the rules; only the store in the base directory is found again as it was
left (`History`).

The store keeps results by path and content, and by nothing else.  So a file whose content was scanned
before, without an error and with a store, has the result of that scan, *under the rules of that time*:
the first rules decide, whatever the rules in force now.  Reuse does not show where both give the same,
as they do while the rules do not change.
-/
import EmbeddedSql.Proofs.Cli.Invocation

namespace EmbeddedSql

namespace Config

/-- Commands that were carried out one after the other, without a fault, and the store that they leave.
Each finds the store that the one before it left; everything else on its disk may be new. -/
inductive History (config : Config) : List Invocation → Store → Prop
  | nil : History config [] .empty
  | snoc {history : List Invocation} {store : Store} {v : Invocation} :
      History config history store → config.storeOf v.disk = store →
      (v.outcome config).fault = none →
      History config (history ++ [v]) (config.storeOf (v.outcome config).disk)

/-- The rules that decide over a file: those under which its content was scanned first, or those in
force now. -/
def rulesFor (config : Config) (history : List Invocation) (w : Workload) (p : String) : RuleSet :=
  if config.useCache then
    ((w.disk.readSource (.parse p)).toOption.bind fun source =>
      history.findSome? (·.scannedBy? config p source)).getD w.rules
  else w.rules

end Config

variable {config : Config}

/-! ## What the store knows -/

theorem mem_contents {v : Invocation} {w : Workload} {p source : String}
    (hw : v.workload? config = some w) (hp : p ∈ w.files)
    (hs : w.disk.readSource (.parse p) = .ok source) : source ∈ v.contents config := by
  unfold Invocation.contents
  rw [hw]
  refine List.mem_filterMap.2 ⟨p, hp, ?_⟩
  rw [hs]
  rfl

/-- No content of an invocation other than this one has its digest. -/
def Apart (config : Config) (source : String) (v : Invocation) : Prop :=
  ∀ old ∈ v.contents config, contentHash old = contentHash source → old = source

/-- What the store holds for a content of a file: what the scan gave by which it was first scanned. -/
def Knows (config : Config) (history : List Invocation) (store : Store) : Prop :=
  ∀ p source, (∀ v ∈ history, Apart config source v) →
    store.cached? p (contentHash source) =
      (history.findSome? (·.scannedBy? config p source)).map fun rules =>
        scanApart (config.settings rules) none p source

theorem isJoined_empty (separator : Text) : Store.empty.IsJoined separator := by
  rintro p hash r ⟨⟩

/-- What a run leaves is joined. -/
theorem isJoined_of_savedOver {separator : Text} {store store' : Store} {disk : Disk}
    {own : String → ScanResult} {files : List String} (hj : store.IsJoined separator)
    (hown : ∀ p ∈ files, IsResultFor separator disk p (own p))
    (h : store'.cached? = savedOver own files store.cached?) : store'.IsJoined separator := by
  intro p hash r hr
  rw [h] at hr
  unfold savedOver at hr
  split at hr
  · next hm =>
      split at hr
      · cases hr
        exact (hown p hm.1).joined
      · cases hr
  · exact hj p hash r hr

/-- A command that stores nothing scans nothing that is stored. -/
theorem scannedBy?_eq_none {v : Invocation} (h : v.request.useStore = false) (p source : String) :
    v.scannedBy? config p source = none := by
  unfold Invocation.scannedBy?
  rw [h]
  rfl

theorem scannedBy?_of_workload {v : Invocation} {w : Workload} (hw : v.workload? config = some w)
    (hdb : v.request.useStore = true) (p source : String) :
    v.scannedBy? config p source =
      if p ∈ w.files ∧ (w.disk.readSource (.parse p)).toOption = some source ∧
          (scanApart (config.settings w.rules) (v.lost config w) p source).isOk then
        some w.rules
      else none := by
  unfold Invocation.scannedBy?
  rw [if_pos hdb, hw]
  rfl

/-- One more command with a store. -/
theorem Knows.snoc_store {history : List Invocation} {v : Invocation} {w : Workload}
    {store store' : Store} (h : Knows config history store) (huse : config.useCache = true)
    (hw : v.workload? config = some w) (hdb : v.request.useStore = true)
    (hown : ∀ p ∈ w.files, IsResultFor config.separator w.disk p
      (ownResult (config.settings w.rules) (v.lost config w)
        (seededCache config w.disk store w.files) w.disk p))
    (hs : store'.cached? = savedOver
      (ownResult (config.settings w.rules) (v.lost config w)
        (seededCache config w.disk store w.files) w.disk) w.files store.cached?) :
    Knows config (history ++ [v]) store' := by
  intro p source hapart
  have hknown := h p source fun u hu => hapart u (List.mem_append_left _ hu)
  have hv : Apart config source v :=
    hapart v (List.mem_append_right _ (List.mem_singleton_self v))
  have hcache : seededCache config w.disk store w.files =
      some (seedCache w.disk store w.files).1 := if_pos huse
  rw [hcache] at hown hs
  rw [hs, List.findSome?_append, List.findSome?_singleton, scannedBy?_of_workload hw hdb]
  unfold savedOver
  by_cases hp : p ∈ w.files ∧ w.disk.readSource (.parse p) = .ok source
  · -- The file is read as it was asked for: its result is the stored one or that of a scan.
    obtain ⟨hfile, hread⟩ := hp
    have hvalue : ownResult (config.settings w.rules) (v.lost config w)
        (some (seedCache w.disk store w.files).1) w.disk p =
        (store.cached? p (contentHash source)).getD
          (scanApart (config.settings w.rules) (v.lost config w) p source) := by
      rw [ownResult_seedCache hfile, hread, ownResult_of_read hread]
      rfl
    rw [hvalue]
    cases hc : store.cached? p (contentHash source) with
    | some r =>
        obtain ⟨-, hhash, hok⟩ := Store.of_cached?_eq_some hc
        rw [hc] at hknown
        obtain ⟨rules, hrules, hr⟩ := Option.map_eq_some_iff.1 hknown.symm
        rw [Option.getD_some, if_pos ⟨hfile, hhash⟩, if_pos hok, hrules, Option.some_or,
          Option.map_some, hr]
    | none =>
        rw [hc] at hknown
        have hnone := Option.map_eq_none_iff.1 hknown.symm
        rw [Option.getD_none, hnone, Option.none_or]
        by_cases hok : (scanApart (config.settings w.rules) (v.lost config w) p source).isOk = true
        · obtain ⟨hlost, hscan⟩ := scanApart_isOk hok
          have hhash := (of_scanSource hscan).2
          rw [if_pos ⟨hfile, hhash⟩, if_pos hok, if_pos ⟨hfile, toOption_eq_some.2 hread, hok⟩,
            hlost]
          rfl
        · rw [if_neg hok, ite_self, if_neg fun h => hok h.2.2]
          rfl
  · -- Otherwise the command has no result of this content of the file.
    rw [if_neg, if_neg fun h => hp ⟨h.1, toOption_eq_some.1 h.2.1⟩, Option.or_none]
    · exact hknown
    · rintro ⟨hfile, hhash⟩
      obtain ⟨other, hother, hsame⟩ := (hown p hfile).digest _ hhash
      rw [hv other (mem_contents hw hfile hother) hsame] at hother
      exact hp ⟨hfile, hother⟩

/-- A command that changes no results. -/
theorem Knows.snoc_same {history : List Invocation} {v : Invocation} {store store' : Store}
    (h : Knows config history store) (hv : ∀ p source, v.scannedBy? config p source = none)
    (hs : store'.cached? = store.cached?) : Knows config (history ++ [v]) store' := by
  intro p source hapart
  rw [hs, h p source fun u hu => hapart u (List.mem_append_left _ hu), List.findSome?_append,
    List.findSome?_singleton, hv, Option.or_none]

/-- The store that a history leaves: its results are joined, and they are those of the scans by which
the contents were first scanned. -/
theorem Config.History.knows (hbase : ".." ∉ config.baseDir.names) {history : List Invocation}
    {store : Store} (h : config.History history store) :
    store.IsJoined config.separator ∧ (config.useCache = true → Knows config history store) := by
  induction h with
  | nil => exact ⟨isJoined_empty _, fun _ p source _ => rfl⟩
  | @snoc history store v _ hfound hdone ih =>
      obtain ⟨hj, hknows⟩ := ih
      cases hw : v.workload? config with
      | none =>
          have hdisk := (Invocation.outcome_of_workload?_eq_none hw).2
          rw [hdisk, hfound]
          refine ⟨hj, fun huse => (hknows huse).snoc_same (fun p source => ?_) rfl⟩
          unfold Invocation.scannedBy?
          rw [hw, Option.bind_none, ite_self]
      | some w =>
          cases hdb : v.request.useStore with
          | false =>
              rw [(Invocation.outcome_without_store hbase hw hdb hdone).2, hfound]
              exact ⟨hj, fun huse => (hknows huse).snoc_same (scannedBy?_eq_none hdb) rfl⟩
          | true =>
              have hj' : (config.storeOf v.disk).IsJoined config.separator := by
                rw [hfound]
                exact hj
              have hleft := (Invocation.outcome_with_store hbase hw hdb hdone hj').2
              rw [hfound] at hleft
              have hown : ∀ p ∈ w.files, IsResultFor config.separator w.disk p
                  (ownResult (config.settings w.rules) (v.lost config w)
                    (seededCache config w.disk store w.files) w.disk p) := by
                intro p hp
                have hsep : store.IsJoined (config.settings w.rules).separator := hj
                exact isResultFor_seeded hsep _ hp
              exact ⟨isJoined_of_savedOver hj hown hleft,
                fun huse => (hknows huse).snoc_store huse hw hdb hown hleft⟩

/-! ## Reports -/

/-- The printed text and the exit code depend on the results alone. -/
theorem Outcome.Reports.unique {o o' : Outcome} {request request' : ScanRequest}
    {results : List ScanResult} (h : o.Reports request results) (h' : o'.Reports request' results)
    (hjson : request'.asJson = request.asJson) (hsource : request'.showSource = request.showSource) :
    o'.printed = o.printed ∧ o'.exitCode = o.exitCode := by
  obtain ⟨⟨_, hits⟩, rfl, hprinted, hexit⟩ := h
  obtain ⟨⟨_, hits'⟩, rfl, hprinted', hexit'⟩ := h'
  refine ⟨?_, ?_⟩
  · rw [hprinted, hprinted']
    unfold printReport
    rw [hjson, hsource]
    rfl
  · rw [hexit, hexit']
    rfl

/-- A file of a command with a store has the result of a fresh scan by the rules that decide over it. -/
theorem ownResult_eq_freshResult {history : List Invocation} {store : Store} {w : Workload}
    (h : config.useCache = true → Knows config history store) {p : String} (hp : p ∈ w.files)
    (hapart : ∀ source, w.disk.readSource (.parse p) = .ok source →
      ∀ v ∈ history, Apart config source v) :
    ownResult (config.settings w.rules) none (seededCache config w.disk store w.files) w.disk p =
      freshResult (config.settings (config.rulesFor history w p)) w.disk p := by
  unfold freshResult Config.rulesFor seededCache
  cases huse : config.useCache with
  | false => rfl
  | true =>
      rw [if_pos rfl, if_pos rfl, ownResult_seedCache hp]
      cases hs : w.disk.readSource (.parse p) with
      | error e => rfl
      | ok source =>
          dsimp only [Option.bind, Except.toOption]
          rw [h huse p source (hapart source hs), ownResult_of_read hs, ownResult_of_read hs]
          cases history.findSome? (·.scannedBy? config p source) <;> rfl

/-- Rules that never changed are the rules that decide. -/
theorem Config.rulesFor_of_unchanged {history : List Invocation} {w : Workload}
    (h : ∀ v ∈ history, ∀ u, v.workload? config = some u → u.rules = w.rules) (p : String) :
    config.rulesFor history w p = w.rules := by
  unfold Config.rulesFor
  split
  · cases (w.disk.readSource (.parse p)).toOption with
    | none => rfl
    | some source =>
        show (history.findSome? (·.scannedBy? config p source)).getD w.rules = w.rules
        cases hf : history.findSome? (·.scannedBy? config p source) with
        | none => rfl
        | some rules =>
            obtain ⟨v, hv, hrules⟩ := List.exists_of_findSome?_eq_some hf
            unfold Invocation.scannedBy? at hrules
            split at hrules
            · obtain ⟨u, hu, hrules⟩ := Option.bind_eq_some_iff.1 hrules
              split at hrules
              · cases hrules
                exact h v hv u hu
              · cases hrules
            · cases hrules
  · rfl

/-- The results that a command with a store shows are those of a fresh scan, but for each file by the
rules that decide over it.  Where these give the same as the rules in force now, and so wherever the
rules have never changed, the same command without a store shows the same. -/
theorem outcome_follows_first_rules (hbase : ".." ∉ config.baseDir.names)
    {history : List Invocation} {store : Store} (hh : config.History history store)
    {next : Invocation} (hstore : config.storeOf next.disk = store)
    (hdb : next.request.useStore = true) (hworkers : next.workerFault = none)
    (hdone : (next.outcome config).fault = none)
    (hdigest : ∀ v ∈ history, ∀ old ∈ v.contents config, ∀ new ∈ next.contents config,
      contentHash old = contentHash new → old = new) :
    match next.workload? config with
    | none => next.withoutStore.outcome config = next.outcome config
    | some w =>
      (next.outcome config).Reports next.request (w.files.map fun p =>
        freshResult (config.settings (config.rulesFor history w p)) w.disk p) ∧
      ((next.withoutStore.outcome config).fault = none →
        (next.withoutStore.outcome config).Reports next.request
          (w.files.map (freshResult (config.settings w.rules) w.disk)) ∧
        ((∀ p ∈ w.files, freshResult (config.settings (config.rulesFor history w p)) w.disk p =
            freshResult (config.settings w.rules) w.disk p) →
          (next.withoutStore.outcome config).printed = (next.outcome config).printed ∧
          (next.withoutStore.outcome config).exitCode = (next.outcome config).exitCode)) ∧
      ((∀ v ∈ history, ∀ u, v.workload? config = some u → u.rules = w.rules) →
        ∀ p, config.rulesFor history w p = w.rules) := by
  obtain ⟨hj, hknows⟩ := hh.knows hbase
  cases hw : next.workload? config with
  | none => exact (Invocation.outcome_of_workload?_eq_none hw).1.symm
  | some w =>
      rw [← hstore] at hj hknows
      have hwith := (Invocation.outcome_with_store hbase hw hdb hdone hj).1
      have hlost : next.lost config w = none := lostWorker_of_fault_eq_none hworkers _ _ _
      rw [hlost] at hwith
      have hresults : (next.outcome config).Reports next.request (w.files.map fun p =>
          freshResult (config.settings (config.rulesFor history w p)) w.disk p) := by
        rw [List.map_congr_left fun p hp => ownResult_eq_freshResult hknows hp ?_] at hwith
        · exact hwith
        · intro source hs v hv old hold heq
          exact hdigest v hv old hold source (mem_contents hw hp hs) heq
      refine ⟨hresults, fun hdone' => ?_, Config.rulesFor_of_unchanged⟩
      have hw' : next.withoutStore.workload? config = some w := hw
      have hwithout := (Invocation.outcome_without_store hbase hw' rfl hdone').1 hworkers
      refine ⟨hwithout, fun hsame => ?_⟩
      rw [List.map_congr_left hsame] at hresults
      exact hresults.unique hwithout rfl rfl

/-! ## Two scans of one file

The first scan knows one keyword, which the file does not use.  The second has the standard rules. -/

def localConfig : Config := .ofBase ⟨0, [".sql-extract"]⟩

def bytesOfText (text : String) : Bytes := Utf8.encode text.toList

def oneFile : Disk :=
  .directory (.cons "A.java" (.file (bytesOfText "String s = \"DELETE FROM t\";"))
    (.cons "rules.json" (.file (bytesOfText "\x7b\"sql_keywords\": [\"SELECT\"]\x7d")) .nil))

def scanOfFile (rulesPath : Option Path) : ScanRequest where
  paths := [⟨0, ["A.java"]⟩]
  asJson := false
  workers := none
  rulesPath
  useStore := true
  showSource := false

def firstScan : Invocation where
  request := scanOfFile (some ⟨0, ["rules.json"]⟩)
  occasion := ⟨"2026-01-01 00:00:00", "2026-01-01", "first"⟩
  workerFault := none
  disk := oneFile

def secondScan : Invocation where
  request := scanOfFile none
  occasion := ⟨"2026-01-01 00:00:01", "2026-01-01", "second"⟩
  workerFault := none
  disk := (firstScan.outcome localConfig).disk

theorem history_firstScan :
    localConfig.History [firstScan] (localConfig.storeOf secondScan.disk) :=
  .snoc .nil (by decide +kernel) (Option.isNone_iff_eq_none.1 (by decide +kernel))

theorem fault_secondScan : (secondScan.outcome localConfig).fault = none :=
  Option.isNone_iff_eq_none.1 (by decide +kernel)

theorem contents_apart : ∀ v ∈ [firstScan], ∀ old ∈ v.contents localConfig,
    ∀ new ∈ secondScan.contents localConfig, contentHash old = contentHash new → old = new := by
  decide +kernel

/-- The second scan shows what a fresh one would by the rules of the first. -/
theorem secondScan_follows_first_rules :
    ∃ w, secondScan.workload? localConfig = some w ∧
      (secondScan.outcome localConfig).Reports secondScan.request (w.files.map fun p =>
        freshResult (localConfig.settings (localConfig.rulesFor [firstScan] w p)) w.disk p) := by
  have hw : (secondScan.workload? localConfig).isSome = true := by decide +kernel
  obtain ⟨w, hw⟩ := Option.isSome_iff_exists.1 hw
  have h := outcome_follows_first_rules (by decide) history_firstScan rfl rfl rfl fault_secondScan
    contents_apart
  rw [hw] at h
  exact ⟨w, hw, h.1⟩

/-- Reuse can show: without the store, the second scan finds the statement. -/
theorem secondScan_differs_without_store :
    localConfig.History [firstScan] (localConfig.storeOf secondScan.disk) ∧
      (secondScan.outcome localConfig).fault = none ∧
      (secondScan.withoutStore.outcome localConfig).fault = none ∧
      (∀ v ∈ [firstScan], ∀ old ∈ v.contents localConfig,
        ∀ new ∈ secondScan.contents localConfig, contentHash old = contentHash new → old = new) ∧
      (secondScan.withoutStore.outcome localConfig).printed ≠
        (secondScan.outcome localConfig).printed := by
  refine ⟨history_firstScan, fault_secondScan, ?_, contents_apart, ?_⟩
  · exact Option.isNone_iff_eq_none.1 (by decide +kernel)
  · decide +kernel

end EmbeddedSql
