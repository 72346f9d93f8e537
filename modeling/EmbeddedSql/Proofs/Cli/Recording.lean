/-
# What a run with a store reads and leaves

A run looks up the results that the store holds for its files as they are, scans the rest, and saves
every result that has a digest.  So each file has the stored result or its own (`ownResult_seedCache`),
and afterwards the store holds, for the files of the run as they are, what the run found where that has
no error, and for everything else what it held before (`scanWithStore_leaves`).

The events and the record of the run go to the same store, but to other parts of it.
-/
import EmbeddedSql.Cli.Scan
import EmbeddedSql.Proofs.Scan.Isolation
import EmbeddedSql.Proofs.Store.Cached
import EmbeddedSql.Proofs.Store.Transaction

namespace EmbeddedSql

/-! ## Looking up -/

namespace Store

theorem of_cached?_eq_some {s : Store} {filePath hash : String} {r : ScanResult}
    (h : s.cached? filePath hash = some r) :
    r.filePath = filePath ∧ r.contentHash = some hash ∧ r.isOk = true := by
  unfold cached? at h
  split at h
  · cases h
  · split at h
    · cases h
    · cases h
      exact ⟨rfl, rfl, rfl⟩

/-- Every stored result has joined candidates. -/
def IsJoined (separator : Text) (s : Store) : Prop :=
  ∀ filePath hash r, s.cached? filePath hash = some r →
    ∀ c ∈ r.candidates, c.IsJoined separator

end Store

theorem ResultCache.get?_put_ok {cache : ResultCache} {r : ScanResult} {hash : String}
    (hr : r.contentHash = some hash) (hok : r.isOk = true) (p h : String) :
    (cache.put r).get? p h =
      if (p, h) = (r.filePath, hash) then some ((cache.get? p h).getD r) else cache.get? p h := by
  unfold put
  rw [hr]
  dsimp only
  cases hold : cache.get? r.filePath hash with
  | some old =>
      rw [hok, Option.isNone_some, Bool.and_false, if_neg (by decide)]
      split
      · next heq =>
          obtain ⟨rfl, rfl⟩ := Prod.mk.inj heq
          rw [hold]
          rfl
      · rfl
  | none =>
      rw [hok, Option.isNone_none, Bool.and_true, if_pos rfl]
      unfold get? at hold ⊢
      rw [List.lookup_append]
      split
      · next heq =>
          obtain ⟨rfl, rfl⟩ := Prod.mk.inj heq
          rw [hold, List.lookup_cons, beq_self_eq_true]
          rfl
      · next hne =>
          rw [List.lookup_cons, beq_false_of_ne hne]
          exact Option.or_none

/-- A cache that holds nothing but what the store does. -/
def ResultCache.Within (store : Store) (cache : ResultCache) : Prop :=
  ∀ p h r, cache.get? p h = some r → store.cached? p h = some r

theorem ResultCache.Within.get?_put {store : Store} {cache : ResultCache} (hw : cache.Within store)
    {file hash : String} {r : ScanResult} (hr : store.cached? file hash = some r) (p h : String) :
    (cache.put r).get? p h =
      if (p, h) = (file, hash) then store.cached? p h else cache.get? p h := by
  obtain ⟨hpath, hhash, hok⟩ := Store.of_cached?_eq_some hr
  rw [get?_put_ok hhash hok, hpath]
  split
  · next heq =>
      obtain ⟨rfl, rfl⟩ := Prod.mk.inj heq
      cases hold : cache.get? p h with
      | none => exact hr.symm
      | some old => exact (hw p h old hold).symm
  · rfl

/-- The cache with what the store holds for one more file. -/
def seedFile (disk : Disk) (store : Store) (seed : ResultCache × Nat) (file : String) :
    ResultCache × Nat :=
  match disk.readSource (.parse file) with
  | .error _ => seed
  | .ok source =>
    match store.cached? file (contentHash source) with
    | some r => (seed.1.put r, seed.2 + 1)
    | none => seed

theorem seedCache_eq (disk : Disk) (store : Store) (files : List String) :
    seedCache disk store files = files.foldl (seedFile disk store) (.empty, 0) := rfl

/-- A file that is gone through has in the cache what the store holds for it, and so has every key that
had it before. -/
theorem ResultCache.Within.seedFile {store : Store} {seed : ResultCache × Nat}
    (hw : seed.1.Within store) (disk : Disk) (file : String) :
    (seedFile disk store seed file).1.Within store ∧
      (∀ p h, seed.1.get? p h = store.cached? p h →
        (seedFile disk store seed file).1.get? p h = store.cached? p h) ∧
      ∀ source, disk.readSource (.parse file) = .ok source →
        (seedFile disk store seed file).1.get? file (contentHash source) =
          store.cached? file (contentHash source) := by
  unfold EmbeddedSql.seedFile
  cases hs : disk.readSource (.parse file) with
  | error e =>
      refine ⟨hw, fun p h hp => hp, ?_⟩
      rintro source ⟨⟩
  | ok source =>
      dsimp only
      cases hc : store.cached? file (contentHash source) with
      | none =>
          refine ⟨hw, fun p h hp => hp, ?_⟩
          rintro _ ⟨⟩
          cases hg : seed.1.get? file (contentHash source) with
          | none => exact hc.symm
          | some r => exact (hw _ _ _ hg).symm
      | some r =>
          refine ⟨fun p h r' hg => ?_, fun p h hp => ?_, ?_⟩
          · rw [hw.get?_put hc] at hg
            split at hg
            · exact hg
            · exact hw p h r' hg
          · rw [hw.get?_put hc, hp, ite_self]
          · rintro _ ⟨⟩
            rw [hw.get?_put hc, if_pos rfl]

/-- A file of the run that can be read is looked up in the store. -/
theorem get?_seedCache {disk : Disk} {store : Store} {files : List String} {p source : String}
    (hp : p ∈ files) (hs : disk.readSource (.parse p) = .ok source) :
    (seedCache disk store files).1.get? p (contentHash source) =
      store.cached? p (contentHash source) := by
  suffices ∀ seed : ResultCache × Nat, seed.1.Within store →
      (p ∈ files ∨ seed.1.get? p (contentHash source) = store.cached? p (contentHash source)) →
      (files.foldl (seedFile disk store) seed).1.get? p (contentHash source) =
        store.cached? p (contentHash source) by
    rw [seedCache_eq]
    exact this (.empty, 0) (by rintro q h r ⟨⟩) (.inl hp)
  clear hp
  induction files with
  | nil =>
      rintro seed - (hp | hp)
      · cases hp
      · exact hp
  | cons file rest ih =>
      intro seed hw hp
      obtain ⟨hw', hkeep, hself⟩ := hw.seedFile disk file
      rw [List.foldl_cons]
      refine ih _ hw' ?_
      rcases hp with hp | hp
      · rcases List.mem_cons.1 hp with rfl | hp
        · exact .inr (hself source hs)
        · exact .inl hp
      · exact .inr (hkeep _ _ hp)

/-- A file of the run has the result that the store holds for it as it is, or its own. -/
theorem ownResult_seedCache {settings : Settings} {lost : Option String} {disk : Disk}
    {store : Store} {files : List String} {p : String} (hp : p ∈ files) :
    ownResult settings lost (some (seedCache disk store files).1) disk p =
      ((disk.readSource (.parse p)).toOption.bind fun source =>
        store.cached? p (contentHash source)).getD (ownResult settings lost none disk p) := by
  unfold ownResult intakeOf
  dsimp only
  cases hs : disk.readSource (.parse p) with
  | error e => cases e <;> rfl
  | ok source =>
      dsimp only [Option.bind, Except.toOption]
      rw [get?_seedCache hp hs]
      cases store.cached? p (contentHash source) <;> rfl

/-! ## A file's own result -/

/-- A result for a file: it names the file, its candidates are joined, and its digest, if it has one,
is that of the file as it is. -/
structure IsResultFor (separator : Text) (disk : Disk) (p : String) (r : ScanResult) : Prop where
  filePath : r.filePath = p
  joined : ∀ c ∈ r.candidates, c.IsJoined separator
  digest : ∀ hash, r.contentHash = some hash →
    ∃ source, disk.readSource (.parse p) = .ok source ∧ contentHash source = hash

theorem isResultFor_failed (separator : Text) (disk : Disk) (p reason : String) :
    IsResultFor separator disk p (.failed p reason) := by
  refine ⟨rfl, ?_, ?_⟩
  · intro c hc
    cases hc
  · intro hash hr
    cases hr

theorem isResultFor_scanApart {settings : Settings} {disk : Disk} {p source : String}
    (h : disk.readSource (.parse p) = .ok source) (lost : Option String) :
    IsResultFor settings.separator disk p (scanApart settings lost p source) := by
  unfold scanApart
  cases lost with
  | some reason => exact isResultFor_failed _ _ _ _
  | none =>
      dsimp only
      cases hr : scanSource settings p source with
      | error e => exact isResultFor_failed _ _ _ _
      | ok r =>
          obtain ⟨hpath, hhash⟩ := of_scanSource hr
          refine ⟨hpath, isJoined_of_mem_scanSource hr, fun hash hd => ⟨source, h, ?_⟩⟩
          rw [hhash] at hd
          exact Option.some.inj hd

theorem isResultFor_ownResult (settings : Settings) (lost : Option String) (disk : Disk)
    (p : String) :
    IsResultFor settings.separator disk p (ownResult settings lost none disk p) := by
  cases hs : disk.readSource (.parse p) with
  | error e =>
      unfold ownResult intakeOf
      dsimp only
      rw [hs]
      cases e <;> exact isResultFor_failed _ _ _ _
  | ok source =>
      rw [ownResult_of_read hs]
      exact isResultFor_scanApart hs lost

/-! ## Recording -/

/-- A journal with an open store that holds the same results as another store. -/
def Journal.Holds (j : Journal) (cached : String → String → Option ScanResult) : Prop :=
  ∃ c, j.connection = some c ∧ c.store.cached? = cached

variable {cached : String → String → Option ScanResult}

/-- An event changes no results. -/
theorem Journal.Holds.record {j : Journal} (h : j.Holds cached) (now : String) (e : Occurrence) :
    (j.record now e).Holds cached := by
  obtain ⟨c, hc, hcached⟩ := h
  unfold Journal.record
  rw [hc]
  dsimp only
  unfold Connection.logEvent?
  split
  · next c' hlog =>
      split at hlog
      · cases hlog
      · obtain ⟨store, hstore, rfl⟩ := Option.map_eq_some_iff.1 hlog
        exact ⟨_, rfl, (Store.sameResults_logEvent? hstore).cached?_eq.trans hcached⟩
  · exact ⟨c, rfl, hcached⟩

/-- What is found where files with these results are saved on top of others. -/
def savedOver (own : String → ScanResult) (files : List String)
    (cached : String → String → Option ScanResult) (p h : String) : Option ScanResult :=
  if p ∈ files ∧ (own p).contentHash = some h then
    if (own p).isOk then some (own p) else none
  else cached p h

theorem Connection.save_leaves {c c' : Connection} {runId : String} {r : ScanResult}
    {separator : Text} (hj : ∀ c ∈ r.candidates, c.IsJoined separator)
    (h : c.save (some runId) r = .ok c') (p hash : String) :
    c'.store.cached? p hash =
      if p = r.filePath ∧ r.contentHash = some hash then (if r.isOk then some r else none)
      else c.store.cached? p hash := by
  cases hr : r.contentHash with
  | none =>
      unfold Connection.save attemptSave at h
      rw [ScanResult.given, hr] at h
      cases h
      rw [if_neg]
      rintro ⟨-, hn⟩
      cases hn
  | some digest =>
      have hsave := store_of_save hr h
      split
      · next heq =>
          obtain ⟨rfl, hd⟩ := heq
          cases hd
          exact Store.cached?_save_self hr hj hsave
      · next hne =>
          refine Store.cached?_save_of_ne hr hsave fun heq => hne ?_
          cases heq
          exact ⟨rfl, rfl⟩

theorem recordResults_leaves {separator : Text} {disk : Disk} {own : String → ScanResult}
    {now runId : String} {j j' : Journal} {files : List String}
    (hown : ∀ p ∈ files, IsResultFor separator disk p (own p)) (hj : j.Holds cached)
    (h : recordResults now (some runId) j (files.map own) = (j', .ok ())) :
    j'.Holds (savedOver own files cached) := by
  induction files generalizing j cached with
  | nil =>
      cases h
      obtain ⟨c, hc, hcached⟩ := hj
      refine ⟨c, hc, ?_⟩
      funext p hash
      rw [hcached, savedOver, if_neg]
      rintro ⟨hm, -⟩
      cases hm
  | cons file rest ih =>
      obtain ⟨c, hc, hcached⟩ := hj.record now (.ofResult (some runId) (own file))
      have hfile := hown file List.mem_cons_self
      rw [List.map_cons, recordResults, hc] at h
      dsimp only at h
      cases hsave : c.save (some runId) (own file) with
      | error e => rw [hsave] at h; cases h
      | ok c' =>
          rw [hsave] at h
          obtain ⟨c'', hc'', hfinal⟩ :=
            ih (fun p hp => hown p (List.mem_cons_of_mem _ hp)) ⟨c', rfl, rfl⟩ h
          refine ⟨c'', hc'', ?_⟩
          rw [hfinal]
          funext p hash
          have hsaved := Connection.save_leaves hfile.joined hsave p hash
          rw [hfile.filePath, hcached] at hsaved
          unfold savedOver
          by_cases hd : (own p).contentHash = some hash
          · by_cases hrest : p ∈ rest
            · have hm : p ∈ file :: rest := List.mem_cons_of_mem _ hrest
              simp only [hrest, hm, hd, and_self, if_true]
            · by_cases hp : p = file
              · subst hp
                simp only [hrest, hd, hsaved, List.mem_cons_self, and_self, false_and, if_true,
                  if_false]
              · have hm : p ∉ file :: rest := fun hm => (List.mem_cons.1 hm).elim hp hrest
                simp only [hrest, hm, hp, hsaved, false_and, if_false]
          · have hp : ¬ (p = file ∧ (own file).contentHash = some hash) := by
              rintro ⟨rfl, hf⟩
              exact hd hf
            simp only [hd, hp, hsaved, and_false, if_false]

/-! ## Runs -/

theorem seedCache_congr {disk : Disk} {s s' : Store} (h : s'.cached? = s.cached?)
    (files : List String) : seedCache disk s' files = seedCache disk s files := by
  unfold seedCache
  rw [h]

/-- What keeps a pending file of a scan from being scanned. -/
def lostWorker (workers : Workers) (cache : Option ResultCache) (disk : Disk)
    (files : List String) : Option String :=
  if sharesWork workers.count (pendingPaths cache disk files).length then workers.fault else none

theorem results_of_scanFiles {settings : Settings} {workers : Workers}
    {cache : Option ResultCache} {disk : Disk} {files : List String}
    {out : List ScanResult × Option ResultCache}
    (h : scanFiles settings workers cache disk files = .ok out) :
    out.1 = files.map (ownResult settings (lostWorker workers cache disk files) cache disk) :=
  results_of_scanFilesBy h

theorem lostWorker_of_fault_eq_none {workers : Workers} (h : workers.fault = none)
    (cache : Option ResultCache) (disk : Disk) (files : List String) :
    lostWorker workers cache disk files = none := by
  unfold lostWorker
  rw [h, ite_self]

/-- An empty cache is as good as none. -/
theorem ownResult_empty (settings : Settings) (lost : Option String) (disk : Disk) (p : String) :
    ownResult settings lost (some .empty) disk p = ownResult settings lost none disk p := rfl

/-- The ways in which the work of a run comes out, with what is recorded then. -/
inductive WorkedOut (settings : Settings) (workers : Workers) (now : String) (disk : Disk)
    (opening : Except JournalError Unit) (runId : Option String) (cache : Option ResultCache)
    (cacheHits : Nat) (files : List String) (j : Journal) : Journal × Except Fault ScanReport → Prop
  | unopened {e : JournalError} : opening = .error e →
      WorkedOut settings workers now disk opening runId cache cacheHits files j (j, .error (.journal e))
  | unscanned {e : ScanError} : opening = .ok () → scanFiles settings workers cache disk files = .error e →
      WorkedOut settings workers now disk opening runId cache cacheHits files j
        (j.record now (runEvent runId [] (some e.message)), .error (.scan e))
  | unsaved {results : List ScanResult} {cache' : Option ResultCache} {j₁ : Journal} {e : StoreError} :
      opening = .ok () → scanFiles settings workers cache disk files = .ok (results, cache') →
      recordResults now runId j results = (j₁, .error e) →
      WorkedOut settings workers now disk opening runId cache cacheHits files j
        (j₁.record now (runEvent runId [] (some e.message)), .error (.store e))
  | reported {results : List ScanResult} {cache' : Option ResultCache} {j₁ : Journal} :
      opening = .ok () → scanFiles settings workers cache disk files = .ok (results, cache') →
      recordResults now runId j results = (j₁, .ok ()) →
      WorkedOut settings workers now disk opening runId cache cacheHits files j
        (j₁.record now (runEvent runId (ScanReport.context ⟨results, cacheHits⟩) none),
          .ok ⟨results, cacheHits⟩)

theorem workedOut_scanAndRecord (settings : Settings) (workers : Workers) (now : String) (disk : Disk)
    (opening : Except JournalError Unit) (runId : Option String) (cache : Option ResultCache)
    (cacheHits : Nat) (files : List String) (j : Journal) :
    WorkedOut settings workers now disk opening runId cache cacheHits files j
      (scanAndRecord settings workers now disk opening runId cache cacheHits files j) := by
  unfold scanAndRecord
  split
  · exact .unopened rfl
  · split
    · next hscan => exact .unscanned rfl hscan
    · next hscan =>
        split
        · next hrecord => exact .unsaved rfl hscan hrecord
        · next hrecord => exact .reported rfl hscan hrecord

theorem scanAndRecord_ok {settings : Settings} {workers : Workers} {now : String} {disk : Disk}
    {opening : Except JournalError Unit} {runId : Option String} {cache : Option ResultCache}
    {cacheHits : Nat} {files : List String} {j j' : Journal} {report : ScanReport}
    (h : scanAndRecord settings workers now disk opening runId cache cacheHits files j = (j', .ok report)) :
    report.results = files.map (ownResult settings (lostWorker workers cache disk files) cache disk) ∧
      ∃ j₁, recordResults now runId j report.results = (j₁, .ok ()) ∧
        j' = j₁.record now (runEvent runId report.context none) := by
  have hout := workedOut_scanAndRecord settings workers now disk opening runId cache cacheHits files j
  rw [h] at hout
  cases hout with
  | reported _ hscan hrecord => exact ⟨results_of_scanFiles hscan, _, hrecord, rfl⟩

theorem Journal.connection_record_of_none {j : Journal} (h : j.connection = none) (now : String)
    (e : Occurrence) : (j.record now e).connection = none := by
  unfold Journal.record
  rw [h]

theorem recordResults_of_none {now : String} {runId : Option String} {j j' : Journal}
    {results : List ScanResult} {o : Except StoreError Unit} (hj : j.connection = none)
    (h : recordResults now runId j results = (j', o)) : j'.connection = none := by
  induction results generalizing j with
  | nil =>
      cases h
      exact hj
  | cons r rest ih =>
      have hr := Journal.connection_record_of_none hj now (.ofResult runId r)
      rw [recordResults, hr] at h
      exact ih hr h

/-- A run without a store reports each file's own result and has no store to write. -/
theorem scanWithoutStore_leaves {config : Config} {settings : Settings} {workers : Workers}
    {occasion : Occasion} {disk : Disk} {files : List String} {j : Journal} {report : ScanReport}
    (h : scanWithoutStore config settings workers occasion disk files = (j, .ok report)) :
    j.connection = none ∧
      (workers.fault = none → report.results = files.map (ownResult settings none none disk)) := by
  obtain ⟨hresults, j₁, hrecord, rfl⟩ := scanAndRecord_ok h
  refine ⟨?_, fun hf => ?_⟩
  · exact Journal.connection_record_of_none (recordResults_of_none rfl hrecord) _ _
  · rw [hresults, lostWorker_of_fault_eq_none hf]
    refine List.map_congr_left fun p _ => ?_
    cases config.useCache
    · rfl
    · exact ownResult_empty settings none disk p

/-- The cache that a run with a store begins with. -/
def seededCache (config : Config) (disk : Disk) (store : Store) (files : List String) :
    Option ResultCache :=
  if config.useCache then some (seedCache disk store files).1 else none

theorem seededCache_congr (config : Config) {disk : Disk} {s s' : Store} (h : s'.cached? = s.cached?)
    (files : List String) : seededCache config disk s' files = seededCache config disk s files := by
  unfold seededCache
  rw [seedCache_congr h]

/-- With the cache of a store, a file has the result that the store holds for it as it is, or its own. -/
theorem ownResult_seeded (config : Config) (settings : Settings) (lost : Option String) (disk : Disk)
    (store : Store) {files : List String} {p : String} (hp : p ∈ files) :
    let result := ownResult settings lost (seededCache config disk store files) disk p
    (∃ source r, disk.readSource (.parse p) = .ok source ∧
      store.cached? p (contentHash source) = some r ∧ result = r) ∨
      result = ownResult settings lost none disk p := by
  intro result
  show (∃ source r, _ ∧ _ ∧ ownResult settings lost (seededCache config disk store files) disk p = r) ∨
    ownResult settings lost (seededCache config disk store files) disk p = _
  unfold seededCache
  split
  · rw [ownResult_seedCache hp]
    cases hread : disk.readSource (.parse p) with
    | error e => exact .inr rfl
    | ok source =>
        dsimp only [Option.bind, Except.toOption]
        cases hc : store.cached? p (contentHash source) with
        | none => exact .inr rfl
        | some r => exact .inl ⟨source, r, rfl, hc, rfl⟩
  · exact .inr rfl

theorem isResultFor_seeded {config : Config} {settings : Settings} {disk : Disk} {store : Store}
    {files : List String} (hs : store.IsJoined settings.separator) (lost : Option String)
    {p : String} (hp : p ∈ files) :
    IsResultFor settings.separator disk p
      (ownResult settings lost (seededCache config disk store files) disk p) := by
  rcases ownResult_seeded config settings lost disk store hp with ⟨source, r, hread, hc, heq⟩ | heq
  · obtain ⟨hpath, hhash, -⟩ := Store.of_cached?_eq_some hc
    rw [heq]
    refine ⟨hpath, hs _ _ r hc, fun hash h => ⟨source, hread, ?_⟩⟩
    rw [hhash] at h
    exact Option.some.inj h
  · rw [heq]
    exact isResultFor_ownResult settings lost disk p

/-- A run with a store that comes to its end: it is created, scans with the cache that the store gives, and
is finished in the store that its results have been saved in. -/
theorem scanWithStore_ok {config : Config} {settings : Settings} {workers : Workers}
    {occasion : Occasion} {disk : Disk} {paths : List Path} {files : List String} {c : Connection}
    {j : Journal} {report : ScanReport}
    (h : scanWithStore config settings workers occasion disk paths files c = (j, .ok report)) :
    ∃ run c₁ j₁ cacheHits,
      c.store.createRun occasion.now occasion.freshId (some (rootText paths)) = .ok (run, c₁.store) ∧
      scanAndRecord settings workers occasion.now disk (openJournal config occasion.day disk) (some run.id)
        (seededCache config disk c₁.store files) cacheHits files ⟨[], some c₁, []⟩ = (j₁, .ok report) ∧
      ∀ c₂, j₁.connection = some c₂ → ∃ finished c₃,
        c₂.store.finishRun occasion.now run.id report.status = .ok (finished, c₃.store) ∧
        j = { j₁ with connection := some c₃ } := by
  unfold scanWithStore at h
  dsimp only at h
  split at h
  · cases h
  · next run c₁ hcreate =>
      split at h
      · cases h
      · next j₁ report₁ hscan =>
          have hcache : (if config.useCache = true then
              some (if config.useCache = true then seedCache disk c₁.store files
                else (ResultCache.empty, 0)).1 else none) = seededCache config disk c₁.store files := by
            unfold seededCache
            split <;> rfl
          rw [hcache] at hscan
          split at h
          · next hnone =>
              cases h
              exact ⟨run, c₁, _, _, Connection.update_ok hcreate, hscan,
                fun c₂ hc₂ => absurd (hnone.symm.trans hc₂) (Option.some_ne_none c₂).symm⟩
          · next c₂ hc₂ =>
              split at h
              · cases h
              · next finished c₃ hfinish =>
                  cases h
                  refine ⟨run, c₁, j₁, _, Connection.update_ok hcreate, hscan, fun c hc => ?_⟩
                  obtain rfl := Option.some.inj (hc₂.symm.trans hc)
                  exact ⟨finished, c₃, Connection.update_ok hfinish, rfl⟩

/-- A run with a store reports for each file the result that the store holds for it as it is, or else
its own, and leaves what it reports in the store. -/
theorem scanWithStore_leaves {config : Config} {settings : Settings} {workers : Workers}
    {occasion : Occasion} {disk : Disk} {paths : List Path} {files : List String} {c : Connection}
    {j : Journal} {report : ScanReport} (hs : c.store.IsJoined settings.separator)
    (h : scanWithStore config settings workers occasion disk paths files c = (j, .ok report)) :
    let cache := seededCache config disk c.store files
    let own := ownResult settings (lostWorker workers cache disk files) cache disk
    report.results = files.map own ∧ j.Holds (savedOver own files c.store.cached?) := by
  intro cache own
  obtain ⟨run, c₁, j₁, cacheHits, hcreate, hscan, hfinished⟩ := scanWithStore_ok h
  have hsame : c₁.store.cached? = c.store.cached? := (Store.sameResults_createRun hcreate).cached?_eq
  rw [seededCache_congr config hsame] at hscan
  obtain ⟨hresults, j₂, hrecord, rfl⟩ := scanAndRecord_ok hscan
  rw [hresults] at hrecord
  have hown : ∀ p ∈ files, IsResultFor settings.separator disk p (own p) := fun p hp =>
    isResultFor_seeded hs _ hp
  obtain ⟨c₂, hc₂, hcached⟩ := (recordResults_leaves hown ⟨c₁, rfl, hsame⟩ hrecord).record
    occasion.now (runEvent (some run.id) report.context none)
  obtain ⟨finished, c₃, hfinish, rfl⟩ := hfinished c₂ hc₂
  refine ⟨hresults, c₃, rfl, ?_⟩
  rw [← hcached]
  exact (Store.sameResults_finishRun hfinish).cached?_eq

end EmbeddedSql
