/-
# Files do not disturb each other

A file has a result of its own (`ownResult`), which depends on its path, on what is read there, on what
is kept for it and on what it is scanned with, but on no other file.  When files are scanned together
and the scan completes, each of them has that result, in whatever order workers are done with them,
however many workers and files there are and however often a path is named.

Not every scan completes.  A path that is no path at all ends it, and too many workers do; and where
the pending files are scanned in turn, a single file whose scan fails takes the results of all others
with it.  Workers, in contrast, turn every failure into the result of its file.
-/
import Mathlib.Data.List.Dedup
import EmbeddedSql.Proofs.Fallible
import EmbeddedSql.Scan.Files

namespace EmbeddedSql

namespace ByPath

variable {α : Type}

theorem keys_set (m : ByPath α) (path : String) (a : α) :
    (m.set path a).map Prod.fst =
      if path ∈ m.map Prod.fst then m.map Prod.fst else m.map Prod.fst ++ [path] := by
  induction m with
  | nil => rfl
  | cons e rest ih =>
      obtain ⟨k, b⟩ := e
      by_cases hk : k = path
      · simp [set, hk]
      · have hp : ¬ path = k := fun h => hk h.symm
        simp only [set, beq_iff_eq, hk, if_false, List.map_cons, ih, List.mem_cons, hp, false_or]
        split <;> rfl

theorem nodup_set {m : ByPath α} (h : (m.map Prod.fst).Nodup) (path : String) (a : α) :
    ((m.set path a).map Prod.fst).Nodup := by
  rw [keys_set]
  split
  · exact h
  · next hn => exact List.nodup_append_comm.1 (List.nodup_cons.2 ⟨hn, h⟩)

theorem get?_eq_some_iff {m : ByPath α} (h : (m.map Prod.fst).Nodup) {path : String} {a : α} :
    m.get? path = some a ↔ (path, a) ∈ m := by
  induction m with
  | nil => simp [get?]
  | cons e rest ih =>
      obtain ⟨k, b⟩ := e
      rw [List.map_cons, List.nodup_cons] at h
      rw [get?_cons, List.mem_cons, Prod.mk.injEq]
      by_cases hk : path = k
      · have hn : (k, a) ∉ rest := fun hm => h.1 (List.mem_map.2 ⟨(k, a), hm, rfl⟩)
        simp only [hk, if_true, Option.some.injEq, true_and, hn, or_false, eq_comm]
      · simp only [hk, if_false, false_and, false_or]
        exact ih h.2

/-- The order of entries does not matter. -/
theorem get?_perm {m m' : ByPath α} (hp : m.Perm m') (h : (m.map Prod.fst).Nodup)
    (path : String) : m'.get? path = m.get? path := by
  have h' : (m'.map Prod.fst).Nodup := (hp.map Prod.fst).nodup_iff.1 h
  refine Option.ext fun a => ?_
  rw [get?_eq_some_iff h, get?_eq_some_iff h', hp.mem_iff]

end ByPath

variable {σ : Type}

/-! ## Reading -/

theorem walk_ne_holdsNul (above : List (Node σ)) (node : Node σ) (names : List String) :
    node.walk above names ≠ .error .holdsNul := by
  fun_induction Node.walk above node names with
  | case1 => intro h; cases h
  | case2 _ _ _ _ ih => exact ih
  | case3 _ _ ih => exact ih
  | case4 _ _ _ _ _ _ _ ih => exact ih
  | case5 => split <;> intro h <;> cases h
  | case6 => intro h; cases h

theorem lookUp_eq_holdsNul_iff (tree : Node σ) (path : Path) :
    tree.lookUp path = .error .holdsNul ↔ path.holdsNul := by
  unfold Node.lookUp
  by_cases hn : path.holdsNul
  · rw [if_pos hn]
    exact iff_of_true rfl hn
  · rw [if_neg hn]
    refine iff_of_false ?_ hn
    split
    · intro h; cases h
    · exact walk_ne_holdsNul _ _ _

theorem readSource_eq_holdsNul_iff (tree : Node σ) (path : Path) :
    tree.readSource path = .error .holdsNul ↔ path.holdsNul := by
  rw [← lookUp_eq_holdsNul_iff tree path]
  unfold Node.readSource Node.readBytes
  cases tree.lookUp path with
  | ok node => cases node <;> simp [Except.map]
  | error e => cases e <;> simp [Except.map, ReadError.ofLookup]

/-- Only a path that is no path at all ends a scan when it is read. -/
theorem intakeOf_isOk_iff (cache : Option ResultCache) (tree : Node σ) (filePath : String) :
    (∃ intake, intakeOf cache tree filePath = .ok intake) ↔ ¬ (Path.parse filePath).holdsNul := by
  rw [← readSource_eq_holdsNul_iff tree]
  unfold intakeOf
  dsimp only
  cases tree.readSource (Path.parse filePath) with
  | error e => cases e <;> simp
  | ok source =>
      refine iff_of_true ?_ (by simp)
      dsimp only
      split
      · exact ⟨_, rfl⟩
      · exact ⟨_, rfl⟩

namespace Intake

/-- The result of a file that is not scanned. -/
def result? (filePath : String) : Intake → Option ScanResult
  | unreadable reason => some (.failed filePath reason)
  | known r => some r
  | fresh _ => none

/-- The source of a file that is pending. -/
def source? : Intake → Option String
  | fresh source => some source
  | _ => none

end Intake

theorem toOption_bind_source?_iff {intake : Except ScanError Intake} {source : String} :
    intake.toOption.bind (·.source?) = some source ↔ intake = .ok (.fresh source) := by
  cases intake with
  | error e => simp [Except.toOption]
  | ok intake => cases intake <;> simp [Except.toOption, Intake.source?]

/-- The files of a list have been read. -/
structure Reading.Covers (cache : Option ResultCache) (tree : Node σ) (done : List String)
    (read : Reading) : Prop where
  result : ∀ p, read.results.get? p =
    if p ∈ done then (intakeOf cache tree p).toOption.bind (·.result? p) else none
  source : ∀ p, read.pending.get? p =
    if p ∈ done then (intakeOf cache tree p).toOption.bind (·.source?) else none
  nodup : (read.pending.map Prod.fst).Nodup

namespace Reading.Covers

variable {cache : Option ResultCache} {tree : Node σ} {done : List String} {read : Reading}

theorem start : Covers cache tree [] .start :=
  ⟨fun _ => rfl, fun _ => rfl, List.nodup_nil⟩

/-- One more file. -/
theorem add (h : Covers cache tree done read) {filePath : String} {intake : Intake}
    (hi : intakeOf cache tree filePath = .ok intake) :
    Covers cache tree (done ++ [filePath]) (read.add filePath intake) where
  result p := by
    by_cases hp : p = filePath
    · subst hp
      cases intake <;>
        simp [Reading.add, ByPath.get?_set, h.result, hi, Except.toOption, Intake.result?]
    · cases intake <;> simp [Reading.add, ByPath.get?_set, h.result, hp]
  source p := by
    by_cases hp : p = filePath
    · subst hp
      cases intake <;>
        simp [Reading.add, ByPath.get?_set, h.source, hi, Except.toOption, Intake.source?]
    · cases intake <;> simp [Reading.add, ByPath.get?_set, h.source, hp]
  nodup := by
    cases intake with
    | unreadable reason => exact h.nodup
    | known r => exact h.nodup
    | fresh source => exact ByPath.nodup_set h.nodup filePath source

theorem readFiles {filePaths : List String} {out : Reading} (h : Covers cache tree done read)
    (ho : readFiles cache tree read filePaths = .ok out) :
    Covers cache tree (done ++ filePaths) out := by
  induction filePaths generalizing done read with
  | nil =>
      cases ho
      rwa [List.append_nil]
  | cons p rest ih =>
      obtain ⟨intake, hi, hrest⟩ := ok_of_bind_eq_ok ho
      have hr := ih (h.add hi) hrest
      rwa [List.append_assoc] at hr

end Reading.Covers

theorem readFiles_isOk_iff (cache : Option ResultCache) (tree : Node σ) (read : Reading)
    (filePaths : List String) :
    (∃ out, readFiles cache tree read filePaths = .ok out) ↔
      ∀ p ∈ filePaths, ¬ (Path.parse p).holdsNul := by
  induction filePaths generalizing read with
  | nil => simp [readFiles]
  | cons p rest ih =>
      rw [readFiles, List.forall_mem_cons, ← intakeOf_isOk_iff cache tree p]
      cases hi : intakeOf cache tree p with
      | error e =>
          refine iff_of_false ?_ ?_
          · rintro ⟨out, ho⟩
            cases ho
          · rintro ⟨⟨intake, ho⟩, -⟩
            cases ho
      | ok intake => exact (ih (read.add p intake)).trans (and_iff_right ⟨intake, rfl⟩).symm

/-! ## Scanning -/

theorem get?_scanShared (settings : Settings) (lost : String → Option String)
    {files : ByPath String} (h : (files.map Prod.fst).Nodup) (results : ByPath ScanResult)
    (p : String) :
    (scanShared settings lost results files).get? p =
      match files.get? p with
      | some source => some (scanApart settings (lost p) p source)
      | none => results.get? p := by
  induction files generalizing results with
  | nil => rfl
  | cons e rest ih =>
      obtain ⟨k, source⟩ := e
      rw [List.map_cons, List.nodup_cons] at h
      rw [scanShared, ih h.2, ByPath.get?_cons, ByPath.get?_set]
      by_cases hk : p = k
      · have hn : ByPath.get? rest p = none := by
          refine Option.eq_none_iff_forall_not_mem.2 fun source hs => h.1 ?_
          rw [← hk]
          exact List.mem_map.2 ⟨(p, source), (ByPath.get?_eq_some_iff h.2).1 hs, rfl⟩
        rw [if_pos hk, if_pos hk, hn, hk]
      · rw [if_neg hk, if_neg hk]

/-- A scan in turn that completes does what workers do of which none is lost. -/
theorem scanInTurn_eq {settings : Settings} {results out : ByPath ScanResult}
    {files : ByPath String} (h : scanInTurn settings results files = .ok out) :
    out = scanShared settings (fun _ => none) results files := by
  induction files generalizing results with
  | nil => cases h; rfl
  | cons e rest ih =>
      obtain ⟨p, source⟩ := e
      obtain ⟨r, hs, hrest⟩ := ok_of_bind_eq_ok h
      rw [scanShared, scanApart, hs]
      exact ih hrest

theorem scanInTurn_isOk_iff (settings : Settings) (results : ByPath ScanResult)
    (files : ByPath String) :
    (∃ out, scanInTurn settings results files = .ok out) ↔
      ∀ p source, (p, source) ∈ files → ∃ r, scanSource settings p source = .ok r := by
  induction files generalizing results with
  | nil => simp [scanInTurn]
  | cons e rest ih =>
      obtain ⟨p, source⟩ := e
      rw [scanInTurn]
      cases hs : scanSource settings p source with
      | error e =>
          refine iff_of_false ?_ fun h => ?_
          · rintro ⟨out, ho⟩
            cases ho
          · obtain ⟨r, hr⟩ := h p source List.mem_cons_self
            rw [hs] at hr
            cases hr
      | ok r =>
          refine (ih (results.set p r)).trans ⟨fun h q src hm => ?_, fun h q src hm => ?_⟩
          · rcases List.mem_cons.1 hm with heq | hm
            · cases heq
              exact ⟨r, hs⟩
            · exact h q src hm
          · exact h q src (List.mem_cons_of_mem _ hm)

/-! ## Results -/

/-- The result of a file on its own, where `lost` is what was wrong with its worker. -/
def ownResult (settings : Settings) (lost : Option String) (cache : Option ResultCache)
    (tree : Node σ) (filePath : String) : ScanResult :=
  match intakeOf cache tree filePath with
  | .error e => .failed filePath e.message
  | .ok (.unreadable reason) => .failed filePath reason
  | .ok (.known r) => r
  | .ok (.fresh source) => scanApart settings lost filePath source

theorem of_scanSource {settings : Settings} {filePath source : String} {r : ScanResult}
    (h : scanSource settings filePath source = .ok r) :
    r.filePath = filePath ∧ r.contentHash = some (contentHash source) := by
  unfold scanSource at h
  dsimp only at h
  split at h
  · cases h
    exact ⟨rfl, rfl⟩
  · obtain ⟨found, -, h⟩ := ok_of_bind_eq_ok h
    cases h
    exact ⟨rfl, rfl⟩

/-- A result without an error is that of a scan. -/
theorem scanApart_isOk {settings : Settings} {lost : Option String} {p source : String}
    (h : (scanApart settings lost p source).isOk = true) :
    lost = none ∧ scanSource settings p source = .ok (scanApart settings lost p source) := by
  unfold scanApart at h ⊢
  cases lost with
  | some reason => cases h
  | none =>
      refine ⟨rfl, ?_⟩
      dsimp only at h ⊢
      cases hr : scanSource settings p source with
      | error e => rw [hr] at h; cases h
      | ok r => rfl

theorem ownResult_of_read {settings : Settings} {tree : Node σ} {p source : String}
    (h : tree.readSource (.parse p) = .ok source) (lost : Option String) :
    ownResult settings lost none tree p = scanApart settings lost p source := by
  unfold ownResult intakeOf
  dsimp only
  rw [h]
  rfl

/-- The files of a list that have to be scanned, each once. -/
def pendingPaths (cache : Option ResultCache) (tree : Node σ) (filePaths : List String) :
    List String :=
  filePaths.dedup.filter fun p => ((intakeOf cache tree p).toOption.bind (·.source?)).isSome

namespace Reading.Covers

variable {cache : Option ResultCache} {tree : Node σ} {done : List String} {read : Reading}

theorem mem_pending_iff (h : Covers cache tree done read) {p source : String} :
    (p, source) ∈ read.pending ↔ p ∈ done ∧ intakeOf cache tree p = .ok (.fresh source) := by
  rw [← ByPath.get?_eq_some_iff h.nodup, h.source]
  by_cases hp : p ∈ done
  · simp only [hp, if_true, true_and]
    exact toOption_bind_source?_iff
  · simp [hp]

theorem length_pending (h : Covers cache tree done read) :
    read.pending.length = (pendingPaths cache tree done).length := by
  rw [← List.length_map (f := Prod.fst)]
  refine List.Perm.length_eq ?_
  refine (List.perm_ext_iff_of_nodup h.nodup ((List.nodup_dedup done).filter _)).2 fun p => ?_
  rw [List.mem_filter, List.mem_dedup, List.mem_map]
  constructor
  · rintro ⟨⟨q, source⟩, hm, rfl⟩
    obtain ⟨hq, hi⟩ := h.mem_pending_iff.1 hm
    refine ⟨hq, ?_⟩
    rw [hi]
    rfl
  · rintro ⟨hp, hs⟩
    obtain ⟨source, hs⟩ := Option.isSome_iff_exists.1 hs
    have hg : read.pending.get? p = some source := by rw [h.source, if_pos hp, hs]
    exact ⟨(p, source), (ByPath.get?_eq_some_iff h.nodup).1 hg, rfl⟩

/-- What is collected for a file is its own result. -/
theorem get?_scanShared (h : Covers cache tree done read) (settings : Settings)
    (lost : String → Option String) {files : ByPath String} (hf : files.Perm read.pending)
    {p : String} (hp : p ∈ done) (hn : ¬ (Path.parse p).holdsNul) :
    (scanShared settings lost read.results files).get? p =
      some (ownResult settings (lost p) cache tree p) := by
  have hnodup : (files.map Prod.fst).Nodup := (hf.map Prod.fst).nodup_iff.2 h.nodup
  obtain ⟨intake, hi⟩ := (intakeOf_isOk_iff cache tree p).2 hn
  rw [EmbeddedSql.get?_scanShared settings lost hnodup, ← ByPath.get?_perm hf hnodup, h.source,
    h.result, if_pos hp, if_pos hp, ownResult, hi]
  cases intake <;> rfl

theorem scanPending_isOk_iff (h : Covers cache tree done read) (settings : Settings) (count : Int)
    (turnout : Turnout) :
    (∃ results, scanPending settings count turnout read = .ok results) ↔
      if sharesWork count (pendingPaths cache tree done).length then count ≤ maxWorkers
      else ∀ p ∈ done, ∀ source, intakeOf cache tree p = .ok (.fresh source) →
        ∃ r, scanSource settings p source = .ok r := by
  rw [scanPending, h.length_pending]
  split
  · split
    · next hc =>
        refine iff_of_false ?_ (Int.not_le.2 hc)
        rintro ⟨results, hr⟩
        cases hr
    · next hc => exact iff_of_true ⟨_, rfl⟩ (Int.not_lt.1 hc)
  · have hp : (∀ p ∈ done, ∀ source, intakeOf cache tree p = .ok (.fresh source) →
          ∃ r, scanSource settings p source = .ok r) ↔
        ∀ p source, (p, source) ∈ read.pending → ∃ r, scanSource settings p source = .ok r := by
      simp only [h.mem_pending_iff, and_imp]
      exact forall_congr' fun p => forall_comm
    rw [hp, ← scanInTurn_isOk_iff settings read.results]
    cases scanInTurn settings read.results read.pending with
    | error e => simp [Except.mapError]
    | ok out => simp [Except.mapError]

/-- In turn or shared, the results are collected as workers would, in some order. -/
theorem scanPending_eq (h : Covers cache tree done read) {settings : Settings} {count : Int}
    {turnout : Turnout} {results : ByPath ScanResult}
    (ho : scanPending settings count turnout read = .ok results) :
    ∃ files, files.Perm read.pending ∧
      results = scanShared settings
        (fun p => if sharesWork count (pendingPaths cache tree done).length then turnout.lost p
          else none) read.results files := by
  rw [scanPending, h.length_pending] at ho
  split at ho
  · next hs =>
      split at ho
      · cases ho
      · cases ho
        refine ⟨turnout.order read.pending, turnout.order_perm _, ?_⟩
        simp only [hs, if_true]
  · next hs =>
      refine ⟨read.pending, .refl _, ?_⟩
      cases hi : scanInTurn settings read.results read.pending with
      | error e => rw [hi] at ho; cases ho
      | ok out =>
          rw [hi] at ho
          cases ho
          simp only [hs]
          exact scanInTurn_eq hi

end Reading.Covers

/-- What a scan of files that completes gives: one result for each path, which is the file's own. -/
theorem results_of_scanFilesBy {settings : Settings} {count : Int} {turnout : Turnout}
    {cache : Option ResultCache} {tree : Node σ} {filePaths : List String}
    {out : List ScanResult × Option ResultCache}
    (h : scanFilesBy settings count turnout cache tree filePaths = .ok out) :
    out.1 = filePaths.map fun p =>
      ownResult settings
        (if sharesWork count (pendingPaths cache tree filePaths).length then turnout.lost p else none)
        cache tree p := by
  obtain ⟨read, hread, h⟩ := ok_of_bind_eq_ok h
  obtain ⟨results, hs, h⟩ := ok_of_bind_eq_ok h
  have hc : read.Covers cache tree filePaths := Reading.Covers.start.readFiles hread
  have hn := (readFiles_isOk_iff cache tree .start filePaths).1 ⟨read, hread⟩
  obtain ⟨files, hp, rfl⟩ := hc.scanPending_eq hs
  cases h
  show filePaths.filterMap _ = _
  rw [← List.filterMap_eq_map]
  refine List.filterMap_congr fun p hm => ?_
  exact hc.get?_scanShared settings _ hp hm (hn p hm)

/-- Which scans of files complete. -/
theorem scanFilesBy_isOk_iff (settings : Settings) (count : Int) (turnout : Turnout)
    (cache : Option ResultCache) (tree : Node σ) (filePaths : List String) :
    (∃ out, scanFilesBy settings count turnout cache tree filePaths = .ok out) ↔
      (∀ p ∈ filePaths, ¬ (Path.parse p).holdsNul) ∧
        if sharesWork count (pendingPaths cache tree filePaths).length then count ≤ maxWorkers
        else ∀ p ∈ filePaths, ∀ source, intakeOf cache tree p = .ok (.fresh source) →
          ∃ r, scanSource settings p source = .ok r := by
  rw [← readFiles_isOk_iff cache tree .start filePaths]
  unfold scanFilesBy
  cases hread : readFiles cache tree .start filePaths with
  | error e =>
      refine iff_of_false ?_ ?_
      · rintro ⟨out, ho⟩
        cases ho
      · rintro ⟨⟨out, ho⟩, -⟩
        cases ho
  | ok read =>
      have hc : read.Covers cache tree filePaths := Reading.Covers.start.readFiles hread
      rw [← hc.scanPending_isOk_iff settings count turnout]
      dsimp only [bind, Except.bind]
      cases hs : scanPending settings count turnout read with
      | error e =>
          refine iff_of_false ?_ ?_
          · rintro ⟨out, ho⟩
            cases ho
          · rintro ⟨-, results, ho⟩
            cases ho
      | ok results => exact iff_of_true ⟨_, rfl⟩ ⟨⟨read, rfl⟩, results, rfl⟩

/-- A scan of files completes exactly if every path is one, and either workers share the files and are
not too many, or no scan of a file in turn fails.  If it completes, there is one result for each path,
in the order of the paths, which is the file's own. -/
theorem scanFilesBy_isolates (settings : Settings) (count : Int) (turnout : Turnout)
    (cache : Option ResultCache) (tree : Node σ) (filePaths : List String) :
    let shared := sharesWork count (pendingPaths cache tree filePaths).length
    ((∃ out, scanFilesBy settings count turnout cache tree filePaths = .ok out) ↔
      (∀ p ∈ filePaths, ¬ (Path.parse p).holdsNul) ∧
        if shared then count ≤ maxWorkers
        else ∀ p ∈ filePaths, ∀ source, intakeOf cache tree p = .ok (.fresh source) →
          ∃ r, scanSource settings p source = .ok r) ∧
    ∀ out, scanFilesBy settings count turnout cache tree filePaths = .ok out →
      out.1 = filePaths.map fun p =>
        ownResult settings (if shared then turnout.lost p else none) cache tree p := by
  intro shared
  exact ⟨scanFilesBy_isOk_iff settings count turnout cache tree filePaths,
    fun out ho => results_of_scanFilesBy ho⟩

end EmbeddedSql
