/-
# What the store holds of the results that were saved

A *deposit* is a result that has been saved, with the run and the content under which it was.  Of several
deposits for the same path and content only the last one *stands*.

The store has two tables for results, and rewrites them in different ways.  Both follow the standing deposits
in their order (`Store.Holds`): the files have one row for each, and the findings have one for each of its
candidates, numbered from zero on.  One more deposit takes away the one that it replaces and comes last
(`Deposit.standing_concat`), and saving does just that to both tables (`Store.Holds.save`).
-/
import Mathlib.Algebra.GroupWithZero.Nat
import EmbeddedSql.Proofs.Store.LastSaved

namespace EmbeddedSql

structure Deposit where
  runId : Text
  contentHash : Text
  result : GivenResult
deriving DecidableEq

namespace Deposit

/-- The path and the content that a deposit is for. -/
def key (d : Deposit) : Text × Text := (d.result.filePath, d.contentHash)

/-- The deposits that no later one replaces. -/
def standing : List Deposit → List Deposit
  | [] => []
  | d :: later => if ∃ e ∈ later, e.key = d.key then standing later else d :: standing later

/-- Those of them that were made under a run. -/
def standingUnder (runId : String) (deposits : List Deposit) : List Deposit :=
  (standing deposits).filter (·.runId = Text.ofString runId)

/-! ## Standing deposits -/

theorem standing_concat (deposits : List Deposit) (d : Deposit) :
    standing (deposits ++ [d]) = (standing deposits).filter (·.key ≠ d.key) ++ [d] := by
  induction deposits with
  | nil => rfl
  | cons e deposits ih =>
      -- The new deposit counts among the later ones of every earlier deposit.
      have hlater : (∃ f ∈ deposits ++ [d], f.key = e.key) ↔
          (∃ f ∈ deposits, f.key = e.key) ∨ d.key = e.key := by
        simp only [List.mem_append, List.mem_singleton, or_and_right, exists_or, exists_eq_left]
      rw [List.cons_append, standing, standing, ih]
      by_cases hreplaced : ∃ f ∈ deposits, f.key = e.key
      · rw [if_pos (hlater.2 (.inl hreplaced)), if_pos hreplaced]
      · by_cases hsame : d.key = e.key
        · rw [if_pos (hlater.2 (.inr hsame)), if_neg hreplaced,
            List.filter_cons_of_neg (by simpa using hsame.symm)]
        · rw [if_neg fun h => (hlater.1 h).elim hreplaced hsame, if_neg hreplaced,
            List.filter_cons_of_pos (by simpa using Ne.symm hsame), List.cons_append]

theorem standing_sublist (deposits : List Deposit) : (standing deposits).Sublist deposits := by
  induction deposits with
  | nil => exact .slnil
  | cons d deposits ih =>
      rw [standing]
      split
      · exact ih.cons d
      · exact ih.cons_cons d

/-- No two standing deposits are for the same path and content. -/
theorem nodup_standing (deposits : List Deposit) : ((standing deposits).map key).Nodup := by
  induction deposits with
  | nil => exact .nil
  | cons d deposits ih =>
      rw [standing]
      split
      · exact ih
      · next hlast =>
          refine List.nodup_cons.2 ⟨fun hmem => hlast ?_, ih⟩
          obtain ⟨e, he, hkey⟩ := List.mem_map.1 hmem
          exact ⟨e, (standing_sublist deposits).subset he, hkey⟩

/-- If no path and content comes twice, all deposits stand. -/
theorem standing_eq_self {deposits : List Deposit} (h : (deposits.map key).Nodup) :
    standing deposits = deposits := by
  induction deposits with
  | nil => rfl
  | cons d deposits ih =>
      rw [List.map_cons, List.nodup_cons] at h
      rw [standing, if_neg, ih h.2]
      rintro ⟨e, he, hkey⟩
      exact h.1 (hkey ▸ List.mem_map_of_mem he)

/-- The standing deposit for a path and a content. -/
def standingFor? (key : Text × Text) (deposits : List Deposit) : Option Deposit :=
  (standing deposits).find? (·.key = key)

theorem filter_key_standing (k : Text × Text) (deposits : List Deposit) :
    (standing deposits).filter (·.key = k) = (standingFor? k deposits).toList := by
  unfold standingFor?
  have hnodup := nodup_standing deposits
  generalize standing deposits = standing at hnodup ⊢
  induction standing with
  | nil => rfl
  | cons d others ih =>
      rw [List.map_cons, List.nodup_cons] at hnodup
      by_cases hkey : d.key = k
      · -- No other one has this key, since keys come once.
        have hnone : others.filter (·.key = k) = [] := by
          refine List.filter_eq_nil_iff.2 fun e he hsame => hnodup.1 ?_
          rw [hkey, ← of_decide_eq_true hsame]
          exact List.mem_map_of_mem he
        rw [List.filter_cons, List.find?_cons, if_pos (decide_eq_true hkey), decide_eq_true hkey, hnone]
        rfl
      · rw [List.filter_cons, List.find?_cons, if_neg (by simpa using hkey), decide_eq_false hkey]
        exact ih hnodup.2

/-! ## The rows of a deposit -/

/-- The row among the files: the run, the key and the error. -/
def row (d : Deposit) : Text × (Text × Text) × Option Text := (d.runId, d.key, d.result.error)

/-- The findings: the run, the key and the number of each. -/
def places (d : Deposit) : List (Text × (Text × Text) × Nat) :=
  (List.range d.result.candidates.length).map fun n => (d.runId, d.key, n)

theorem length_places (d : Deposit) : d.places.length = d.result.candidates.length := by
  rw [places, List.length_map, List.length_range]

/-- Findings that are picked by their run and their key are those of the deposits that are picked so. -/
theorem filter_places (q : Text → Text × Text → Bool) (deposits : List Deposit) :
    (deposits.flatMap places).filter (fun place => q place.1 place.2.1) =
      (deposits.filter fun d => q d.runId d.key).flatMap places := by
  induction deposits with
  | nil => rfl
  | cons d deposits ih =>
      rw [List.flatMap_cons, List.filter_append, ih]
      cases hq : q d.runId d.key with
      | false =>
          have hnone : d.places.filter (fun place => q place.1 place.2.1) = [] := by
            simp [places, List.filter_eq_nil_iff, hq]
          rw [hnone, List.filter_cons_of_neg (by rw [hq]; decide), List.nil_append]
      | true =>
          have hall : d.places.filter (fun place => q place.1 place.2.1) = d.places := by
            simp [places, List.filter_eq_self, hq]
          rw [hall, List.filter_cons, if_pos hq, List.flatMap_cons]

theorem filter_rows (q : Text → Text × Text → Bool) (deposits : List Deposit) :
    (deposits.map row).filter (fun row => q row.1 row.2.1) =
      (deposits.filter fun d => q d.runId d.key).map row := List.filter_map

end Deposit

open Deposit (standing standingUnder)

/-! ## The tables -/

def ScannedFile.row (f : ScannedFile) : Text × (Text × Text) × Option Text :=
  (Text.ofString f.runId, (Text.ofString f.filePath, Text.ofString f.contentHash),
    f.error.map Text.ofString)

def Finding.place (f : Finding) : Text × (Text × Text) × Nat :=
  (Text.ofString f.runId, (Text.ofString f.filePath, Text.ofString f.contentHash), f.ordinal)

namespace Store

variable {s s' : Store} {deposits : List Deposit} {runId filePath hash : String}

/-- The store has the rows of the standing deposits, in their order, and no others. -/
structure Holds (s : Store) (deposits : List Deposit) : Prop where
  files : s.files.map ScannedFile.row = (standing deposits).map Deposit.row
  findings : s.findings.map Finding.place = (standing deposits).flatMap Deposit.places

theorem Holds.sameResults (h : s.Holds deposits) (hsame : s.SameResults s') : s'.Holds deposits := by
  refine ⟨?_, ?_⟩
  · rw [hsame.1, h.files]
  · rw [hsame.2, h.findings]

/-- Files that are picked by their run and their key have the rows of the deposits that are picked so. -/
theorem Holds.filter_files (h : s.Holds deposits) {p : ScannedFile → Bool}
    (q : Text → Text × Text → Bool) (hpq : ∀ f, p f = q f.row.1 f.row.2.1) :
    (s.files.filter p).map ScannedFile.row =
      ((standing deposits).filter fun d => q d.runId d.key).map Deposit.row := by
  rw [← Deposit.filter_rows, ← h.files, List.filter_map, funext hpq]
  rfl

theorem Holds.filter_findings (h : s.Holds deposits) {p : Finding → Bool}
    (q : Text → Text × Text → Bool) (hpq : ∀ f, p f = q f.place.1 f.place.2.1) :
    (s.findings.filter p).map Finding.place =
      ((standing deposits).filter fun d => q d.runId d.key).flatMap Deposit.places := by
  rw [← Deposit.filter_places, ← h.findings, List.filter_map, funext hpq]
  rfl

theorem place_findingOf {ordinal : Nat} {c : Candidate} {f : Finding}
    (h : findingOf runId filePath hash ordinal c = .ok f) :
    f.place = (Text.ofString runId, (Text.ofString filePath, Text.ofString hash), ordinal) := by
  unfold findingOf at h
  split at h
  · cases h
  · split at h
    · cases h
    · split at h
      · cases h
      · cases h
        rfl

theorem places_findingsOf {ordinal : Nat} {cs : List Candidate} {fs : List Finding}
    (h : findingsOf runId filePath hash ordinal cs = .ok fs) :
    fs.map Finding.place = (List.range' ordinal cs.length).map fun n =>
      (Text.ofString runId, (Text.ofString filePath, Text.ofString hash), n) := by
  induction cs generalizing ordinal fs with
  | nil =>
      cases h
      rfl
  | cons c cs ih =>
      rw [findingsOf] at h
      obtain ⟨f, hf, h⟩ := ok_of_bind_eq_ok h
      obtain ⟨fs', hfs, h⟩ := ok_of_bind_eq_ok h
      cases h
      rw [List.map_cons, place_findingOf hf, ih hfs, List.length_cons, List.range'_succ, List.map_cons]

theorem isOther_eq (p h : String) :
    isOther filePath hash p h =
      decide ((Text.ofString p, Text.ofString h) ≠ (Text.ofString filePath, Text.ofString hash)) := by
  by_cases heq : (p, h) = (filePath, hash)
  · obtain ⟨rfl, rfl⟩ := Prod.mk.inj heq
    rw [isOther_self]
    simp
  · rw [isOther_of_ne heq]
    simpa [ofString_inj, imp_iff_not_or] using heq

/-- What a result replaces goes from both tables, and what is added comes last. -/
theorem Holds.replace (h : s.Holds deposits) {r : ScanResult} {added : List Finding}
    (hadded : findingsOf runId r.filePath hash 0 r.candidates = .ok added)
    (hfiles : s'.files = s.files.filter (fun f => isOther r.filePath hash f.filePath f.contentHash)
      ++ [⟨r.filePath, hash, runId, r.error⟩])
    (hfindings : s'.findings =
      s.findings.filter (fun f => isOther r.filePath hash f.filePath f.contentHash) ++ added) :
    s'.Holds (deposits ++ [⟨Text.ofString runId, Text.ofString hash, r.given⟩]) := by
  let others : Text → Text × Text → Bool :=
    fun _ k => decide (k ≠ (Text.ofString r.filePath, Text.ofString hash))
  refine ⟨?_, ?_⟩
  · have hkept := h.filter_files others fun f => isOther_eq f.filePath f.contentHash
    rw [hfiles, Deposit.standing_concat, List.map_append, List.map_append, hkept]
    rfl
  · have hkept := h.filter_findings others fun f => isOther_eq f.filePath f.contentHash
    have hplaces : added.map Finding.place =
        Deposit.places ⟨Text.ofString runId, Text.ofString hash, r.given⟩ := by
      rw [places_findingsOf hadded, Deposit.places, List.range_eq_range']
      simp [ScanResult.given, Deposit.key]
    rw [hfindings, Deposit.standing_concat, List.map_append, List.flatMap_append, hkept, hplaces,
      List.flatMap_singleton]
    rfl

/-- A result that is saved in one piece is one more deposit. -/
theorem Holds.save (h : s.Holds deposits) {r : ScanResult} (hr : r.contentHash = some hash)
    (hsave : s.save (some runId) r = .ok s') :
    s'.Holds (deposits ++ [⟨Text.ofString runId, Text.ofString hash, r.given⟩]) := by
  obtain ⟨added, hadded, hfiles, hfindings⟩ := save_eq hr hsave
  exact h.replace hadded hfiles hfindings

/-! ## What follows for the tables -/

theorem Holds.files_under (h : s.Holds deposits) (runId : String) :
    (s.files.filter (·.runId == runId)).map ScannedFile.row =
      (standingUnder runId deposits).map Deposit.row :=
  h.filter_files (fun id _ => decide (id = Text.ofString runId)) fun _ =>
    decide_eq_decide.2 ofString_inj.symm

theorem Holds.findings_under (h : s.Holds deposits) (runId : String) :
    (s.findings.filter (·.runId == runId)).map Finding.place =
      (standingUnder runId deposits).flatMap Deposit.places :=
  h.filter_findings (fun id _ => decide (id = Text.ofString runId)) fun _ =>
    decide_eq_decide.2 ofString_inj.symm

/-- The counts of a run are those of the standing deposits that were made under it. -/
theorem Holds.countRun (h : s.Holds deposits) (run : Run) :
    (s.countRun run).fileCount = (standingUnder run.id deposits).length ∧
    (s.countRun run).errorCount =
      (standingUnder run.id deposits).countP (·.result.error.isSome) ∧
    (s.countRun run).findingCount =
      ((standingUnder run.id deposits).map (·.result.candidates.length)).sum := by
  refine ⟨?_, ?_, ?_⟩
  · show (s.files.filter (·.runId == run.id)).length = _
    rw [← List.length_map, h.files_under, List.length_map]
  · show (s.files.filter (·.runId == run.id)).countP (·.error.isSome) = _
    have hrows := congrArg (List.countP fun row => row.2.2.isSome) (h.files_under run.id)
    rw [List.countP_map, List.countP_map] at hrows
    refine Eq.trans (List.countP_congr fun f _ => ?_) hrows
    rw [Function.comp_apply, ScannedFile.row, Option.isSome_map]
  · show s.findings.countP (·.runId == run.id) = _
    rw [List.countP_eq_length_filter, ← List.length_map, h.findings_under, List.length_flatMap]
    simp only [Deposit.length_places]

/-- Every finding has the row of its file, under the same run. -/
theorem Holds.exists_file (h : s.Holds deposits) {f : Finding} (hf : f ∈ s.findings) :
    ∃ file ∈ s.files, file.filePath = f.filePath ∧ file.contentHash = f.contentHash ∧
      file.runId = f.runId := by
  have hplace := List.mem_map_of_mem (f := Finding.place) hf
  rw [h.findings] at hplace
  obtain ⟨d, hd, hplace⟩ := List.mem_flatMap.1 hplace
  obtain ⟨n, -, hplace⟩ := List.mem_map.1 hplace
  have hrow := List.mem_map_of_mem (f := Deposit.row) hd
  rw [← h.files] at hrow
  obtain ⟨file, hfile, hrow⟩ := List.mem_map.1 hrow
  simp only [Deposit.row, ScannedFile.row, Prod.mk.injEq] at hrow
  simp only [Finding.place, Prod.mk.injEq] at hplace
  obtain ⟨hpath, hhash⟩ := Prod.mk.inj (hrow.2.1.trans hplace.2.1)
  exact ⟨file, hfile, ofString_inj.1 hpath, ofString_inj.1 hhash,
    ofString_inj.1 (hrow.1.trans hplace.1)⟩

/-- The findings for a path and a content are numbered in order, as many as the standing deposit has
candidates. -/
theorem Holds.ordinals (h : s.Holds deposits) (filePath hash : String) :
    (s.findings.filter fun f => f.filePath = filePath ∧ f.contentHash = hash).map (·.ordinal) =
      List.range ((Deposit.standingFor? (Text.ofString filePath, Text.ofString hash) deposits).elim 0
        (·.result.candidates.length)) := by
  let key := (Text.ofString filePath, Text.ofString hash)
  have hplaces : (s.findings.filter fun f => f.filePath = filePath ∧ f.contentHash = hash).map
      Finding.place = (Deposit.standingFor? key deposits).toList.flatMap Deposit.places := by
    rw [h.filter_findings (fun _ k => decide (k = key)), Deposit.filter_key_standing]
    intro f
    rw [decide_eq_decide, Finding.place, Prod.mk.injEq, ofString_inj, ofString_inj]
  have hordinals := congrArg (List.map fun place => place.2.2) hplaces
  rw [List.map_map] at hordinals
  refine Eq.trans hordinals ?_
  cases Deposit.standingFor? key deposits with
  | none => rfl
  | some d =>
      rw [Option.toList_some, List.flatMap_singleton, Deposit.places, List.map_map]
      exact List.map_id _

/-! ## The part of one run

What a run finds in the store of other runs may come from anywhere.  Its own part of both tables is changed
by its own saves as a whole store is. -/

/-- The store with the files and findings of one run only. -/
def under (s : Store) (runId : String) : Store :=
  { s with
    files := s.files.filter (·.runId == runId)
    findings := s.findings.filter (·.runId == runId) }

theorem runId_of_findingsOf {cs : List Candidate} {fs : List Finding} {ordinal : Nat}
    (h : findingsOf runId filePath hash ordinal cs = .ok fs) : ∀ f ∈ fs, f.runId = runId := by
  intro f hf
  have hplace := List.mem_map_of_mem (f := Finding.place) hf
  rw [places_findingsOf h] at hplace
  obtain ⟨n, -, hplace⟩ := List.mem_map.1 hplace
  exact (ofString_inj.1 (Prod.mk.inj hplace).1).symm

theorem filter_filter_comm {α : Type} (p q : α → Bool) (xs : List α) :
    (xs.filter p).filter q = (xs.filter q).filter p := by
  rw [List.filter_filter, List.filter_filter]
  exact List.filter_congr fun x _ => Bool.and_comm _ _

theorem Holds.save_under (h : (s.under runId).Holds deposits) {r : ScanResult}
    (hr : r.contentHash = some hash) (hsave : s.save (some runId) r = .ok s') :
    (s'.under runId).Holds (deposits ++ [⟨Text.ofString runId, Text.ofString hash, r.given⟩]) := by
  obtain ⟨added, hadded, hfiles, hfindings⟩ := save_eq hr hsave
  refine h.replace hadded ?_ ?_
  · show s'.files.filter (·.runId == runId) = _
    rw [hfiles, List.filter_append, filter_filter_comm]
    simp [under]
  · have hown : added.filter (·.runId == runId) = added :=
      List.filter_eq_self.2 fun f hf => beq_iff_eq.2 (runId_of_findingsOf hadded f hf)
    show s'.findings.filter (·.runId == runId) = _
    rw [hfindings, List.filter_append, filter_filter_comm, hown]
    rfl

/-- The counts of a run are taken from its own part. -/
theorem countRun_under (s : Store) (run : Run) : (s.under run.id).countRun run = s.countRun run := by
  have hself : ∀ xs : List ScannedFile, (xs.filter (·.runId == run.id)).filter (·.runId == run.id) =
      xs.filter (·.runId == run.id) := fun xs => by simp [List.filter_filter]
  unfold countRun under
  simp only [hself, List.countP_filter, Bool.and_self]

end Store

end EmbeddedSql
