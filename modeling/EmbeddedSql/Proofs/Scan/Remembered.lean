/-
# Results kept in memory do not show

Calls that scan files can share a cache.  Between two of them files may change, go away and come back,
and each call may name any paths, as often as it likes, and have any number of workers; only the
settings stay.  A call with the cache is compared with the same call without one.

What carries the comparison is what the cache holds after any history of calls (`Remembers`): every
entry is what a scan of its path gives for a content that was read there and has its digest, without
an error.  Nothing has to be known of when it was put there, since entries are never replaced and a
scan of the same content gives the same.

| a file | without the cache | with it |
| :-- | :-- | :-- |
| cannot be read | says so | says so |
| its content is remembered | is scanned | has the result of that scan |
| its content is new | is scanned | is scanned |

So a call with the cache scans fewer files, and needs workers less often.  It completes whenever the other
one does, with the same results.  It may do better in two ways: it does not notice the loss of a
worker that it does not need (`ScanCall.sparing` takes these losses from the other call), nor that there
are too many workers to share what is left.
-/
import Mathlib.Data.List.Induction
import EmbeddedSql.Proofs.Scan.Isolation

namespace EmbeddedSql

/-! ## Calls -/

/-- A call that scans files: how many workers there are, how their work turns out, and the files as they
are at the time. -/
structure ScanCall (σ : Type) where
  count : Int
  turnout : Turnout
  tree : Node σ
  filePaths : List String

/-- The same turnout, but only workers on some of the files are lost. -/
def Turnout.losing (t : Turnout) (q : String → Bool) : Turnout :=
  { t with lost := fun p => if q p then t.lost p else none }

namespace ScanCall

variable {σ : Type}

def run (settings : Settings) (call : ScanCall σ) (cache : Option ResultCache) :
    Except ScanError (List ScanResult × Option ResultCache) :=
  scanFilesBy settings call.count call.turnout cache call.tree call.filePaths

/-- What the call reads: paths with the contents that are found there. -/
def reads (call : ScanCall σ) : List (String × String) :=
  call.filePaths.filterMap fun p => (call.tree.readSource (.parse p)).toOption.map (p, ·)

theorem mem_reads_iff {call : ScanCall σ} {p source : String} :
    (p, source) ∈ call.reads ↔
      p ∈ call.filePaths ∧ call.tree.readSource (.parse p) = .ok source := by
  rw [reads, List.mem_filterMap]
  constructor
  · rintro ⟨q, hq, h⟩
    obtain ⟨content, hcontent, h⟩ := Option.map_eq_some_iff.1 h
    cases h
    exact ⟨hq, toOption_eq_some.1 hcontent⟩
  · rintro ⟨hp, hs⟩
    exact ⟨p, hp, Option.map_eq_some_iff.2 ⟨source, toOption_eq_some.2 hs, rfl⟩⟩

/-- The files that have to be scanned. -/
def pending (call : ScanCall σ) (cache : Option ResultCache) : List String :=
  pendingPaths cache call.tree call.filePaths

/-- Is this file given to a worker? -/
def hands (call : ScanCall σ) (cache : Option ResultCache) (p : String) : Bool :=
  sharesWork call.count (call.pending cache).length && (call.pending cache).contains p

/-- The call in which no worker is lost but those that are lost with this cache. -/
def sparing (call : ScanCall σ) (cache : ResultCache) : ScanCall σ :=
  { call with turnout := call.turnout.losing (call.hands (some cache)) }

/-- The cache after the call.  A call that is ended keeps nothing. -/
def leaves (settings : Settings) (cache : ResultCache) (call : ScanCall σ) : ResultCache :=
  match call.run settings (some cache) with
  | .ok (_, some cache) => cache
  | _ => cache

theorem sparing_eq {call : ScanCall σ} (h : ∀ p, call.turnout.lost p = none) (cache : ResultCache) :
    call.sparing cache = call := by
  have hlost : (fun p => if call.hands (some cache) p then call.turnout.lost p else none) =
      call.turnout.lost := by
    funext p
    rw [h p, ite_self]
  show { call with turnout := { call.turnout with lost := fun p => _ } } = call
  rw [hlost]

end ScanCall

variable {σ : Type}

/-- The cache that calls share, after all of them. -/
def sharedCache (settings : Settings) (calls : List (ScanCall σ)) : ResultCache :=
  calls.foldl (ScanCall.leaves settings) .empty

/-! ## What the cache holds -/

namespace ResultCache

theorem mem_of_get? {cache : ResultCache} {p h : String} {r : ScanResult}
    (hget : cache.get? p h = some r) : ((p, h), r) ∈ cache := by
  unfold get? at hget
  induction cache with
  | nil => cases hget
  | cons entry cache ih =>
      obtain ⟨key, kept⟩ := entry
      rw [List.lookup_cons] at hget
      split at hget
      · next hkey =>
          rw [beq_iff_eq.1 hkey, Option.some.inj hget]
          exact List.mem_cons_self
      · exact List.mem_cons_of_mem _ (ih hget)

theorem mem_put {cache : ResultCache} {r : ScanResult} {entry : (String × String) × ScanResult}
    (h : entry ∈ cache.put r) :
    entry ∈ cache ∨ ∃ hash, r.contentHash = some hash ∧ r.isOk = true ∧
      entry = ((r.filePath, hash), r) := by
  unfold put at h
  split at h
  · exact .inl h
  · next hash hr =>
      split at h
      · next hkept =>
          rcases List.mem_append.1 h with h | h
          · exact .inl h
          · exact .inr ⟨hash, hr, (Bool.and_eq_true_iff.1 hkept).1, List.mem_singleton.1 h⟩
      · exact .inl h

theorem mem_foldl_put {results : List ScanResult} {cache : ResultCache}
    {entry : (String × String) × ScanResult} (h : entry ∈ results.foldl put cache) :
    entry ∈ cache ∨ ∃ r ∈ results, ∃ hash, r.contentHash = some hash ∧ r.isOk = true ∧
      entry = ((r.filePath, hash), r) := by
  induction results generalizing cache with
  | nil => exact .inl h
  | cons r rest ih =>
      rcases ih h with h | ⟨s, hs, h⟩
      · exact (mem_put h).imp_right fun h => ⟨r, List.mem_cons_self, h⟩
      · exact .inr ⟨s, List.mem_cons_of_mem _ hs, h⟩

end ResultCache

/-- Every entry of a cache is what a scan gives, without an error, for a content with its digest that one
of the calls read under its path. -/
def Remembers (settings : Settings) (calls : List (ScanCall σ)) (cache : ResultCache) : Prop :=
  ∀ p h r, ((p, h), r) ∈ cache → ∃ call ∈ calls, ∃ source, (p, source) ∈ call.reads ∧
    contentHash source = h ∧ scanSource settings p source = .ok r ∧ r.isOk = true

/-- A file is scanned if it can be read and nothing is kept for what is read. -/
theorem intakeOf_eq_fresh_iff {cache : Option ResultCache} {tree : Node σ} {p source : String} :
    intakeOf cache tree p = .ok (.fresh source) ↔
      tree.readSource (.parse p) = .ok source ∧
        (cache.bind fun c => c.get? p (contentHash source)) = none := by
  unfold intakeOf
  dsimp only
  cases tree.readSource (.parse p) with
  | error e => cases e <;> simp
  | ok content =>
      dsimp only
      cases hkept : cache.bind fun c => c.get? p (contentHash content) with
      | some r =>
          refine iff_of_false nofun ?_
          rintro ⟨hs, hnone⟩
          rw [← Except.ok.inj hs, hkept] at hnone
          cases hnone
      | none =>
          refine ⟨fun h => ?_, fun h => ?_⟩
          · cases h
            exact ⟨rfl, hkept⟩
          · rw [Except.ok.inj h.1]

theorem intakeOf_of_kept {cache : ResultCache} {tree : Node σ} {p source : String} {r : ScanResult}
    (hread : tree.readSource (.parse p) = .ok source)
    (hkept : cache.get? p (contentHash source) = some r) :
    intakeOf (some cache) tree p = .ok (.known r) := by
  unfold intakeOf
  dsimp only
  rw [hread]
  dsimp only [Option.bind]
  rw [hkept]

theorem ownResult_of_fresh {settings : Settings} {cache : Option ResultCache} {tree : Node σ}
    {p source : String} (h : intakeOf cache tree p = .ok (.fresh source)) (lost : Option String) :
    ownResult settings lost cache tree p = scanApart settings lost p source := by
  rw [ownResult, h]

/-- What a call adds comes from its own scans. -/
theorem mem_cache_of_run {settings : Settings} {call : ScanCall σ} {cache kept : ResultCache}
    {results : List ScanResult} (h : call.run settings (some cache) = .ok (results, some kept))
    {p hash : String} {r : ScanResult} (hm : ((p, hash), r) ∈ kept) :
    ((p, hash), r) ∈ cache ∨ ∃ source, (p, source) ∈ call.reads ∧ contentHash source = hash ∧
      scanSource settings p source = .ok r ∧ r.isOk = true := by
  obtain ⟨read, hread, h⟩ := ok_of_bind_eq_ok h
  obtain ⟨found, hfound, h⟩ := ok_of_bind_eq_ok h
  cases h
  rcases ResultCache.mem_foldl_put hm with hm | ⟨s, hs, digest, hdigest, hok, hentry⟩
  · exact .inl hm
  · right
    obtain ⟨⟨q, source⟩, hpending, hs⟩ := List.mem_filterMap.1 hs
    have hcovers : read.Covers (some cache) call.tree call.filePaths :=
      Reading.Covers.start.readFiles hread
    obtain ⟨hq, hfresh⟩ := hcovers.mem_pending_iff.1 hpending
    obtain ⟨files, hfiles, rfl⟩ := hcovers.scanPending_eq hfound
    have hpath := (intakeOf_isOk_iff (some cache) call.tree q).1 ⟨_, hfresh⟩
    dsimp only at hs
    rw [hcovers.get?_scanShared settings _ hfiles hq hpath, ownResult_of_fresh hfresh] at hs
    obtain rfl := Option.some.inj hs
    obtain ⟨-, hscan⟩ := scanApart_isOk hok
    obtain ⟨hname, hhash⟩ := of_scanSource hscan
    rw [hhash] at hdigest
    obtain ⟨⟨rfl, rfl⟩, rfl⟩ : (p = _ ∧ hash = digest) ∧ r = _ := by
      obtain ⟨hkey, hr⟩ := Prod.mk.inj hentry
      exact ⟨Prod.mk.inj hkey, hr⟩
    rw [hname]
    exact ⟨source, ScanCall.mem_reads_iff.2 ⟨hq, (intakeOf_eq_fresh_iff.1 hfresh).1⟩,
      Option.some.inj hdigest, hscan, hok⟩

theorem Remembers.leaves {settings : Settings} {calls : List (ScanCall σ)} {cache : ResultCache}
    (h : Remembers settings calls cache) (call : ScanCall σ) :
    Remembers settings (calls ++ [call]) (call.leaves settings cache) := by
  have hold : Remembers settings (calls ++ [call]) cache := by
    intro p hash r hm
    obtain ⟨old, hold, found⟩ := h p hash r hm
    exact ⟨old, List.mem_append_left _ hold, found⟩
  unfold ScanCall.leaves
  split
  · next hrun =>
      intro p hash r hm
      rcases mem_cache_of_run hrun hm with hm | found
      · exact hold p hash r hm
      · exact ⟨call, List.mem_append_right _ (List.mem_singleton_self call), found⟩
  · exact hold

/-- After any calls. -/
theorem remembers_sharedCache (settings : Settings) (calls : List (ScanCall σ)) :
    Remembers settings calls (sharedCache settings calls) := by
  induction calls using List.reverseRecOn with
  | nil => exact fun p h r hm => nomatch hm
  | append_singleton calls call ih =>
      rw [sharedCache, List.foldl_append]
      exact ih.leaves call

/-! ## The comparison -/

section Comparison

variable {settings : Settings} {calls : List (ScanCall σ)} {cache : ResultCache}
  {call : ScanCall σ}

/-- Contents that calls read before have other digests than the contents of this call, unless they are
the same. -/
def Distinguishes (calls : List (ScanCall σ)) (call : ScanCall σ) : Prop :=
  ∀ old ∈ calls, ∀ f ∈ old.reads, ∀ g ∈ call.reads, contentHash f.2 = contentHash g.2 → f.2 = g.2

/-- What is remembered for a file is what a scan of it would give. -/
theorem scanSource_of_remembered (hr : Remembers settings calls cache)
    (hd : Distinguishes calls call) {p source : String} {r : ScanResult}
    (hs : (p, source) ∈ call.reads) (hkept : cache.get? p (contentHash source) = some r) :
    scanSource settings p source = .ok r := by
  obtain ⟨old, hold, content, hread, hhash, hscan, -⟩ := hr p _ r (ResultCache.mem_of_get? hkept)
  have hsame : content = source := hd old hold _ hread _ hs hhash
  rwa [hsame] at hscan

theorem mem_pending_iff {cache : Option ResultCache} {p : String} :
    p ∈ call.pending cache ↔
      p ∈ call.filePaths ∧ ∃ source, intakeOf cache call.tree p = .ok (.fresh source) := by
  unfold ScanCall.pending pendingPaths
  rw [List.mem_filter, List.mem_dedup, Option.isSome_iff_exists]
  simp only [toOption_bind_source?_iff]

/-- The cache only ever takes files away from those that have to be scanned. -/
theorem pending_sublist (call : ScanCall σ) (cache : ResultCache) :
    (call.pending (some cache)).Sublist (call.pending none) := by
  unfold ScanCall.pending pendingPaths
  refine List.monotone_filter_right _ fun p hp => ?_
  obtain ⟨source, hs⟩ := Option.isSome_iff_exists.1 hp
  obtain ⟨hread, -⟩ := intakeOf_eq_fresh_iff.1 (toOption_bind_source?_iff.1 hs)
  exact Option.isSome_iff_exists.2
    ⟨source, toOption_bind_source?_iff.2 (intakeOf_eq_fresh_iff.2 ⟨hread, rfl⟩)⟩

/-- If workers share what is left, they share the whole. -/
theorem sharesWork_without_cache
    (h : sharesWork call.count (call.pending (some cache)).length = true) :
    sharesWork call.count (call.pending none).length = true := by
  have hle := (pending_sublist call cache).length_le
  simp only [sharesWork, Bool.and_eq_true, decide_eq_true_eq] at h ⊢
  exact ⟨h.1, by omega⟩

/-- The result of a file is the same either way, if no worker is lost but those that both calls need. -/
theorem ownResult_of_remembered (hr : Remembers settings calls cache)
    (hd : Distinguishes calls call) {p : String} (hp : p ∈ call.filePaths) :
    ownResult settings (if sharesWork call.count (call.pending (some cache)).length
        then call.turnout.lost p else none) (some cache) call.tree p =
      ownResult settings (if sharesWork call.count (call.pending none).length
        then (call.sparing cache).turnout.lost p else none) none call.tree p := by
  cases hread : call.tree.readSource (.parse p) with
  | error e =>
      unfold ownResult intakeOf
      dsimp only
      rw [hread]
      cases e <;> rfl
  | ok source =>
      rw [ownResult_of_read hread]
      cases hkept : cache.get? p (contentHash source) with
      | some r =>
          have hscan := scanSource_of_remembered hr hd (ScanCall.mem_reads_iff.2 ⟨hp, hread⟩) hkept
          have hknown := intakeOf_of_kept hread hkept
          have hspared : call.hands (some cache) p = false := by
            refine Bool.and_eq_false_imp.2 fun _ => ?_
            rw [List.contains_eq_mem, decide_eq_false_iff_not, mem_pending_iff]
            rintro ⟨-, content, hfresh⟩
            rw [hknown] at hfresh
            cases hfresh
          have hlost : (call.sparing cache).turnout.lost p = none := if_neg (by rw [hspared]; nofun)
          rw [hlost, ite_self, scanApart, hscan, ownResult, hknown]
      | none =>
          have hfresh : intakeOf (some cache) call.tree p = .ok (.fresh source) :=
            intakeOf_eq_fresh_iff.2 ⟨hread, hkept⟩
          have hpending : p ∈ call.pending (some cache) := mem_pending_iff.2 ⟨hp, source, hfresh⟩
          rw [ownResult_of_fresh hfresh]
          congr 1
          by_cases hs : sharesWork call.count (call.pending (some cache)).length = true
          · have hhands : call.hands (some cache) p = true := by
              rw [ScanCall.hands, hs, List.contains_eq_mem, decide_eq_true hpending]
              rfl
            rw [if_pos hs, if_pos (sharesWork_without_cache hs)]
            exact (if_pos hhands).symm
          · have hhands : ¬ call.hands (some cache) p = true :=
              fun h => hs (Bool.and_eq_true_iff.1 h).1
            have hlost : (call.sparing cache).turnout.lost p = none := if_neg hhands
            rw [if_neg hs, hlost, ite_self]

/-- Without the cache a call can only end early for what no cache helps against: a path that is none, or
too many workers. -/
theorem run_isOk_iff (hscan : ∀ f ∈ call.reads, ∃ r, scanSource settings f.1 f.2 = .ok r)
    (cache : Option ResultCache) :
    (∃ out, call.run settings cache = .ok out) ↔
      (∀ p ∈ call.filePaths, ¬ (Path.parse p).holdsNul) ∧
        (sharesWork call.count (call.pending cache).length = true → call.count ≤ maxWorkers) := by
  rw [ScanCall.run, scanFilesBy_isOk_iff]
  refine and_congr_right fun _ => ?_
  change (if sharesWork call.count (call.pending cache).length then _ else _) ↔ _
  split
  · next hs => exact ⟨fun h _ => h, fun h => h hs⟩
  · next hs =>
      refine iff_of_true (fun p hp source hfresh => ?_) fun h => absurd h hs
      exact hscan _ (ScanCall.mem_reads_iff.2 ⟨hp, (intakeOf_eq_fresh_iff.1 hfresh).1⟩)

/-- The two calls give the same results, if both complete. -/
theorem results_eq (hr : Remembers settings calls cache) (hd : Distinguishes calls call)
    {out out' : List ScanResult × Option ResultCache}
    (h : call.run settings (some cache) = .ok out)
    (h' : (call.sparing cache).run settings none = .ok out') : out.1 = out'.1 := by
  rw [results_of_scanFilesBy h, results_of_scanFilesBy h']
  exact List.map_congr_left fun p hp => ownResult_of_remembered hr hd hp

end Comparison

/-- A call keeps a cache if it is given one. -/
theorem snd_of_run {settings : Settings} {call : ScanCall σ} {cache : Option ResultCache}
    {out : List ScanResult × Option ResultCache} (h : call.run settings cache = .ok out) :
    out.2 = cache.map (call.leaves settings) := by
  cases cache with
  | none =>
      obtain ⟨read, -, h⟩ := ok_of_bind_eq_ok h
      obtain ⟨found, -, h⟩ := ok_of_bind_eq_ok h
      cases h
      rfl
  | some cache =>
      have hleaves : call.leaves settings cache =
          match call.run settings (some cache) with
          | .ok (_, some cache) => cache
          | _ => cache := rfl
      rw [Option.map_some, hleaves, h]
      obtain ⟨read, -, h⟩ := ok_of_bind_eq_ok h
      obtain ⟨found, -, h⟩ := ok_of_bind_eq_ok h
      cases h
      rfl

/-! ## The shared cache does not show -/

/-- A call after any calls that shared its cache.  Where it would complete without the cache, it completes
with it, and gives the same results.  The other way round this holds too, unless there are more workers
than can share files.  Then every entry that is kept is what a scan gives for a content with its digest
that was read under its path, without an error. -/
theorem sharedCache_invisible (settings : Settings) (calls : List (ScanCall σ)) (call : ScanCall σ)
    (hscan : ∀ f ∈ call.reads, ∃ r, scanSource settings f.1 f.2 = .ok r)
    (hdigest : Distinguishes calls call) :
    let cache := sharedCache settings calls
    let after := sharedCache settings (calls ++ [call])
    (∀ results, (call.sparing cache).run settings none = .ok (results, none) →
        call.run settings (some cache) = .ok (results, some after)) ∧
      (∀ results kept, call.run settings (some cache) = .ok (results, kept) →
        call.count ≤ maxWorkers → (call.sparing cache).run settings none = .ok (results, none)) ∧
      ((∀ p, call.turnout.lost p = none) → call.sparing cache = call) ∧
      Remembers settings (calls ++ [call]) after := by
  intro cache after
  have hr : Remembers settings calls cache := remembers_sharedCache settings calls
  have hafter : after = call.leaves settings cache := by
    show sharedCache settings (calls ++ [call]) = _
    rw [sharedCache, List.foldl_append]
    rfl
  have hspared : ∀ f ∈ (call.sparing cache).reads, ∃ r, scanSource settings f.1 f.2 = .ok r := hscan
  refine ⟨fun results h => ?_, fun results kept h hcount => ?_, fun h => ScanCall.sparing_eq h cache,
    remembers_sharedCache settings (calls ++ [call])⟩
  · obtain ⟨hpaths, hshares⟩ := (run_isOk_iff hspared none).1 ⟨_, h⟩
    obtain ⟨out, hout⟩ := (run_isOk_iff hscan (some cache)).2
      ⟨hpaths, fun hs => hshares (sharesWork_without_cache hs)⟩
    have hsnd : out.2 = some after := by rw [snd_of_run hout, hafter, Option.map_some]
    have hfst : out.1 = results := results_eq hr hdigest hout h
    rw [hout, ← hfst, ← hsnd]
  · obtain ⟨hpaths, -⟩ := (run_isOk_iff hscan (some cache)).1 ⟨_, h⟩
    obtain ⟨out, hout⟩ := (run_isOk_iff hspared none).2
      ⟨hpaths, fun _ => hcount⟩
    have hsnd : out.2 = none := snd_of_run hout
    have hfst : results = out.1 := results_eq hr hdigest h hout
    rw [hout, hfst, ← hsnd]

/-! A file is named twice, then it changes, and then it is as before, beside a file that is new. -/

def selecting : String := "String s = \"SELECT a FROM t\";"

def deleting : String := "String s = \"DELETE FROM t\";"

def callOn (files : Entries Unit) (count : Int) (filePaths : List String) : ScanCall Unit where
  count
  turnout := Workers.single.turnout
  tree := .directory files
  filePaths

def fileOf (text : String) : Node Unit := .file (Utf8.encode text.toList)

def earlierCalls : List (ScanCall Unit) :=
  [callOn (.cons "A.java" (fileOf selecting) .nil) 1 ["A.java", "A.java"],
    callOn (.cons "A.java" (fileOf deleting) .nil) 1 ["B.java", "A.java"]]

def restoringCall : ScanCall Unit :=
  callOn (.cons "A.java" (fileOf selecting) (.cons "B.java" (fileOf deleting) .nil)) 2
    ["A.java", "B.java", "A.java"]

/-- What is as before is not scanned again, and the results are those of a call on its own. -/
theorem sharedCache_invisible_restoredFile :
    (∀ f ∈ restoringCall.reads, ∃ r, scanSource .standard f.1 f.2 = .ok r) ∧
      Distinguishes earlierCalls restoringCall ∧
      restoringCall.pending (some (sharedCache .standard earlierCalls)) = ["B.java"] ∧
      ∃ results, restoringCall.run .standard none = .ok (results, none) ∧
        restoringCall.run .standard (some (sharedCache .standard earlierCalls)) =
          .ok (results, some (sharedCache .standard (earlierCalls ++ [restoringCall]))) := by
  have hscans : ∀ f ∈ restoringCall.reads, (scanSource .standard f.1 f.2).toOption.isSome = true := by
    decide +kernel
  have hscan : ∀ f ∈ restoringCall.reads, ∃ r, scanSource .standard f.1 f.2 = .ok r := by
    intro f hf
    obtain ⟨r, hr⟩ := Option.isSome_iff_exists.1 (hscans f hf)
    exact ⟨r, toOption_eq_some.1 hr⟩
  have hdigest : Distinguishes earlierCalls restoringCall := by
    unfold Distinguishes
    decide +kernel
  have hruns : (restoringCall.run .standard none).toOption.isSome = true := by decide +kernel
  obtain ⟨⟨results, kept⟩, hrun⟩ := Option.isSome_iff_exists.1 hruns
  have hrun := toOption_eq_some.1 hrun
  have hkept : kept = none := snd_of_run hrun
  rw [hkept] at hrun
  obtain ⟨hwith, -, hspares, -⟩ := sharedCache_invisible .standard earlierCalls restoringCall hscan hdigest
  rw [hspares fun _ => rfl] at hwith
  exact ⟨hscan, hdigest, by decide +kernel, results, hrun, hwith results hrun⟩

end EmbeddedSql
