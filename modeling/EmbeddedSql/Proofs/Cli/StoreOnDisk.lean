/-
# The store on disk

A command finds the store in the base directory and writes it back there.  Everything else it writes,
the directories and the journal, lies elsewhere, so between two commands the store is what the last
command with a store left.  This holds where the base directory is named without going up.
-/
import EmbeddedSql.Cli.Scan
import EmbeddedSql.Proofs.Fallible
import EmbeddedSql.Proofs.Files.Alteration
import EmbeddedSql.Proofs.Store.Cached

namespace EmbeddedSql

namespace Config

/-- The store in the base directory, an empty one if there is none. -/
def storeOf (config : Config) (disk : Disk) : Store :=
  match disk.lookUp config.storePath with
  | .ok (.store s) => s
  | _ => .empty

variable {config : Config}

theorem route_storePath : config.storePath.route = config.baseDir.route ++ ["sql-extract.db"] :=
  Path.route_child (by decide) config.baseDir

theorem route_logDir : config.logDir.route = config.baseDir.route ++ ["logs"] :=
  Path.route_child (by decide) config.baseDir

theorem not_mem_route_child {p : Path} {name : String} (h : ".." ∉ p.route) (hname : name ≠ "..") :
    ".." ∉ (p.child name).route := by
  rw [Path.route_child hname, List.mem_append, not_or]
  exact ⟨h, fun hm => hname (List.mem_singleton.1 hm).symm⟩

theorem not_mem_storePath (h : ".." ∉ config.baseDir.names) : ".." ∉ config.storePath.route :=
  not_mem_route_child (Path.not_mem_route h) (by decide)

theorem not_mem_logDir (h : ".." ∉ config.baseDir.names) : ".." ∉ config.logDir.route :=
  not_mem_route_child (Path.not_mem_route h) (by decide)

/-- The store is that on the way to its path, if the path can be looked up at all. -/
theorem storeOf_eq (config : Config) (disk : Disk) :
    config.storeOf disk =
      if config.storePath.holdsNul ∨ maxPathSize < config.storePath.size then .empty
      else (disk.storeAt? config.storePath.route).getD .empty := by
  unfold storeOf Node.lookUp
  by_cases hnul : config.storePath.holdsNul
  · rw [if_pos hnul, if_pos (.inl hnul)]
  · rw [if_neg hnul]
    by_cases hsize : maxPathSize < config.storePath.size
    · rw [if_pos hsize, if_pos (.inr hsize)]
    · rw [if_neg hsize, if_neg (not_or.2 ⟨hnul, hsize⟩)]
      unfold Node.storeAt? Node.locate
      split
      · next s hs => rw [hs]; rfl
      · next hs =>
          split
          · next s hs' => exact absurd hs' (hs s)
          · rfl

/-- A change elsewhere leaves the store alone, and so does making a directory. -/
theorem storeOf_alter (h : ".." ∉ config.baseDir.names)
    {change : Option (Node Store) → Option (Node Store)} {place : List String}
    (hc : place <+: config.storePath.route → change = Node.orDirectory) (disk : Disk) :
    config.storeOf (Node.alter change place disk) = config.storeOf disk := by
  rw [storeOf_eq, storeOf_eq]
  split
  · rfl
  · rw [Node.storeAt?_alter (not_mem_storePath h) hc]

theorem storeOf_ensureDirectories (h : ".." ∉ config.baseDir.names) {disk disk' : Disk}
    (hd : ensureDirectories config disk = .ok disk') :
    config.storeOf disk' = config.storeOf disk := by
  have hmake : ∀ (disk disk' : Disk) path, ensureDirectory disk path = .ok disk' →
      config.storeOf disk' = config.storeOf disk := by
    intro disk disk' path hd
    unfold ensureDirectory at hd
    dsimp only at hd
    split at hd
    · cases hd
      exact storeOf_alter h (fun _ => rfl) disk
    · cases hd
  obtain ⟨disk₁, hbase, hlogs⟩ := ok_of_bind_eq_ok hd
  rw [hmake _ _ _ hlogs, hmake _ _ _ hbase]

theorem journal_ne (day : String) : "sql-extract-" ++ day ++ ".jsonl" ≠ ".." := by
  intro heq
  have hlen := congrArg String.length heq
  rw [String.length_append, String.length_append] at hlen
  have h₁ : "sql-extract-".length = 12 := by decide
  have h₂ : "..".length = 2 := by decide
  omega

theorem storeOf_appendJournal (h : ".." ∉ config.baseDir.names) (day : String)
    (lines : List String) (disk : Disk) :
    config.storeOf (appendJournal config day lines disk) = config.storeOf disk := by
  unfold appendJournal
  split
  · rfl
  · have hroute : ".." ∉ (config.journalPath day).route :=
      not_mem_route_child (not_mem_logDir h) (journal_ne day)
    refine storeOf_alter h (fun hp => ?_) disk
    rw [Path.settled_eq hroute] at hp
    have hlen := hp.length_le
    rw [route_storePath, journalPath, Path.route_child (journal_ne day), route_logDir] at hlen
    simp only [List.length_append, List.length_cons, List.length_nil] at hlen
    omega

/-! ## Opening and writing -/

/-- A connection gives the results of the store on disk. -/
theorem cached?_of_openStore {disk : Disk} {c : Connection}
    (h : openStore disk config.storePath = .ok c) :
    c.store.cached? = (config.storeOf disk).cached? := by
  have hconnect : ∀ s, Connection.connect s = .ok c → c.store.cached? = s.cached? := by
    intro s hs
    unfold Connection.connect at hs
    split at hs
    · next store versions heq =>
        cases hs
        have hstore : store = s.migrate.1 := by rw [heq]
        rw [hstore]
        exact (Store.sameResults_migrate s).cached?_eq
    · cases hs
  unfold openStore at h
  unfold storeOf
  split at h
  · next s hs => rw [hs]; exact hconnect s h
  · next hs => rw [hs]; exact hconnect _ h
  · next hs => rw [hs]; exact hconnect _ h
  · next hs => rw [hs]; exact hconnect _ h
  · cases h
  · cases h
  · cases h

/-- A path that a store was opened at can be looked up. -/
theorem lookUp_of_openStore {disk : Disk} {c : Connection}
    (h : openStore disk config.storePath = .ok c) :
    ¬ config.storePath.holdsNul ∧ ¬ maxPathSize < config.storePath.size := by
  unfold openStore Node.lookUp at h
  refine ⟨fun hnul => ?_, fun hsize => ?_⟩
  · rw [if_pos hnul] at h
    cases h
  · by_cases hnul : config.storePath.holdsNul
    · rw [if_pos hnul] at h
      cases h
    · rw [if_neg hnul, if_pos hsize] at h
      cases h

theorem walk_baseDir (h : ".." ∉ config.baseDir.names) {disk disk' : Disk}
    (hd : ensureDirectories config disk = .ok disk') :
    ∃ entries, disk'.walk [] config.baseDir.route = .ok (.directory entries) := by
  obtain ⟨disk₁, -, hlog⟩ := ok_of_bind_eq_ok hd
  unfold ensureDirectory at hlog
  dsimp only at hlog
  split at hlog
  · next hdir =>
      cases hlog
      unfold Node.isDirectoryAt Node.locate at hdir
      split at hdir
      · next node hnode =>
          have hlogs := not_mem_logDir h
          rw [route_logDir] at hlogs hnode
          exact Node.exists_directory_of_walk hlogs hnode
      · cases hdir
  · cases hlog

/-- Where the directories are made, what is written at the place of the store is found there. -/
theorem lookUp_write (h : ".." ∉ config.baseDir.names) {disk disk' : Disk} {c : Connection}
    (hd : ensureDirectories config disk = .ok disk')
    (ho : openStore disk' config.storePath = .ok c) (s : Store) :
    (disk'.write config.storePath (.store s)).lookUp config.storePath = .ok (.store s) := by
  obtain ⟨hnul, hsize⟩ := lookUp_of_openStore ho
  obtain ⟨entries, hbase⟩ := walk_baseDir h hd
  have hstore := not_mem_storePath h
  unfold Node.lookUp
  rw [if_neg hnul, if_neg hsize]
  unfold Node.locate Node.write
  rw [Path.settled_eq hstore]
  rw [route_storePath] at hstore ⊢
  exact Node.walk_alter_put hstore hbase

/-- After a command with a store, that is the store on disk. -/
theorem storeOf_writeBack_some (h : ".." ∉ config.baseDir.names) {disk disk' : Disk}
    {c c' : Connection} (hd : ensureDirectories config disk = .ok disk')
    (ho : openStore disk' config.storePath = .ok c) (occasion : Occasion) {j : Journal}
    (hj : j.connection = some c') : config.storeOf (writeBack config occasion j disk') = c'.store := by
  unfold writeBack
  dsimp only
  rw [hj, storeOf_appendJournal h]
  dsimp only
  unfold storeOf
  rw [lookUp_write h hd ho]

/-- A command without a store leaves the store on disk alone. -/
theorem storeOf_writeBack_none (h : ".." ∉ config.baseDir.names) (disk : Disk)
    (occasion : Occasion) {j : Journal} (hj : j.connection = none) :
    config.storeOf (writeBack config occasion j disk) = config.storeOf disk := by
  unfold writeBack
  dsimp only
  rw [hj, storeOf_appendJournal h]

end Config

end EmbeddedSql
