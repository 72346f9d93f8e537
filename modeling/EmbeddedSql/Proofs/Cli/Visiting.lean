/-
# Files that a scan visits

A scan of several roots finds the files below each of them.  Where roots overlap a file is found more than
once, and is visited where it was found first.  Files are told apart by their paths as they are written:
the same file, found under two paths, is visited twice.
-/
import EmbeddedSql.Proofs.Cli.RunCounts

namespace EmbeddedSql

/-! ## Several roots -/

/-- There is something at a root, a file or a directory in which the search can search. -/
def Disk.HasRoot (disk : Disk) (room : Option Nat) (root : String) : Prop :=
  ∃ node, disk.lookUp (.parse root) = .ok node ∧ (node.isDirectory = true → node.Searchable (.parse root) room)

/-- Whatever is at a root, the search there comes to its end, and limits that it stays within change nothing. -/
theorem exists_findFiles {disk : Disk} (hnames : disk.WellNamed) {room : Option Nat} {root : String}
    (hroot : disk.HasRoot room root) :
    ∃ files, disk.findFiles (.parse root) "**/*.java" room = .ok files ∧
      disk.findFiles (.parse root) "**/*.java" = .ok files := by
  obtain ⟨node, hlookUp, hsearch⟩ := hroot
  cases hdir : node.isDirectory with
  | true =>
      have hlimited := hsearch hdir
      have hfree : node.Searchable (.parse root) none :=
        ⟨nofun, hlimited.directory_size, hlimited.found_size⟩
      have hfound := Node.findFiles_standard hnames hlookUp hdir
      exact ⟨_, (hfound room).1 hlimited, (hfound none).1 hfree⟩
  | false => exact ⟨_, Node.findFiles_of_file hlookUp hdir _ room, Node.findFiles_of_file hlookUp hdir _ none⟩

theorem exists_found {disk : Disk} (hnames : disk.WellNamed) {room : Option Nat} {roots : List String}
    (hroots : ∀ root ∈ roots, disk.HasRoot room root) :
    ∃ found,
      List.Forall₂ (fun root files => disk.findFiles (.parse root) "**/*.java" room = .ok files) roots found ∧
      List.Forall₂ (fun root files => disk.findFiles (.parse root) "**/*.java" = .ok files) roots found := by
  induction roots with
  | nil => exact ⟨[], .nil, .nil⟩
  | cons root rest ih =>
      obtain ⟨hroot, hrest⟩ := List.forall_mem_cons.1 hroots
      obtain ⟨files, hlimited, hfree⟩ := exists_findFiles hnames hroot
      obtain ⟨found, hfound, hfound'⟩ := ih hrest
      exact ⟨files :: found, .cons hlimited hfound, .cons hfree hfound'⟩

theorem collectFiles_eq {disk : Disk} {glob : String} {room : Option Nat} {paths : List Path}
    {found : List (List String)}
    (h : List.Forall₂ (fun path files => disk.findFiles path glob room = .ok files) paths found) :
    collectFiles disk glob paths room = .ok found.flatten.eraseDups := by
  have hfound : paths.mapM (fun path => disk.findFiles path glob room) = .ok found := by
    induction h with
    | nil => rfl
    | cons hfirst _ ih =>
        rw [List.mapM_cons, hfirst, ih]
        rfl
  rw [collectFiles, hfound]
  rfl

/-! ## Results of a command -/

/-- A command without a fault shows one result for each of its files, in their order. -/
theorem Invocation.exists_reports {config : Config} {v : Invocation} {w : Workload}
    (hw : v.workload? config = some w) (hdone : (v.outcome config).fault = none) :
    ∃ results, (v.outcome config).Reports v.request results ∧ results.map (·.filePath) = w.files := by
  obtain ⟨-, houtcome⟩ := outcome_of_workload?_eq_some hw
  rw [houtcome] at hdone ⊢
  split at hdone
  · next hstore =>
      rw [if_pos hstore]
      cases ho : openStore w.disk config.storePath with
      | error e =>
          rw [ho] at hdone
          cases hdone
      | ok c =>
          rw [ho] at hdone
          dsimp only at hdone ⊢
          obtain ⟨j, report, hrun, hreports, -⟩ := scanOutcome_of_fault_eq_none hdone
          obtain ⟨run, c₁, j₁, cacheHits, -, hscan, -⟩ := scanWithStore_ok hrun
          obtain ⟨hresults, -⟩ := scanAndRecord_ok hscan
          exact ⟨_, hreports, (found_of_results hresults fun p hp => foundFor_seeded _ hp).1⟩
  · next hstore =>
      rw [if_neg hstore]
      obtain ⟨j, report, hrun, hreports, -⟩ := scanOutcome_of_fault_eq_none hdone
      obtain ⟨hresults, -⟩ := scanAndRecord_ok hrun
      refine ⟨_, hreports, (found_of_results hresults fun p _ => ?_).1⟩
      cases config.useCache <;> exact foundFor_ownResult _ _ _ p

/-! ## What is found and what is visited -/

/-- In a tree whose names are ones that files can have, with room for any number of nested calls or for some.
Below a directory the search has a result exactly if directories are not nested deeper and none of the paths is too
long that it reads or asks about.  Then it has found the files that are looked for, all of them and nothing else, in
order.  A command visits what is found from its roots, each path once and where it came first. -/
theorem discovery_complete {disk : Disk} (hnames : disk.WellNamed) (room : Option Nat) :
    (∀ root node, disk.lookUp (.parse root) = .ok node → node.isDirectory = true →
      ((∃ files, disk.findFiles (.parse root) "**/*.java" room = .ok files) ↔
        node.Searchable (.parse root) room) ∧
      ∀ files, disk.findFiles (.parse root) "**/*.java" room = .ok files →
        node.ListsFiles (.parse root) files) ∧
    ∀ roots : List String, (∀ root ∈ roots, disk.HasRoot room root) →
      ∃ found visited,
        List.Forall₂ (fun root files => disk.findFiles (.parse root) "**/*.java" room = .ok files) roots found ∧
        collectFiles disk "**/*.java" (roots.map .parse) room = .ok visited ∧
        AreFirst found.flatten visited ∧
        ∀ (config : Config) (v : Invocation) (w : Workload), config.fileGlob = "**/*.java" → v.disk = disk →
          v.request.paths = roots.map .parse → v.workload? config = some w →
          w.files = visited ∧ ((v.outcome config).fault = none →
            ∃ results, (v.outcome config).Reports v.request results ∧ results.map (·.filePath) = visited) := by
  refine ⟨fun root node hroot hdir => Node.findFiles_of_directory hnames hroot hdir room, fun roots hroots => ?_⟩
  obtain ⟨found, hlimited, hfree⟩ := exists_found hnames hroots
  refine ⟨found, _, hlimited, collectFiles_eq (List.forall₂_map_left_iff.2 hlimited), areFirst_eraseDups _,
    fun config v w hglob hdisk hpaths hw => ?_⟩
  have hfiles : w.files = found.flatten.eraseDups := by
    have h := Invocation.collectFiles_of_workload? hw
    rw [hglob, hdisk, hpaths, collectFiles_eq (List.forall₂_map_left_iff.2 hfree)] at h
    exact (Except.ok.inj h).symm
  refine ⟨hfiles, fun hdone => ?_⟩
  rw [← hfiles]
  exact Invocation.exists_reports hw hdone

/-! ## Overlapping roots

The third root lies below the first one.  What is found there is hidden, or below a directory that is named
like a file. -/

def overlappingTree : Disk :=
  .directory
    (.cons "a" (.directory (.cons ".hidden"
      (.directory (.cons "Odd.java" (.directory (.cons "A.java" (.file []) .nil)) .nil)) .nil))
    (.cons "b" (.directory (.cons "c" (.directory (.cons ".java" (.file []) .nil))
      (.cons "notes.txt" (.file []) .nil))) .nil))

def overlappingRoots : List String := ["b", "a", "b/c"]

def overlappingScan : Invocation where
  request := { scanOfFile none with paths := overlappingRoots.map .parse }
  occasion := ⟨"2026-01-01 00:00:00", "2026-01-01", "first"⟩
  workerFault := none
  disk := overlappingTree

theorem wellNamed_overlappingTree : overlappingTree.WellNamed :=
  ⟨.inr (by decide), ⟨.inr (by decide), ⟨.inr (by decide), ⟨.inr (by decide), trivial, trivial⟩, trivial⟩, trivial⟩,
    .inr (by decide), ⟨.inr (by decide), ⟨.inr (by decide), trivial, trivial⟩, .inr (by decide), trivial, trivial⟩,
    trivial⟩

/-- The file below two of the roots comes first, and once.  Four nested calls are enough. -/
theorem discovery_complete_overlapping :
    (∃ node, overlappingTree.lookUp (.parse "b") = .ok node ∧ node.ListsFiles (.parse "b") ["b/c/.java"]) ∧
    (overlappingScan.outcome localConfig).fault = none ∧
    ∃ results, (overlappingScan.outcome localConfig).Reports overlappingScan.request results ∧
      results.map (·.filePath) = ["b/c/.java", "a/.hidden/Odd.java/A.java"] := by
  obtain ⟨hlists, hvisits⟩ := discovery_complete wellNamed_overlappingTree (some 4)
  have hfault : (overlappingScan.outcome localConfig).fault = none :=
    Option.isNone_iff_eq_none.1 (by decide +kernel)
  have hsome : ∀ root ∈ overlappingRoots,
      (overlappingTree.findFiles (.parse root) "**/*.java" (some 4)).toOption.isSome = true := by decide +kernel
  have hlookUp : ∀ root ∈ overlappingRoots, ∃ node, overlappingTree.lookUp (.parse root) = .ok node := by
    simp only [overlappingRoots, List.forall_mem_cons]
    exact ⟨⟨_, rfl⟩, ⟨_, rfl⟩, ⟨_, rfl⟩, List.forall_mem_nil _⟩
  have hroots : ∀ root ∈ overlappingRoots, Disk.HasRoot overlappingTree (some 4) root := by
    intro root hroot
    obtain ⟨node, hnode⟩ := hlookUp root hroot
    exact ⟨node, hnode, fun hdir => (hlists root node hnode hdir).1.1 (exists_eq_ok (hsome root hroot))⟩
  refine ⟨⟨_, rfl, ?_⟩, hfault, ?_⟩
  · exact (hlists "b" _ rfl rfl).2 _ (by decide +kernel)
  · obtain ⟨found, visited, -, hcollect, -, hscan⟩ := hvisits overlappingRoots hroots
    have hboth : collectFiles overlappingTree "**/*.java" (overlappingRoots.map .parse) (some 4) =
        .ok ["b/c/.java", "a/.hidden/Odd.java/A.java"] := by decide +kernel
    obtain rfl := Except.ok.inj (hcollect.symm.trans hboth)
    have hw : (overlappingScan.workload? localConfig).isSome = true := by decide +kernel
    obtain ⟨w, hw⟩ := Option.isSome_iff_exists.1 hw
    exact (hscan localConfig overlappingScan w rfl rfl rfl hw).2 hfault

/-! ## A file that is too far away

The root goes into a directory and out of it again many times.  It can be looked up, but the path of the file
below it cannot. -/

def longName : String := String.ofList (List.replicate 250 'd')

def longFile : String := String.ofList (List.replicate 40 'A') ++ ".java"

def farDirectory : Node Store := .directory (.cons longFile (.file []) .nil)

def roundaboutTree : Disk := .directory (.cons longName farDirectory .nil)

def roundaboutRoot : Path := ⟨0, (List.replicate 15 [longName, ".."]).flatten ++ [longName]⟩

theorem mem_roundaboutRoot {name : String} (h : name ∈ roundaboutRoot.names) : name = longName ∨ name = ".." := by
  rcases List.mem_append.1 h with h | h
  · obtain ⟨round, hround, hname⟩ := List.mem_flatten.1 h
    rw [List.eq_of_mem_replicate hround] at hname
    simpa using hname
  · exact .inl (List.mem_singleton.1 h)

theorem isNormal_roundaboutRoot : roundaboutRoot.IsNormal where
  slashes_le := by decide
  isName name hname := by
    rcases mem_roundaboutRoot hname with rfl | rfl
    · decide +kernel
    · decide

theorem holdsNul_roundaboutRoot : roundaboutRoot.holdsNul = false := by
  refine List.any_eq_false.2 fun name hname => ?_
  rcases mem_roundaboutRoot hname with rfl | rfl
  · decide +kernel
  · decide

/-- Every round comes back to where it started. -/
theorem walk_roundaboutTree (rounds : Nat) :
    roundaboutTree.walk [] ((List.replicate rounds [longName, ".."]).flatten ++ [longName]) = .ok farDirectory := by
  have hname : longName ≠ ".." := by decide +kernel
  have hfind : (Entries.cons longName farDirectory .nil).find? longName = some farDirectory := if_pos rfl
  induction rounds with
  | zero =>
      show Node.walk [] roundaboutTree [longName] = _
      rw [roundaboutTree, Node.walk_directory hname, hfind]
      rfl
  | succ rounds ih =>
      rw [List.replicate_succ, List.flatten_cons, List.append_assoc, List.cons_append, List.cons_append,
        List.nil_append, roundaboutTree, Node.walk_directory hname, hfind]
      dsimp only
      rw [farDirectory, Node.walk_up]
      exact ih

/-- A tree of two directories and a file in which the file is not found: the search fails. -/
theorem discovery_fails_roundabout :
    roundaboutTree.WellNamed ∧
    ∃ node, roundaboutTree.lookUp (.parse roundaboutRoot.toText) = .ok node ∧ node.isDirectory = true ∧
      node.HoldsFile [longFile] ∧ EndsInJava longFile ∧
      ∀ files, roundaboutTree.findFiles (.parse roundaboutRoot.toText) "**/*.java" ≠ .ok files := by
  have hnames : roundaboutTree.WellNamed :=
    ⟨.inr (by decide +kernel), ⟨.inr (by decide +kernel), trivial, trivial⟩, trivial⟩
  have hread : Path.parse roundaboutRoot.toText = roundaboutRoot :=
    Path.parse_toText isNormal_roundaboutRoot
  have hlocate : roundaboutTree.locate (.parse roundaboutRoot.toText) = .ok farDirectory := by
    rw [hread]
    exact walk_roundaboutTree 15
  have hlookUp := Node.lookUp_eq_ok_iff.2
    ⟨hread.symm ▸ holdsNul_roundaboutRoot, by rw [hread]; decide +kernel, hlocate⟩
  have hleads : farDirectory.LeadsTo [longFile] (.file []) := .entry (by decide +kernel) (if_pos rfl) (.here _)
  have hends : EndsInJava longFile := ⟨_, rfl⟩
  refine ⟨hnames, _, hlookUp, rfl, ⟨_, hleads, rfl⟩, hends, fun files hfiles => ?_⟩
  have hsearch := (Node.findFiles_of_directory hnames hlookUp rfl none).1.1 ⟨files, hfiles⟩
  have hsize := hsearch.found_size [] longFile _ hleads hends
  rw [hread] at hsize
  exact absurd hsize (by decide +kernel)

end EmbeddedSql
