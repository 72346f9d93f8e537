/-
# Files that are looked for

The standard pattern asks for any number of directories and then a name that ends in `.java`.  What it
finds is the plain list of all such files below the root, in the order of their paths (`Node.ListsFiles`):

| a node below the root | is found |
| :-- | :-- |
| a file whose name ends in `.java`, at any depth, the root's own entries too | yes |
| the same below a hidden directory, or below a directory whose name ends in `.java` | yes |
| a file without anything in front of `.java` | yes |
| a directory whose name ends in `.java` | no |
| a file with another ending | no |

Where repetitions are left out, each element stays once and where it came first (`AreFirst`).  A pattern can
lead to a file on several ways, and several roots can have files in common.
-/
import Mathlib.Data.List.Nodup
import EmbeddedSql.Proofs.Files.Below
import EmbeddedSql.Proofs.Glob.Matching

namespace EmbeddedSql

/-! ## Repetitions left out -/

section Repetitions

variable {α : Type} [BEq α]

/-- The elements of a list, each once, in the order in which they came first. -/
structure AreFirst (xs firsts : List α) : Prop where
  mem_iff : ∀ a, a ∈ firsts ↔ a ∈ xs
  ordered : firsts.Pairwise fun a b => xs.idxOf a < xs.idxOf b

theorem AreFirst.nodup {xs firsts : List α} (h : AreFirst xs firsts) : firsts.Nodup :=
  h.ordered.imp fun {a b} hlt (heq : a = b) => by
    rw [heq] at hlt
    exact Nat.lt_irrefl _ hlt

variable [LawfulBEq α]

/-- Leaving elements out does not change which of two others comes first. -/
theorem idxOf_lt_of_filter {p : α → Bool} {a b : α} (ha : p a = true) (hb : p b = true) {xs : List α}
    (h : (xs.filter p).idxOf a < (xs.filter p).idxOf b) : xs.idxOf a < xs.idxOf b := by
  induction xs with
  | nil => exact h
  | cons x rest ih =>
      by_cases hx : p x = true
      · rw [List.filter_cons_of_pos hx] at h
        by_cases hxa : x = a
        · subst hxa
          rw [List.idxOf_cons_self] at h ⊢
          by_cases hxb : x = b
          · subst hxb
            rw [List.idxOf_cons_self] at h
            exact absurd h (Nat.lt_irrefl 0)
          · rw [List.idxOf_cons_ne _ hxb]
            exact Nat.succ_pos _
        · rw [List.idxOf_cons_ne _ hxa] at h ⊢
          by_cases hxb : x = b
          · subst hxb
            rw [List.idxOf_cons_self] at h
            exact absurd h (Nat.not_lt_zero _)
          · rw [List.idxOf_cons_ne _ hxb] at h ⊢
            exact Nat.succ_lt_succ (ih (Nat.lt_of_succ_lt_succ h))
      · have hxa : x ≠ a := by
          rintro rfl
          exact hx ha
        have hxb : x ≠ b := by
          rintro rfl
          exact hx hb
        rw [List.filter_cons_of_neg hx] at h
        rw [List.idxOf_cons_ne _ hxa, List.idxOf_cons_ne _ hxb]
        exact Nat.succ_lt_succ (ih h)

/-- What stays stands in the order in which it came first. -/
theorem pairwise_idxOf_eraseDups (xs : List α) :
    xs.eraseDups.Pairwise fun a b => xs.idxOf a < xs.idxOf b := by
  match xs with
  | [] => exact .nil
  | x :: rest =>
      rw [List.eraseDups_cons]
      refine List.pairwise_cons.2 ⟨fun b hb => ?_, ?_⟩
      · have hne : x ≠ b := by
          rintro rfl
          simpa using (List.mem_filter.1 (List.mem_eraseDups.1 hb)).2
        rw [List.idxOf_cons_self, List.idxOf_cons_ne _ hne]
        exact Nat.succ_pos _
      · refine (pairwise_idxOf_eraseDups _).imp_of_mem fun {a b} ha hb hlt => ?_
        have ha' := (List.mem_filter.1 (List.mem_eraseDups.1 ha)).2
        have hb' := (List.mem_filter.1 (List.mem_eraseDups.1 hb)).2
        have hxa : x ≠ a := by
          rintro rfl
          simp at ha'
        have hxb : x ≠ b := by
          rintro rfl
          simp at hb'
        rw [List.idxOf_cons_ne _ hxa, List.idxOf_cons_ne _ hxb]
        exact Nat.succ_lt_succ (idxOf_lt_of_filter (p := fun y => !y == x) ha' hb' hlt)
termination_by xs.length
decreasing_by exact Nat.lt_succ_of_le (List.length_filter_le _ _)

theorem areFirst_eraseDups (xs : List α) : AreFirst xs xs.eraseDups where
  mem_iff _ := List.mem_eraseDups
  ordered := pairwise_idxOf_eraseDups xs

end Repetitions

/-! ## Globs for an ending -/

namespace Pattern

variable {glob subject : Text}

/-- A glob without anything special matches itself only. -/
theorem globFits_plain (h : ∀ p ∈ glob, p ∉ [CodePoint.char '*', .char '?', .char '[']) :
    GlobFits glob subject ↔ subject = glob := by
  induction glob generalizing subject with
  | nil =>
      constructor
      · intro hfits
        cases hfits
        rfl
      · rintro rfl
        exact .nil
  | cons p glob ih =>
      obtain ⟨hp, hglob⟩ := List.forall_mem_cons.1 h
      constructor
      · intro hfits
        cases hfits with
        | star | question | set | bracket => simp at hp
        | exactly _ hrest => rw [(ih hglob).1 hrest]
      · rintro rfl
        exact .exactly hp ((ih hglob).2 rfl)

/-- A star and an ending match what ends so. -/
theorem globFits_ending (h : ∀ p ∈ glob, p ∉ [CodePoint.char '*', .char '?', .char '[']) :
    GlobFits (.char '*' :: glob) subject ↔ glob <:+ subject := by
  constructor
  · intro hfits
    cases hfits with
    | star run hrest =>
        rw [(globFits_plain h).1 hrest]
        exact List.suffix_append run glob
    | exactly hp => simp at hp
  · rintro ⟨run, rfl⟩
    exact .star run ((globFits_plain h).2 rfl)

end Pattern

/-- The files that are looked for. -/
def EndsInJava (name : String) : Prop := ∃ stem, name = stem ++ ".java"

/-- The glob of the last name in the standard pattern. -/
def javaGlob : Pattern := .parse (Text.ofString "*.java")

theorem fits_javaGlob (name : String) : javaGlob.fits (Text.ofString name) = true ↔ EndsInJava name := by
  have hplain : ∀ p ∈ Text.ofString ".java", p ∉ [CodePoint.char '*', .char '?', .char '['] := by decide +kernel
  have hglob : Text.ofString "*.java" = .char '*' :: Text.ofString ".java" := by decide +kernel
  have hfits : javaGlob.fits (Text.ofString name) = true ↔ Text.ofString ".java" <:+ Text.ofString name := by
    rw [← Pattern.globFits_ending hplain, ← hglob]
    exact ⟨Pattern.globFits_of_fits, Pattern.fits_of_globFits⟩
  rw [hfits]
  constructor
  · rintro ⟨run, hrun⟩
    obtain ⟨stem, ending, htext, -, hending⟩ := List.map_eq_append_iff.1 hrun.symm
    have hjava : ending = ".java".toList := (List.map_inj_right fun _ _ => CodePoint.char.inj).1 hending
    refine ⟨String.ofList stem, String.toList_inj.1 ?_⟩
    rw [htext, hjava, String.toList_append, String.toList_ofList (l := stem)]
  · rintro ⟨stem, rfl⟩
    refine ⟨Text.ofString stem, ?_⟩
    rw [Text.ofString, Text.ofString, Text.ofString, String.toList_append, List.map_append]

/-! ## Searches that come to their end -/

namespace Search

/-- A search that finds these paths under a condition, and stops early if the condition fails. -/
structure Completes (s : Search) (paths : List Path) (condition : Prop) : Prop where
  done : condition → s = ⟨paths, none⟩
  stops : ¬ condition → s.stop ≠ none

namespace Completes

variable {α : Type} {s t : Search} {ps qs : List Path} {P Q : Prop}

theorem iff (h : s.Completes ps P) (hPQ : P ↔ Q) : s.Completes ps Q :=
  propext hPQ ▸ h

theorem andThen (hs : s.Completes ps P) (ht : t.Completes qs Q) : (s.andThen t).Completes (ps ++ qs) (P ∧ Q) := by
  by_cases hP : P
  · rw [hs.done hP]
    refine ⟨fun hPQ => ?_, fun hPQ => ?_⟩
    · rw [ht.done hPQ.2]
      rfl
    · exact ht.stops fun hQ => hPQ ⟨hP, hQ⟩
  · have hstop := hs.stops hP
    obtain ⟨r, hr⟩ := Option.ne_none_iff_exists'.1 hstop
    refine ⟨fun hPQ => absurd hPQ.1 hP, fun _ => ?_⟩
    rw [Search.andThen, hr]
    exact hstop

theorem each {find : α → Search} {out : α → List Path} {C : α → Prop} {starts : List α}
    (h : ∀ a ∈ starts, (find a).Completes (out a) (C a)) :
    (Search.each find starts).Completes (starts.flatMap out) (∀ a ∈ starts, C a) := by
  induction starts with
  | nil => exact ⟨fun _ => rfl, fun hC => absurd (List.forall_mem_nil _) hC⟩
  | cons start rest ih =>
      obtain ⟨hstart, hrest⟩ := List.forall_mem_cons.1 h
      exact (hstart.andThen (ih hrest)).iff List.forall_mem_cons.symm

theorem goOn {find : Path → Search} {out : Path → List Path} {C : Path → Prop} (hs : s.Completes ps P)
    (h : ∀ p ∈ ps, (find p).Completes (out p) (C p)) :
    (s.goOn find).Completes (ps.flatMap out) (P ∧ ∀ p ∈ ps, C p) := by
  by_cases hP : P
  · rw [Search.goOn, hs.done hP]
    have hend : Completes ⟨[], none⟩ [] True := ⟨fun _ => rfl, fun hn => absurd trivial hn⟩
    have heach := (each h).andThen hend
    rw [List.append_nil] at heach
    exact heach.iff (by simp [hP])
  · refine ⟨fun hPC => absurd hPC.1 hP, fun _ => ?_⟩
    rw [Search.goOn, Search.andThen]
    split
    · next r hr =>
        rw [hr]
        exact Option.some_ne_none r
    · exact hs.stops hP

theorem once (hs : s.Completes ps P) : s.once.Completes ps.eraseDups P where
  done hP := by
    rw [hs.done hP]
    rfl
  stops hP := hs.stops hP

end Completes

end Search

/-- There is room for so many nested calls. -/
def Fits (room : Option Nat) (depth : Nat) : Prop := ∀ n ∈ room, depth ≤ n

theorem fits_succ {room : Option Nat} {depth : Nat} :
    Fits room (depth + 1) ↔ room ≠ some 0 ∧ Fits (room.map (· - 1)) depth := by
  cases room with
  | none => simp [Fits]
  | some n =>
      simp only [Fits, Option.mem_def, Option.some.injEq, Option.map_some, forall_eq', ne_eq]
      omega

theorem fits_max {room : Option Nat} {m n : Nat} : Fits room (max m n) ↔ Fits room m ∧ Fits room n := by
  simp only [Fits, Nat.max_le]
  exact ⟨fun h => ⟨fun k hk => (h k hk).1, fun k hk => (h k hk).2⟩, fun h k hk => ⟨h.1 k hk, h.2 k hk⟩⟩

section Directories

variable {σ : Type}

mutual
/-- All directories are listed if there is room for one call in the other, and all their paths can be read. -/
theorem Node.directoriesBelow_completes (room : Option Nat) (path : Path) : ∀ node : Node σ,
    (node.directoriesBelow room path).Completes (node.directories path)
      (Fits room node.depth ∧ ∀ p ∈ node.directories path, p.size ≤ maxPathSize)
  | .file _ | .store _ =>
      ⟨fun _ => rfl, fun h => absurd ⟨fun _ _ => Nat.zero_le _, List.forall_mem_nil _⟩ h⟩
  | .directory entries => by
      rw [Node.directoriesBelow, Node.directories, Node.depth, fits_succ, List.forall_mem_cons]
      split
      · next hroom => exact ⟨fun h => absurd hroom h.1.1, fun _ => Option.some_ne_none _⟩
      · next hroom =>
          split
          · next hsize => exact ⟨fun h => absurd h.2.1 (Nat.not_le.2 hsize), fun _ => Option.some_ne_none _⟩
          · next hsize =>
              have hone : (Search.one path).Completes [path] (room ≠ some 0 ∧ path.size ≤ maxPathSize) :=
                ⟨fun _ => rfl, fun h => absurd ⟨hroom, Nat.not_lt.1 hsize⟩ h⟩
              refine (hone.andThen (Entries.directoriesBelow_completes (room.map (· - 1)) path entries)).iff ?_
              tauto

theorem Entries.directoriesBelow_completes (room : Option Nat) (path : Path) : ∀ entries : Entries σ,
    (entries.directoriesBelow room path).Completes (entries.directories path)
      (Fits room entries.depth ∧ ∀ p ∈ entries.directories path, p.size ≤ maxPathSize)
  | .nil => ⟨fun _ => rfl, fun h => absurd ⟨fun _ _ => Nat.zero_le _, List.forall_mem_nil _⟩ h⟩
  | .cons name node rest => by
      have hrest := Entries.directoriesBelow_completes room path rest
      rw [Entries.directoriesBelow, Entries.directories, Entries.depth]
      split
      · exact hrest
      · refine ((Node.directoriesBelow_completes room (path.child name) node).andThen hrest).iff ?_
        rw [fits_max, List.forall_mem_append]
        tauto
end

end Directories

namespace Node

variable {σ : Type} {tree node found : Node σ} {root : Path} {names : List String}

/-! ## Places below the root -/

theorem locate_below (hroot : tree.locate root = .ok node) (h : ".." ∉ names) :
    tree.locate (root.below names) = node.walk [] names := by
  rw [locate, Path.below, Path.route_append h]
  exact walk_append h hroot

theorem WellNamed.locate (htree : tree.WellNamed) (hroot : tree.locate root = .ok node) : node.WellNamed :=
  WellNamed.walk (List.forall_mem_nil _) htree hroot

theorem locate_of_leadsTo (htree : tree.WellNamed) (hroot : tree.locate root = .ok node)
    (h : node.LeadsTo names found) : tree.locate (root.below names) = .ok found := by
  have hnames := h.isFileName (htree.locate hroot)
  rw [locate_below hroot (not_mem_of_isFileName hnames)]
  exact (leadsTo_iff (not_mem_of_isFileName hnames) (rootName_not_mem_of_isFileName hnames)).1 h

theorem lookUp_eq_ok_iff : tree.lookUp root = .ok node ↔
    root.holdsNul = false ∧ root.size ≤ maxPathSize ∧ tree.locate root = .ok node := by
  unfold lookUp
  by_cases hnul : root.holdsNul = true
  · simp [hnul]
  · by_cases hsize : maxPathSize < root.size
    · simp [hnul, hsize, Nat.not_le.2 hsize]
    · simp [hnul, hsize, Nat.not_lt.1 hsize]

theorem holdsNul_below (hroot : root.holdsNul = false) (hnames : ∀ name ∈ names, IsFileName name) :
    (root.below names).holdsNul = false := by
  rw [Path.holdsNul, Path.below, List.any_append, Bool.or_eq_false_iff]
  refine ⟨hroot, List.any_eq_false.2 fun name hname => ?_⟩
  rw [List.contains_iff_mem]
  exact (hnames name hname).2.2

/-- Something below the root is asked about, unless its path is too long. -/
theorem ask_below (htree : tree.WellNamed) (hroot : tree.lookUp root = .ok node) (h : node.LeadsTo names found)
    (question : Node σ → Bool) :
    tree.ask (root.below names) question =
      if (root.below names).size ≤ maxPathSize then .ok (question found) else .error ⟨root.below names⟩ := by
  obtain ⟨hnul, -, hlocate⟩ := lookUp_eq_ok_iff.1 hroot
  have hnul' := holdsNul_below hnul (h.isFileName (htree.locate hlocate))
  have hfound := locate_of_leadsTo htree hlocate h
  unfold ask lookUp
  by_cases hsize : (root.below names).size ≤ maxPathSize
  · simp [hnul', hsize, Nat.not_lt.2 hsize, hfound]
  · simp [hnul', hsize, Nat.not_le.1 hsize]

/-! ## What the pattern leads to -/

/-- The entries of a directory whose names match. -/
def matchesAt (tree : Node σ) (pattern : Pattern) (path : Path) : List Path :=
  match tree.locate path with
  | .ok (.directory entries) =>
    (entries.listed.filter fun entry => pattern.fits (Text.ofString entry.1)).map fun entry => path.child entry.1
  | _ => []

theorem select_matching (tree : Node σ) (room : Option Nat) (pattern : Pattern) (path : Path) :
    (tree.select room [.matching pattern] path).Completes (tree.matchesAt pattern path)
      (path.size ≤ maxPathSize) := by
  have heach (entries : List (String × Node σ)) :
      Search.each (fun entry => tree.select room [] (path.child entry.1)) entries =
        ⟨entries.map fun entry => path.child entry.1, none⟩ := by
    induction entries with
    | nil => rfl
    | cons entry rest ih =>
        rw [Search.each, ih]
        rfl
  rw [select, matchesAt, entriesAt]
  by_cases hsize : path.size ≤ maxPathSize
  · rw [if_neg (Nat.not_lt.2 hsize)]
    refine ⟨fun _ => ?_, fun h => absurd hsize h⟩
    cases tree.locate path with
    | error e => rfl
    | ok node =>
        cases node with
        | file bytes => rfl
        | store content => rfl
        | directory entries => exact heach _
  · rw [if_pos (Nat.not_le.1 hsize)]
    exact ⟨fun h => absurd h hsize, fun _ => Option.some_ne_none _⟩

/-- Everything that the standard pattern leads to, one directory after the other. -/
def standardPaths (tree node : Node σ) (root : Path) : List Path :=
  ((node.directories root).flatMap (tree.matchesAt javaGlob)).eraseDups

theorem select_everywhere (hroot : tree.locate root = .ok node) (room : Option Nat) :
    (tree.select room [.anyDepth, .matching javaGlob] root).Completes (tree.standardPaths node root)
      (Fits room node.depth ∧ ∀ p ∈ node.directories root, p.size ≤ maxPathSize) := by
  rw [select, hroot]
  dsimp only
  refine ((node.directoriesBelow_completes room root).goOn fun p _ => tree.select_matching room javaGlob p).once.iff ?_
  tauto

/-- It leads to everything below with a name that ends so. -/
theorem mem_standardPaths_iff (htree : tree.WellNamed) (hroot : tree.locate root = .ok node) (q : Path) :
    q ∈ tree.standardPaths node root ↔
      ∃ names last found, node.LeadsTo (names ++ [last]) found ∧ EndsInJava last ∧
        q = root.below (names ++ [last]) := by
  have hnode := htree.locate hroot
  rw [standardPaths, List.mem_eraseDups, List.mem_flatMap]
  constructor
  · rintro ⟨p, hp, hq⟩
    obtain ⟨names, rfl, hnames⟩ := exists_of_mem_directories node root hnode hp
    unfold matchesAt at hq
    split at hq
    · next entries hlocate =>
        obtain ⟨⟨last, next⟩, hentry, rfl⟩ := List.mem_map.1 hq
        obtain ⟨hlisted, hfits⟩ := List.mem_filter.1 hentry
        obtain ⟨hmem, hlast⟩ := Entries.mem_listed_iff.1 hlisted
        obtain ⟨first, hf⟩ := Entries.exists_find?_of_mem_toList hmem
        rw [locate_below hroot (not_mem_of_isFileName hnames)] at hlocate
        have hleads := (leadsTo_iff (not_mem_of_isFileName hnames)
          (rootName_not_mem_of_isFileName hnames)).2 hlocate
        exact ⟨names, last, first, hleads.concat hlast hf, (fits_javaGlob last).1 hfits,
          root.below_child names last⟩
    · cases hq
  · rintro ⟨names, last, found, hleads, hends, rfl⟩
    refine ⟨_, hleads.mem_directories root, ?_⟩
    obtain ⟨entries, next, hdirectory, hf, hlast⟩ := hleads.exists_directory
    rw [matchesAt, locate_of_leadsTo htree hroot hdirectory]
    have hlisted := Entries.mem_listed_iff.2 ⟨Entries.mem_toList_of_find? hf, hlast⟩
    exact List.mem_map.2 ⟨(last, next), List.mem_filter.2 ⟨hlisted, (fits_javaGlob last).2 hends⟩,
      root.below_child names last⟩

/-! ## Files that are found -/

/-- What a search below a root needs: there is room for one call in the other, and no directory below has too
long a path, nor anything with a name like that of a file that is looked for. -/
structure Searchable (node : Node σ) (root : Path) (room : Option Nat) : Prop where
  depth : Fits room node.depth
  directory_size : ∀ p ∈ node.directories root, p.size ≤ maxPathSize
  found_size : ∀ names last found, node.LeadsTo (names ++ [last]) found → EndsInJava last →
    (root.below (names ++ [last])).size ≤ maxPathSize

/-- The files are told from the rest, if no path is too long to ask. -/
theorem filesAmong_eq {isFile : Path → Bool} {paths : List Path}
    (h : ∀ p ∈ paths, tree.isFileAt p = if p.size ≤ maxPathSize then .ok (isFile p) else .error ⟨p⟩) :
    ((∀ p ∈ paths, p.size ≤ maxPathSize) → tree.filesAmong paths = .ok (paths.filter isFile)) ∧
    (¬ (∀ p ∈ paths, p.size ≤ maxPathSize) → ∃ e, tree.filesAmong paths = .error e) := by
  induction paths with
  | nil => exact ⟨fun _ => rfl, fun hall => absurd (List.forall_mem_nil _) hall⟩
  | cons p rest ih =>
      obtain ⟨hp, hrest⟩ := List.forall_mem_cons.1 h
      obtain ⟨hok, herror⟩ := ih hrest
      rw [filesAmong, hp, List.forall_mem_cons]
      by_cases hsize : p.size ≤ maxPathSize
      · rw [if_pos hsize]
        refine ⟨fun hall => ?_, fun hall => ?_⟩
        · rw [hok hall.2, List.filter_cons]
          rfl
        · obtain ⟨e, he⟩ := herror fun hr => hall ⟨hsize, hr⟩
          rw [he]
          exact ⟨e, rfl⟩
      · rw [if_neg hsize]
        exact ⟨fun hall => absurd hall.1 hsize, fun _ => ⟨_, rfl⟩⟩

/-- The files that the standard pattern leads to. -/
def standardFiles (tree node : Node σ) (root : Path) : List Path :=
  (tree.standardPaths node root).filter fun p => (tree.locate p).toOption.any (!·.isDirectory)

/-- They are all the files below that are looked for. -/
theorem mem_standardFiles_iff (htree : tree.WellNamed) (hroot : tree.locate root = .ok node) (q : Path) :
    q ∈ tree.standardFiles node root ↔
      ∃ names last, node.HoldsFile (names ++ [last]) ∧ EndsInJava last ∧ q = root.below (names ++ [last]) := by
  rw [standardFiles, List.mem_filter, mem_standardPaths_iff htree hroot]
  constructor
  · rintro ⟨⟨names, last, found, hleads, hends, rfl⟩, hfile⟩
    rw [locate_of_leadsTo htree hroot hleads] at hfile
    exact ⟨names, last, ⟨found, hleads, by simpa [Except.toOption] using hfile⟩, hends, rfl⟩
  · rintro ⟨names, last, ⟨file, hleads, hfile⟩, hends, rfl⟩
    refine ⟨⟨names, last, file, hleads, hends, rfl⟩, ?_⟩
    rw [locate_of_leadsTo htree hroot hleads]
    simpa [Except.toOption] using hfile

/-- These texts are the files below a root that are looked for: in the order of their code points, each once, and
written so that reading them gives the root and the names from there on. -/
structure ListsFiles (node : Node σ) (root : Path) (files : List String) : Prop where
  ordered : files.Pairwise (· < ·)
  mem_iff : ∀ file, file ∈ files ↔ ∃ names last, node.HoldsFile (names ++ [last]) ∧ EndsInJava last ∧
    Path.parse file = root.below (names ++ [last]) ∧ (Path.parse file).toText = file

theorem isNormal_below (hroot : root.IsNormal) (hnames : ∀ name ∈ names, IsFileName name) :
    (root.below names).IsNormal where
  slashes_le := hroot.slashes_le
  isName name hname := by
    rcases List.mem_append.1 hname with hname | hname
    · exact hroot.isName name hname
    · exact (hnames name hname).1

theorem pairwise_mergeSort_of_nodup {files : List String} (h : files.Nodup) :
    (files.mergeSort fun a b => a ≤ b).Pairwise (· < ·) := by
  have hsorted : (files.mergeSort fun a b => a ≤ b).Pairwise fun a b => decide (a ≤ b) = true := by
    refine List.pairwise_mergeSort (fun a b c hab hbc => ?_) (fun a b => ?_) files
    · exact decide_eq_true (String.le_trans (of_decide_eq_true hab) (of_decide_eq_true hbc))
    · rw [Bool.or_eq_true, decide_eq_true_eq, decide_eq_true_eq]
      exact String.le_total a b
  have hnodup : (files.mergeSort fun a b => a ≤ b).Nodup := (List.mergeSort_perm files _).nodup_iff.2 h
  refine (hsorted.and hnodup).imp fun {a b} hab => String.not_le.1 fun hba => ?_
  exact hab.2 (String.le_antisymm (of_decide_eq_true hab.1) hba)

/-- A root that is a file is the only one that is found there. -/
theorem findFiles_of_file (hroot : tree.lookUp root = .ok node) (hfile : node.isDirectory = false)
    (pattern : String) (room : Option Nat) : tree.findFiles root pattern room = .ok [root.toText] := by
  rw [findFiles, isFileAt, ask, hroot]
  dsimp only
  rw [hfile]
  rfl

theorem searchable_iff (htree : tree.WellNamed) (hroot : tree.locate root = .ok node) {room : Option Nat} :
    node.Searchable root room ↔
      (Fits room node.depth ∧ ∀ p ∈ node.directories root, p.size ≤ maxPathSize) ∧
        ∀ p ∈ tree.standardPaths node root, p.size ≤ maxPathSize := by
  constructor
  · rintro ⟨hdepth, hdirectories, hfound⟩
    refine ⟨⟨hdepth, hdirectories⟩, fun p hp => ?_⟩
    obtain ⟨names, last, found, hleads, hends, rfl⟩ := (mem_standardPaths_iff htree hroot p).1 hp
    exact hfound names last found hleads hends
  · rintro ⟨⟨hdepth, hdirectories⟩, hfound⟩
    refine ⟨hdepth, hdirectories, fun names last found hleads hends => ?_⟩
    exact hfound _ ((mem_standardPaths_iff htree hroot _).2 ⟨names, last, found, hleads, hends, rfl⟩)

/-- Below a directory the search finds what the standard pattern leads to, in order.  Where it cannot search, it
fails. -/
theorem findFiles_standard (htree : tree.WellNamed) (hroot : tree.lookUp root = .ok node)
    (hdir : node.isDirectory = true) (room : Option Nat) :
    (node.Searchable root room → tree.findFiles root "**/*.java" room =
      .ok (((tree.standardFiles node root).map Path.toText).mergeSort fun a b => a ≤ b)) ∧
    (¬ node.Searchable root room → ∃ e, tree.findFiles root "**/*.java" room = .error e) := by
  have hlocate := (lookUp_eq_ok_iff.1 hroot).2.2
  have hask (question : Node σ → Bool) : tree.ask root question = .ok (question node) := by
    rw [ask, hroot]
  have hsteps : FileStep.parse "**/*.java" = .ok [.anyDepth, .matching javaGlob] := rfl
  have hfind : tree.findFiles root "**/*.java" room =
      (tree.filesBelow room root [.anyDepth, .matching javaGlob]).mapError .ofStop := by
    rw [findFiles, isFileAt, hask, hdir]
    simp only [Bool.not_true, hsteps]
  have hsearch := select_everywhere hlocate room
  have hquestion : ∀ p ∈ tree.standardPaths node root, tree.isFileAt p =
      if p.size ≤ maxPathSize then .ok ((tree.locate p).toOption.any (!·.isDirectory)) else .error ⟨p⟩ := by
    intro p hp
    obtain ⟨names, last, found, hleads, -, rfl⟩ := (mem_standardPaths_iff htree hlocate p).1 hp
    rw [isFileAt, ask_below htree hroot hleads, locate_of_leadsTo htree hlocate hleads]
    rfl
  obtain ⟨hamong, hfails⟩ := filesAmong_eq hquestion
  rw [searchable_iff htree hlocate, hfind, filesBelow, hask, hdir]
  dsimp only
  constructor
  · rintro ⟨hcomplete, hsizes⟩
    rw [hsearch.done hcomplete, hamong hsizes]
    rfl
  · intro hnot
    by_cases hcomplete : Fits room node.depth ∧ ∀ p ∈ node.directories root, p.size ≤ maxPathSize
    · obtain ⟨e, he⟩ := hfails fun hsizes => hnot ⟨hcomplete, hsizes⟩
      rw [hsearch.done hcomplete, he]
      exact ⟨_, rfl⟩
    · obtain ⟨stop, hstop⟩ := Option.ne_none_iff_exists'.1 (hsearch.stops hcomplete)
      rw [hstop]
      cases tree.filesAmong (tree.select room [.anyDepth, .matching javaGlob] root).found with
      | error e => exact ⟨_, rfl⟩
      | ok files => exact ⟨_, rfl⟩

/-- A search below a directory has a result exactly if it can search there, and then it has found all files that
are looked for. -/
theorem findFiles_of_directory {text : String} (htree : tree.WellNamed)
    (hroot : tree.lookUp (.parse text) = .ok node) (hdir : node.isDirectory = true) (room : Option Nat) :
    ((∃ files, tree.findFiles (.parse text) "**/*.java" room = .ok files) ↔
      node.Searchable (.parse text) room) ∧
    ∀ files, tree.findFiles (.parse text) "**/*.java" room = .ok files → node.ListsFiles (.parse text) files := by
  have hlocate := (lookUp_eq_ok_iff.1 hroot).2.2
  have hnormal : ∀ {names}, node.HoldsFile names → ((Path.parse text).below names).IsNormal :=
    fun ⟨_, hleads, _⟩ => isNormal_below (Path.isNormal_parse text) (hleads.isFileName (htree.locate hlocate))
  have hfound := mem_standardFiles_iff htree hlocate
  obtain ⟨hresult, hfails⟩ := findFiles_standard htree hroot hdir room
  have hiff : (∃ files, tree.findFiles (.parse text) "**/*.java" room = .ok files) ↔
      node.Searchable (.parse text) room := by
    refine ⟨fun ⟨files, hfiles⟩ => by_contra fun hnot => ?_, fun hs => ⟨_, hresult hs⟩⟩
    obtain ⟨e, he⟩ := hfails hnot
    rw [he] at hfiles
    cases hfiles
  refine ⟨hiff, fun files hfiles => ?_⟩
  have hsearchable := hiff.1 ⟨files, hfiles⟩
  rw [hresult hsearchable] at hfiles
  obtain rfl := Except.ok.inj hfiles
  refine ⟨?_, fun file => ?_⟩
  · -- two paths that are written alike are one
    have hinjective : ∀ p ∈ tree.standardFiles node (.parse text), ∀ q ∈ tree.standardFiles node (.parse text),
        p.toText = q.toText → p = q := by
      intro p hp q hq heq
      obtain ⟨names, last, hholds, -, rfl⟩ := (hfound p).1 hp
      obtain ⟨names', last', hholds', -, rfl⟩ := (hfound q).1 hq
      exact Path.toText_injective (hnormal hholds) (hnormal hholds') heq
    have hnodup : (tree.standardPaths node (.parse text)).Nodup := (areFirst_eraseDups _).nodup
    exact pairwise_mergeSort_of_nodup ((hnodup.filter _).map_on hinjective)
  · rw [(List.mergeSort_perm _ _).mem_iff, List.mem_map]
    constructor
    · rintro ⟨q, hq, rfl⟩
      obtain ⟨names, last, hholds, hends, rfl⟩ := (hfound q).1 hq
      have hread := Path.parse_toText (hnormal hholds)
      exact ⟨names, last, hholds, hends, hread, by rw [hread]⟩
    · rintro ⟨names, last, hholds, hends, hread, htext⟩
      exact ⟨_, (hfound _).2 ⟨names, last, hholds, hends, rfl⟩, by rw [← hread, htext]⟩

end Node

end EmbeddedSql
