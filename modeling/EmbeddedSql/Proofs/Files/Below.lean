/-
# What is below a directory

The files below a directory are those that a way down leads to, name after name (`Node.LeadsTo`).  The
program goes another way: it lists all directories first and looks for files in each of them.  Both see the
same files.  The directory of a file below is in the list (`Node.LeadsTo.mem_directories`), and each
directory of the list stands where a way down leads (`Node.exists_of_mem_directories`).

No name on such a way may lead up again, which is where names matter: an entry with a name that nothing can
have would be listed and not be found (`Node.WellNamed`).  The root of the file system may stand in a
directory, which does not list it.

What is found is told by its path as a text.  Many texts are read as one path, since empty names and single
dots are dropped, but a path that has been read is written in one way, and what is written is read as the same
path.  So paths that have been read are the same if they are written alike (`Path.toText_injective`).
-/
import EmbeddedSql.Files.Discovery
import EmbeddedSql.Proofs.Files.Alteration

namespace EmbeddedSql

/-! ## Paths as they are written -/

namespace Path

/-- A name that counts in a path. -/
def IsName (name : String) : Prop := name ≠ "" ∧ name ≠ "." ∧ '/' ∉ name.toList

instance : DecidablePred IsName := fun _ => inferInstanceAs (Decidable (_ ∧ _ ∧ _))

/-- A path that can have been read. -/
structure IsNormal (p : Path) : Prop where
  slashes_le : p.slashes ≤ 2
  isName : ∀ name ∈ p.names, IsName name

/-! ## Names between slashes -/

theorem namesOf_eq (text : String) :
    namesOf text = ((splitAtEach '/' text.toList).map String.ofList).filter fun name => name != "" && name != "." :=
  rfl

theorem isName_of_mem_namesOf {text name : String} (h : name ∈ namesOf text) : IsName name := by
  obtain ⟨hpiece, hkept⟩ := List.mem_filter.1 h
  obtain ⟨piece, hmem, rfl⟩ := List.mem_map.1 hpiece
  rw [Bool.and_eq_true, bne_iff_ne, bne_iff_ne] at hkept
  refine ⟨hkept.1, hkept.2, ?_⟩
  rw [String.toList_ofList]
  exact not_mem_of_mem_splitAtEach hmem

theorem isNormal_parse (text : String) : (parse text).IsNormal where
  slashes_le := by
    show slashesOf text ≤ 2
    unfold slashesOf
    split <;> decide
  isName _ h := isName_of_mem_namesOf h

/-- Slashes in front make no names. -/
theorem filter_splitAtEach_slashes (n : Nat) (cs : List Char) :
    ((splitAtEach '/' (List.replicate n '/' ++ cs)).map String.ofList).filter (fun name => name != "" && name != ".") =
      ((splitAtEach '/' cs).map String.ofList).filter fun name => name != "" && name != "." := by
  induction n with
  | zero => rfl
  | succ n ih =>
      rw [List.replicate_succ, List.cons_append, splitAtEach, if_pos rfl, List.map_cons,
        List.filter_cons_of_neg (by decide), ih]

/-- The names of a written path, one after the other. -/
def joined (names : List String) : List Char := List.intercalate ['/'] (names.map String.toList)

theorem toList_toText {p : Path} (h : p ≠ here) :
    p.toText.toList = List.replicate p.slashes '/' ++ joined p.names := by
  rw [toText, if_neg h, String.toList_append, String.toList_ofList, String.toList_intercalate]
  rfl

theorem filter_splitAtEach_joined {names : List String} (h : ∀ name ∈ names, IsName name) :
    ((splitAtEach '/' (joined names)).map String.ofList).filter (fun name => name != "" && name != ".") = names := by
  cases hn : names with
  | nil => decide
  | cons first rest =>
      rw [← hn, joined, splitAtEach_intercalate]
      · rw [List.map_map]
        have hid : (String.ofList ∘ String.toList) = id := funext fun _ => String.ofList_toList
        rw [hid, List.map_id, List.filter_eq_self]
        intro name hname
        obtain ⟨hne, hdot, -⟩ := h name hname
        simp [hne, hdot]
      · rw [hn]
        exact List.cons_ne_nil _ _
      · intro piece hpiece
        obtain ⟨name, hname, rfl⟩ := List.mem_map.1 hpiece
        exact (h name hname).2.2

theorem exists_joined_cons (first : String) (rest : List String) :
    ∃ more, joined (first :: rest) = first.toList ++ more := by
  cases rest with
  | nil => exact ⟨[], by simp [joined, List.intercalate]⟩
  | cons second rest =>
      exact ⟨'/' :: joined (second :: rest), by simp [joined, List.intercalate]⟩

/-- No slash stands in front of names. -/
theorem takeWhile_joined {names : List String} (h : ∀ name ∈ names, IsName name) :
    (joined names).takeWhile (· == '/') = [] := by
  cases names with
  | nil => rfl
  | cons first rest =>
      obtain ⟨hne, -, hslash⟩ := h first List.mem_cons_self
      obtain ⟨more, hjoined⟩ := exists_joined_cons first rest
      rw [hjoined]
      cases hfirst : first.toList with
      | nil => exact absurd (String.toList_eq_nil_iff.1 hfirst) hne
      | cons c cs =>
          rw [hfirst, List.mem_cons, not_or] at hslash
          exact List.takeWhile_cons_of_neg (by simpa using Ne.symm hslash.1)

theorem slashesOf_eq {n : Nat} {names : List String} (h : ∀ name ∈ names, IsName name) (hn : n ≤ 2)
    {text : String} (htext : text.toList = List.replicate n '/' ++ joined names) : slashesOf text = n := by
  have hfront : text.toList.takeWhile (· == '/') = List.replicate n '/' := by
    rw [htext, List.takeWhile_append_of_pos fun c hc => beq_iff_eq.2 (List.eq_of_mem_replicate hc),
      takeWhile_joined h, List.append_nil]
  rw [slashesOf, hfront, List.length_replicate]
  match n, hn with
  | 0, _ | 1, _ | 2, _ => rfl

/-- A path is read back from its text. -/
theorem parse_toText {p : Path} (h : p.IsNormal) : parse p.toText = p := by
  by_cases hhere : p = here
  · rw [hhere]
    decide +kernel
  · have htext := toList_toText hhere
    have hnames : namesOf p.toText = p.names := by
      rw [namesOf_eq, htext, filter_splitAtEach_slashes, filter_splitAtEach_joined h.isName]
    rw [parse, slashesOf_eq h.isName h.slashes_le htext, hnames]

theorem toText_injective {p q : Path} (hp : p.IsNormal) (hq : q.IsNormal) (h : p.toText = q.toText) : p = q := by
  rw [← parse_toText hp, h, parse_toText hq]

end Path

variable {σ : Type}

/-! ## Files below a node -/

/-- The way down from a node along names, each listed in its directory, and the node at its end. -/
inductive Node.LeadsTo : Node σ → List String → Node σ → Prop
  | here (node : Node σ) : LeadsTo node [] node
  | entry {entries : Entries σ} {name : String} {next found : Node σ} {names : List String} :
      name ≠ Path.rootName → entries.find? name = some next → LeadsTo next names found →
        LeadsTo (.directory entries) (name :: names) found

/-- At the end of the way down from a node along these names there is a file. -/
def Node.HoldsFile (node : Node σ) (names : List String) : Prop :=
  ∃ file, node.LeadsTo names file ∧ file.isDirectory = false

/-- A name that something can have in a directory. -/
def IsFileName (name : String) : Prop := Path.IsName name ∧ name ≠ ".." ∧ '\x00' ∉ name.toList

instance : DecidablePred IsFileName := fun _ => inferInstanceAs (Decidable (_ ∧ _ ∧ _))

mutual
/-- Everything from a node down has a name that it can have. -/
def Node.WellNamed : Node σ → Prop
  | .directory entries => entries.WellNamed
  | _ => True

def Entries.WellNamed : Entries σ → Prop
  | .nil => True
  | .cons name node rest => (name = Path.rootName ∨ IsFileName name) ∧ node.WellNamed ∧ rest.WellNamed
end

mutual
/-- The paths of all directories from a node down, each before those below it. -/
def Node.directories (path : Path) : Node σ → List Path
  | .directory entries => path :: entries.directories path
  | _ => []

def Entries.directories (path : Path) : Entries σ → List Path
  | .nil => []
  | .cons name node rest =>
    (if name = Path.rootName then [] else node.directories (path.child name)) ++ rest.directories path
end

mutual
/-- How many directories are nested from a node down. -/
def Node.depth : Node σ → Nat
  | .directory entries => entries.depth + 1
  | _ => 0

def Entries.depth : Entries σ → Nat
  | .nil => 0
  | .cons name node rest => if name = Path.rootName then rest.depth else max node.depth rest.depth
end

/-- The path that goes on from another one. -/
def Path.below (p : Path) (names : List String) : Path := { p with names := p.names ++ names }

theorem Path.below_nil (p : Path) : p.below [] = p := by
  rw [below, List.append_nil]

theorem Path.child_below (p : Path) (name : String) (names : List String) :
    (p.child name).below names = p.below (name :: names) := by
  rw [child, below, below, List.append_assoc, List.singleton_append]

theorem Path.below_child (p : Path) (names : List String) (name : String) :
    (p.below names).child name = p.below (names ++ [name]) := by
  rw [child, below, below, List.append_assoc]

theorem not_mem_of_isFileName {names : List String} (h : ∀ name ∈ names, IsFileName name) : ".." ∉ names :=
  fun hm => (h _ hm).2.1 rfl

namespace Entries

theorem mem_toList_of_find? {name : String} {node : Node σ} :
    ∀ {entries : Entries σ}, entries.find? name = some node → (name, node) ∈ entries.toList
  | .cons n next rest, h => by
      rw [find?] at h
      split at h
      · next hn =>
          obtain rfl := Option.some.inj h
          rw [hn]
          exact List.mem_cons_self
      · exact List.mem_cons_of_mem _ (mem_toList_of_find? h)

theorem WellNamed.of_mem_toList {name : String} {node : Node σ} :
    ∀ {entries : Entries σ}, entries.WellNamed → (name, node) ∈ entries.toList →
      (name = Path.rootName ∨ IsFileName name) ∧ node.WellNamed
  | .cons n next rest, h, hm => by
      obtain ⟨hname, hnode, hrest⟩ := h
      rcases List.mem_cons.1 hm with heq | hm
      · obtain ⟨rfl, rfl⟩ := Prod.mk.inj heq
        exact ⟨hname, hnode⟩
      · exact of_mem_toList hrest hm

theorem WellNamed.of_find? {entries : Entries σ} (h : entries.WellNamed) {name : String} {node : Node σ}
    (hf : entries.find? name = some node) : (name = Path.rootName ∨ IsFileName name) ∧ node.WellNamed :=
  h.of_mem_toList (mem_toList_of_find? hf)

theorem mem_listed_iff {entries : Entries σ} {name : String} {node : Node σ} :
    (name, node) ∈ entries.listed ↔ (name, node) ∈ entries.toList ∧ name ≠ Path.rootName := by
  rw [listed, List.mem_filter, bne_iff_ne]

/-- Of two entries with one name the first is found. -/
theorem exists_find?_of_mem_toList {name : String} {node : Node σ} :
    ∀ {entries : Entries σ}, (name, node) ∈ entries.toList → ∃ first, entries.find? name = some first
  | .cons n next rest, hm => by
      rw [find?]
      split
      · exact ⟨next, rfl⟩
      · next hn =>
          rcases List.mem_cons.1 hm with heq | hm
          · exact absurd (Prod.mk.inj heq).1.symm hn
          · exact exists_find?_of_mem_toList hm

theorem directories_eq (path : Path) :
    ∀ entries : Entries σ, entries.directories path =
      entries.listed.flatMap fun (name, node) => node.directories (path.child name)
  | .nil => rfl
  | .cons name node rest => by
      rw [directories, directories_eq path rest, listed, listed, toList, List.filter_cons]
      by_cases hname : name = Path.rootName
      · simp [hname]
      · simp [hname]

end Entries

namespace Node

variable {node found : Node σ} {names : List String}

/-! ## Going further down -/

theorem walk_up (above : List (Node σ)) (entries : Entries σ) (rest : List String) :
    (directory entries).walk above (".." :: rest) = (above.headD (.directory .nil)).walk above.tail rest := by
  rw [walk.eq_def]
  dsimp only
  rw [if_pos rfl]
  cases above <;> rfl

theorem eq_of_walk_nil {above : List (Node σ)} (h : node.walk above [] = .ok found) : node = found := by
  cases node <;> exact Except.ok.inj h

/-- The way along some names and then down along more of them. -/
theorem walk_append {above : List (Node σ)} {more : List String} (hmore : ".." ∉ more)
    (h : node.walk above names = .ok found) : node.walk above (names ++ more) = found.walk [] more := by
  induction names generalizing above node with
  | nil =>
      obtain rfl := eq_of_walk_nil h
      exact walk_above hmore above node
  | cons name rest ih =>
      cases node with
      | file bytes => cases h
      | store content => cases h
      | directory entries =>
          rw [List.cons_append]
          by_cases hname : name = ".."
          · subst hname
            rw [walk_up] at h ⊢
            exact ih h
          · rw [walk_directory hname] at h ⊢
            cases hf : entries.find? name with
            | none =>
                rw [hf] at h
                cases h
            | some next =>
                rw [hf] at h
                exact ih h

/-- Names stay what they are on the way. -/
theorem WellNamed.walk {above : List (Node σ)} (habove : ∀ parent ∈ above, parent.WellNamed)
    (hnode : node.WellNamed) (h : node.walk above names = .ok found) : found.WellNamed := by
  induction names generalizing above node with
  | nil =>
      obtain rfl := eq_of_walk_nil h
      exact hnode
  | cons name rest ih =>
      cases node with
      | file bytes => cases h
      | store content => cases h
      | directory entries =>
          by_cases hname : name = ".."
          · subst hname
            rw [walk_up] at h
            refine ih (fun parent hp => habove parent (List.mem_of_mem_tail hp)) ?_ h
            cases above with
            | nil => exact trivial
            | cons parent above => exact habove parent List.mem_cons_self
          · rw [walk_directory hname] at h
            cases hf : entries.find? name with
            | none =>
                rw [hf] at h
                cases h
            | some next =>
                rw [hf] at h
                exact ih (List.forall_mem_cons.2 ⟨hnode, habove⟩) (Entries.WellNamed.of_find? hnode hf).2 h

/-- A way down is followed to its end. -/
theorem leadsTo_iff (h : ".." ∉ names) (hroot : Path.rootName ∉ names) :
    node.LeadsTo names found ↔ node.walk [] names = .ok found := by
  induction names generalizing node with
  | nil =>
      constructor
      · rintro ⟨⟩
        cases found <;> rfl
      · intro hwalk
        obtain rfl := eq_of_walk_nil hwalk
        exact .here node
  | cons name rest ih =>
      have hrest : ".." ∉ rest := fun hm => h (List.mem_cons_of_mem _ hm)
      have hrest' : Path.rootName ∉ rest := fun hm => hroot (List.mem_cons_of_mem _ hm)
      constructor
      · intro hleads
        cases hleads with
        | entry _ hf hnext =>
            rw [walk_cons h, hf]
            exact (ih hrest hrest').1 hnext
      · intro hwalk
        cases node with
        | file bytes => cases hwalk
        | store content => cases hwalk
        | directory entries =>
            rw [walk_cons h] at hwalk
            cases hf : entries.find? name with
            | none =>
                rw [hf] at hwalk
                cases hwalk
            | some next =>
                rw [hf] at hwalk
                have hname : name ≠ Path.rootName := fun heq => hroot (heq ▸ List.mem_cons_self)
                exact .entry hname hf ((ih hrest hrest').2 hwalk)

theorem rootName_not_mem_of_isFileName (h : ∀ name ∈ names, IsFileName name) : Path.rootName ∉ names :=
  fun hm => (h _ hm).1.2.2 (by decide)

namespace LeadsTo

/-- The names on a way down are ones that files can have. -/
theorem isFileName (h : node.LeadsTo names found) (hnode : node.WellNamed) : ∀ name ∈ names, IsFileName name := by
  induction h with
  | here => exact List.forall_mem_nil _
  | entry hname hf _ ih =>
      obtain ⟨hor, hnext⟩ := Entries.WellNamed.of_find? hnode hf
      exact List.forall_mem_cons.2 ⟨hor.resolve_left hname, ih hnext⟩

/-- What is led to stands in a directory. -/
theorem exists_directory {name : String} (h : node.LeadsTo (names ++ [name]) found) :
    ∃ entries next, node.LeadsTo names (.directory entries) ∧ entries.find? name = some next ∧
      name ≠ Path.rootName := by
  induction names generalizing node with
  | nil =>
      cases h with
      | @entry entries _ next _ _ hname hf _ => exact ⟨entries, next, .here _, hf, hname⟩
  | cons first rest ih =>
      cases h with
      | entry hfirst hfound hnext =>
          obtain ⟨entries, next, hleads, hf, hname⟩ := ih hnext
          exact ⟨entries, next, .entry hfirst hfound hleads, hf, hname⟩

theorem concat {name : String} {entries : Entries σ} {next : Node σ} (h : node.LeadsTo names (.directory entries))
    (hname : name ≠ Path.rootName) (hf : entries.find? name = some next) : node.LeadsTo (names ++ [name]) next := by
  generalize hd : directory entries = last at h
  induction h with
  | here =>
      subst hd
      exact .entry hname hf (.here next)
  | entry hfirst hfound _ ih => exact .entry hfirst hfound (ih hd)

/-- The directory of what is led to is among those below. -/
theorem mem_directories {name : String} (h : node.LeadsTo (names ++ [name]) found) (path : Path) :
    path.below names ∈ node.directories path := by
  induction names generalizing node path with
  | nil =>
      cases h with
      | entry =>
          rw [Path.below_nil, directories]
          exact List.mem_cons_self
  | cons first rest ih =>
      cases h with
      | entry hfirst hf hnext =>
          rw [directories, Entries.directories_eq, ← Path.child_below]
          have hlisted := Entries.mem_listed_iff.2 ⟨Entries.mem_toList_of_find? hf, hfirst⟩
          exact List.mem_cons_of_mem _ (List.mem_flatMap.2 ⟨_, hlisted, ih hnext _⟩)

end LeadsTo

mutual
/-- The directories below a node stand at paths that go on from its own. -/
theorem exists_of_mem_directories {p : Path} : ∀ (node : Node σ) (path : Path), node.WellNamed →
    p ∈ node.directories path → ∃ names, p = path.below names ∧ ∀ name ∈ names, IsFileName name
  | .directory entries, path, hnode, hp => by
      rw [directories] at hp
      rcases List.mem_cons.1 hp with rfl | hp
      · exact ⟨[], (Path.below_nil p).symm, List.forall_mem_nil _⟩
      · exact exists_of_mem_entries entries path hnode hp

theorem exists_of_mem_entries {p : Path} : ∀ (entries : Entries σ) (path : Path), entries.WellNamed →
    p ∈ entries.directories path → ∃ names, p = path.below names ∧ ∀ name ∈ names, IsFileName name
  | .cons name node rest, path, hentries, hp => by
      obtain ⟨hor, hnode, hrest⟩ := hentries
      rw [Entries.directories] at hp
      rcases List.mem_append.1 hp with hp | hp
      · split at hp
        · cases hp
        · next hname =>
            obtain ⟨names, rfl, hnames⟩ := exists_of_mem_directories node (path.child name) hnode hp
            exact ⟨name :: names, path.child_below name names,
              List.forall_mem_cons.2 ⟨hor.resolve_left hname, hnames⟩⟩
      · exact exists_of_mem_entries rest path hrest hp
end

end Node

end EmbeddedSql
