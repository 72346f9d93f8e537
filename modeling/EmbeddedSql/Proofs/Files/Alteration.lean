/-
# What a change of a file tree leaves alone

A tree is changed at one place at a time.  A store that lies elsewhere is found again afterwards, and
so is one that lies below a directory that is made; what is written into a directory is found where it
was written.  All of this is said of places that are named without going up: there the way down a tree
depends on nothing above it.
-/
import EmbeddedSql.Files.Tree

namespace EmbeddedSql

variable {σ : Type}

namespace Entries

theorem find?_put_of_ne {name other : String} (h : other ≠ name) (node : Node σ) :
    ∀ entries : Entries σ, (entries.put name node).find? other = entries.find? other
  | .nil => if_neg (Ne.symm h)
  | .cons n old rest => by
      by_cases hn : n = name
      · rw [put, if_pos hn, find?, find?, if_neg (hn ▸ Ne.symm h), if_neg (hn ▸ Ne.symm h)]
      · rw [put, if_neg hn, find?, find?, find?_put_of_ne h node rest]

theorem find?_erase_of_ne {name other : String} (h : other ≠ name) :
    ∀ entries : Entries σ, (entries.erase name).find? other = entries.find? other
  | .nil => rfl
  | .cons n old rest => by
      by_cases hn : n = name
      · rw [erase, if_pos hn, find?, if_neg (hn ▸ Ne.symm h), find?_erase_of_ne h rest]
      · rw [erase, if_neg hn, find?, find?, find?_erase_of_ne h rest]

theorem find?_set_of_ne {name other : String} (h : other ≠ name) (node? : Option (Node σ))
    (entries : Entries σ) : (entries.set name node?).find? other = entries.find? other := by
  cases node? with
  | none => exact find?_erase_of_ne h entries
  | some node => exact find?_put_of_ne h node entries

end Entries

namespace Node

/-! ## Going down -/

theorem walk_directory {name : String} (h : name ≠ "..") (above : List (Node σ))
    (entries : Entries σ) (rest : List String) :
    (directory entries).walk above (name :: rest) =
      match entries.find? name with
      | some next => next.walk (directory entries :: above) rest
      | none => .error (if maxNameSize < name.utf8ByteSize then .nameTooLong else .missing) := by
  rw [walk.eq_def]
  dsimp only
  cases entries.find? name with
  | none => exact if_neg h
  | some next => exact if_neg h

/-- On a way that never goes up it does not matter what lies above. -/
theorem walk_above {names : List String} (h : ".." ∉ names) (above : List (Node σ))
    (node : Node σ) : node.walk above names = node.walk [] names := by
  induction names generalizing above node with
  | nil => cases node <;> rfl
  | cons name rest ih =>
      rw [List.mem_cons, not_or] at h
      cases node with
      | file bytes => rfl
      | store content => rfl
      | directory entries =>
          rw [walk_directory (Ne.symm h.1), walk_directory (Ne.symm h.1)]
          cases entries.find? name with
          | none => rfl
          | some next =>
              dsimp only
              rw [ih h.2 (_ :: above) next, ih h.2 [_] next]

theorem walk_cons {name : String} {rest : List String} (h : ".." ∉ name :: rest)
    (entries : Entries σ) :
    (directory entries).walk [] (name :: rest) =
      match entries.find? name with
      | some next => next.walk [] rest
      | none => .error (if maxNameSize < name.utf8ByteSize then .nameTooLong else .missing) := by
  rw [List.mem_cons, not_or] at h
  rw [walk_directory (Ne.symm h.1)]
  cases entries.find? name with
  | none => rfl
  | some next => exact walk_above h.2 _ next

/-- What lies in something lies in a directory. -/
theorem exists_directory_of_walk {names : List String} {name : String} {node last : Node σ}
    (hn : ".." ∉ names ++ [name]) (h : node.walk [] (names ++ [name]) = .ok last) :
    ∃ entries, node.walk [] names = .ok (.directory entries) := by
  induction names generalizing node with
  | nil =>
      cases node with
      | file bytes => cases h
      | store content => cases h
      | directory entries => exact ⟨entries, rfl⟩
  | cons first rest ih =>
      have hrest : ".." ∉ rest ++ [name] := fun hm => hn (List.mem_cons_of_mem _ hm)
      have hfirst : ".." ∉ first :: rest := fun hm => hn (List.mem_append_left [name] hm)
      cases node with
      | file bytes => cases h
      | store content => cases h
      | directory entries =>
          rw [List.cons_append] at hn h
          rw [walk_cons hn] at h
          rw [walk_cons hfirst]
          cases hf : entries.find? first with
          | none => rw [hf] at h; cases h
          | some next =>
              rw [hf] at h
              exact ih hrest h

/-- The store at a place below a node. -/
def storeAt? (node : Node σ) (names : List String) : Option σ :=
  match node.walk [] names with
  | .ok (.store s) => some s
  | _ => none

theorem storeAt?_cons {name : String} {rest : List String} (h : ".." ∉ name :: rest)
    (entries : Entries σ) :
    (directory entries).storeAt? (name :: rest) =
      (entries.find? name).bind fun next => next.storeAt? rest := by
  unfold storeAt?
  rw [walk_cons h]
  cases entries.find? name <;> rfl

theorem storeAt?_empty (names : List String) (h : ".." ∉ names) :
    (directory (.nil : Entries σ)).storeAt? names = none := by
  cases names with
  | nil => rfl
  | cons name rest => rw [storeAt?_cons h]; rfl

/-! ## Changes -/

/-- Make a directory unless something is there. -/
def orDirectory (old : Option (Node σ)) : Option (Node σ) := some (old.getD (.directory .nil))

/-- A change leaves the stores alone that do not lie at its place or below it, and making a directory
leaves all of them alone. -/
theorem storeAt?_alter {change : Option (Node σ) → Option (Node σ)} {place names : List String}
    (hn : ".." ∉ names) (h : place <+: names → change = orDirectory) (node : Node σ) :
    (alter change place node).storeAt? names = node.storeAt? names := by
  induction place generalizing names node with
  | nil => cases node <;> rfl
  | cons name rest ih =>
      cases node with
      | file bytes => cases rest <;> rfl
      | store content => cases rest <;> rfl
      | directory entries =>
          cases names with
          | nil => cases rest <;> rfl
          | cons other more =>
              have hmore : ".." ∉ more := fun hm => hn (List.mem_cons_of_mem _ hm)
              cases rest with
              | nil =>
                  rw [alter, storeAt?_cons hn, storeAt?_cons hn]
                  by_cases ho : other = name
                  · have hp : [name] <+: other :: more := by
                      rw [ho]
                      exact ⟨more, rfl⟩
                    rw [h hp, ho]
                    show (Entries.find? name (entries.put name _)).bind _ = _
                    rw [Entries.find?_put_self]
                    cases entries.find? name with
                    | none => exact storeAt?_empty more hmore
                    | some old => rfl
                  · rw [Entries.find?_set_of_ne ho]
              | cons second rest =>
                  rw [alter, storeAt?_cons hn, storeAt?_cons hn]
                  · by_cases ho : other = name
                    · have hp : second :: rest <+: more → change = orDirectory := fun hp => by
                        obtain ⟨tail, htail⟩ := hp
                        refine h ⟨tail, ?_⟩
                        rw [ho, ← htail]
                        rfl
                      rw [ho, Entries.find?_put_self]
                      show (alter change (second :: rest) _).storeAt? more = _
                      rw [ih hmore hp]
                      cases entries.find? name with
                      | none => exact storeAt?_empty more hmore
                      | some old => rfl
                    · rw [Entries.find?_put_of_ne ho]
                  · exact List.cons_ne_nil second rest

/-- What is put into a directory is found there. -/
theorem walk_alter_put {names : List String} {name : String} (hn : ".." ∉ names ++ [name])
    {node new : Node σ} {entries : Entries σ} (h : node.walk [] names = .ok (.directory entries)) :
    (alter (fun _ => some new) (names ++ [name]) node).walk [] (names ++ [name]) = .ok new := by
  induction names generalizing node with
  | nil =>
      cases node with
      | file bytes => cases h
      | store content => cases h
      | directory here =>
          rw [List.nil_append] at hn ⊢
          rw [alter, walk_cons hn]
          show (match Entries.find? name (here.put name new) with
            | some next => _
            | none => _) = _
          rw [Entries.find?_put_self]
          cases new <;> rfl
  | cons first rest ih =>
      have hrest : ".." ∉ rest ++ [name] := fun hm => hn (List.mem_cons_of_mem _ hm)
      have hfirst : ".." ∉ first :: rest := fun hm => hn (List.mem_append_left [name] hm)
      cases node with
      | file bytes => cases h
      | store content => cases h
      | directory here =>
          rw [walk_cons hfirst] at h
          cases hf : here.find? first with
          | none => rw [hf] at h; cases h
          | some next =>
              rw [hf] at h
              rw [List.cons_append] at hn ⊢
              rw [alter, walk_cons hn, Entries.find?_put_self, hf]
              · exact ih hrest h
              · exact List.append_ne_nil_of_right_ne_nil rest (List.cons_ne_nil name [])

end Node

namespace Path

/-! ## The way to a path -/

variable {names more : List String} {p : Path}

theorem belowRoot_down {name : String} (h : name ≠ "..") (depth : Nat) (rest : List String) :
    belowRoot depth (name :: rest) = name :: belowRoot (depth + 1) rest :=
  if_neg h

/-- A way that never goes up stays as it is. -/
theorem belowRoot_eq (h : ".." ∉ names) (depth : Nat) : belowRoot depth names = names := by
  induction names generalizing depth with
  | nil => rfl
  | cons name rest ih =>
      rw [List.mem_cons, not_or] at h
      rw [belowRoot_down (Ne.symm h.1), ih h.2]

theorem belowRoot_append (h : ".." ∉ more) (depth : Nat) :
    belowRoot depth (names ++ more) = belowRoot depth names ++ more := by
  induction names generalizing depth with
  | nil => exact belowRoot_eq h depth
  | cons name rest ih =>
      by_cases hname : name = ".."
      · subst hname
        cases depth with
        | zero => exact ih 0
        | succ depth => exact congrArg (".." :: ·) (ih depth)
      · rw [List.cons_append, belowRoot_down hname, belowRoot_down hname, ih, List.cons_append]

/-- Further down the way goes on. -/
theorem route_append (h : ".." ∉ more) (p : Path) :
    route { p with names := p.names ++ more } = p.route ++ more := by
  unfold route
  dsimp only
  split
  · rfl
  · rw [belowRoot_append h, List.cons_append]

theorem route_child {name : String} (h : name ≠ "..") (p : Path) :
    (p.child name).route = p.route ++ [name] :=
  route_append (fun hm => h (List.mem_singleton.1 hm).symm) p

theorem not_mem_route (h : ".." ∉ p.names) : ".." ∉ p.route := by
  unfold route
  split
  · exact h
  · rw [belowRoot_eq h, List.mem_cons, not_or]
    exact ⟨by decide, h⟩

/-- A way that never goes up is settled. -/
theorem settled_eq (h : ".." ∉ p.route) : p.settled = p.route := by
  suffices ∀ (names above : List String), ".." ∉ names →
      names.foldl (fun above name => if name = ".." then above.tail else name :: above) above =
        names.reverse ++ above by
    unfold settled
    rw [this p.route [] h, List.append_nil, List.reverse_reverse]
  intro names
  induction names with
  | nil => exact fun _ _ => rfl
  | cons name rest ih =>
      intro above hn
      rw [List.mem_cons, not_or] at hn
      rw [List.foldl_cons, if_neg (Ne.symm hn.1), ih _ hn.2, List.reverse_cons, List.append_assoc]
      rfl

end Path

end EmbeddedSql
