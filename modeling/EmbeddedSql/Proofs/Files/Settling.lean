/-
# Where a path leads

A path may go up and down, and what is put at it is put at its settled place, to which the way only goes
down.  A lookup follows the path name by name.  If the last name goes down, that comes to the settled place
too: each way up goes back to a directory that the way has come through, or above the tree, from where no
way leads back.

What is put into a directory changes this one entry of it, and to change it twice is to change it once.
-/
import EmbeddedSql.Proofs.Files.Alteration

namespace EmbeddedSql

variable {σ : Type}

/-! ## Settled places -/

namespace Path

/-- The names of a settled place, the last one first, after some more names of a path. -/
def settleFrom (above names : List String) : List String :=
  names.foldl (fun above name => if name = ".." then above.tail else name :: above) above

theorem settled_eq_settleFrom (p : Path) : p.settled = (settleFrom [] p.route).reverse := rfl

theorem not_mem_settleFrom {above : List String} (h : ".." ∉ above) (names : List String) :
    ".." ∉ settleFrom above names := by
  induction names generalizing above with
  | nil => exact h
  | cons name rest ih =>
      rw [settleFrom, List.foldl_cons]
      split
      · exact ih fun hm => h (List.mem_of_mem_tail hm)
      · next hname =>
          refine ih fun hm => ?_
          rcases List.mem_cons.1 hm with heq | hm
          · exact hname heq.symm
          · exact h hm

theorem not_mem_settled (p : Path) : ".." ∉ p.settled := by
  rw [settled_eq_settleFrom, List.mem_reverse]
  exact not_mem_settleFrom List.not_mem_nil p.route

theorem settled_child {name : String} (h : name ≠ "..") (p : Path) :
    (p.child name).settled = p.settled ++ [name] := by
  rw [settled_eq_settleFrom, settled_eq_settleFrom, settleFrom, route_child h, List.foldl_append,
    List.foldl_cons, List.foldl_nil, if_neg h, List.reverse_cons]
  rfl

end Path

theorem Entries.put_put (name : String) (first second : Node σ) (entries : Entries σ) :
    (entries.put name first).put name second = entries.put name second := by
  induction entries using Entries.rec (motive_1 := fun _ => True) with
  | nil => exact if_pos rfl
  | cons n old rest _ ih =>
      by_cases hn : n = name
      · rw [put, if_pos hn, put, if_pos hn, put, if_pos hn]
      · rw [put, if_neg hn, put, if_neg hn, put, if_neg hn, ih]
  | _ => trivial

namespace Node

/-! ## One name further -/

/-- The node that is found at a place, if there is one. -/
def at? (node : Node σ) (place : List String) : Option (Node σ) := (node.walk [] place).toOption

theorem at?_concat {names : List String} {name : String} (hn : ".." ∉ names ++ [name]) {node : Node σ}
    {entries : Entries σ} (h : node.at? names = some (.directory entries)) :
    node.at? (names ++ [name]) = entries.find? name := by
  induction names generalizing node with
  | nil =>
      obtain rfl : node = .directory entries := by
        cases node <;> cases h
        rfl
      rw [List.nil_append] at hn ⊢
      rw [at?, walk_cons hn]
      cases entries.find? name with
      | none => rfl
      | some next => cases next <;> rfl
  | cons first rest ih =>
      have hrest : ".." ∉ rest ++ [name] := fun hm => hn (List.mem_cons_of_mem _ hm)
      have hfirst : ".." ∉ first :: rest := fun hm => hn (List.mem_append_left [name] hm)
      cases node with
      | file bytes => cases h
      | store content => cases h
      | directory here =>
          rw [at?, walk_cons hfirst] at h
          rw [List.cons_append] at hn ⊢
          rw [at?, walk_cons hn]
          cases hf : here.find? first with
          | none =>
              rw [hf] at h
              cases h
          | some next =>
              rw [hf] at h
              exact ih hrest h

/-- A change of an entry of a directory changes the directory, which is still there. -/
theorem at?_alter {names : List String} {name : String} (hn : ".." ∉ names ++ [name])
    {node : Node σ} {entries : Entries σ} (h : node.at? names = some (.directory entries))
    (change : Option (Node σ) → Option (Node σ)) :
    (alter change (names ++ [name]) node).at? names =
      some (.directory (entries.set name (change (entries.find? name)))) := by
  induction names generalizing node with
  | nil =>
      obtain rfl : node = .directory entries := by
        cases node <;> cases h
        rfl
      rfl
  | cons first rest ih =>
      have hrest : ".." ∉ rest ++ [name] := fun hm => hn (List.mem_cons_of_mem _ hm)
      have hfirst : ".." ∉ first :: rest := fun hm => hn (List.mem_append_left [name] hm)
      cases node with
      | file bytes => cases h
      | store content => cases h
      | directory here =>
          rw [at?, walk_cons hfirst] at h
          cases hf : here.find? first with
          | none =>
              rw [hf] at h
              cases h
          | some next =>
              rw [hf] at h
              rw [List.cons_append, alter, at?, walk_cons hfirst, Entries.find?_put_self, hf]
              · exact ih hrest h
              · exact List.append_ne_nil_of_right_ne_nil rest (List.cons_ne_nil name [])

/-! ## One change after another -/

/-- Two changes of what stands at a place, none of them a removal, are one. -/
theorem alter_alter (first second : Option (Node σ) → Node σ) (place : List String) (node : Node σ) :
    alter (fun old => some (second old)) place (alter (fun old => some (first old)) place node) =
      alter (fun old => some (second (some (first old)))) place node := by
  induction place generalizing node with
  | nil => cases node <;> rfl
  | cons name rest ih =>
      cases node with
      | file bytes => cases rest <;> rfl
      | store content => cases rest <;> rfl
      | directory entries =>
          cases rest with
          | nil =>
              let once := entries.put name (first (entries.find? name))
              show directory (once.put name (second (once.find? name))) = directory (entries.put name _)
              rw [Entries.find?_put_self, Entries.put_put]
          | cons next rest =>
              have hne : next :: rest ≠ [] := List.cons_ne_nil next rest
              rw [alter, alter, alter, Entries.find?_put_self, Option.getD_some, ih, Entries.put_put] <;>
                exact hne

/-! ## Following a path -/

/-- In a directory in which there is nothing no way leads to a name. -/
theorem walk_nil_ne_ok {names : List String} (hlast : names.getLast? ≠ some "..") (hne : names ≠ [])
    (found : Node σ) : (directory .nil).walk [] names ≠ .ok found := by
  induction names with
  | nil => exact absurd rfl hne
  | cons name rest ih =>
      by_cases hname : name = ".."
      · have hrest : rest ≠ [] := by
          rintro rfl
          exact hlast (congrArg some hname)
        rw [List.getLast?_cons_of_ne_nil hrest] at hlast
        rw [walk, if_pos hname]
        exact ih hlast hrest
      · rw [walk_directory hname]
        rintro ⟨⟩

/-- The nodes above one on the way to it, nearest first, stand at the places above its place. -/
def StandsUnder (tree : Node σ) : List String → List (Node σ) → Prop
  | _ :: place, parent :: above => tree.at? place.reverse = some parent ∧ StandsUnder tree place above
  | [], [] => True
  | _, _ => False

/-- A path whose last name goes down is followed to its settled place. -/
theorem at?_settleFrom {tree node found : Node σ} {place names : List String} {above : List (Node σ)}
    (hplace : ".." ∉ place) (hnode : tree.at? place.reverse = some node)
    (habove : StandsUnder tree place above) (hlast : names.getLast? ≠ some "..")
    (h : node.walk above names = .ok found) :
    tree.at? (Path.settleFrom place names).reverse = some found := by
  induction names generalizing node place above with
  | nil =>
      have hfound : node = found := by
        cases node <;> exact Except.ok.inj h
      rw [← hfound]
      exact hnode
  | cons name rest ih =>
      cases node with
      | file bytes => cases h
      | store content => cases h
      | directory entries =>
          have hrestLast : rest.getLast? ≠ some ".." := by
            cases rest with
            | nil => rintro ⟨⟩
            | cons second rest =>
                rwa [List.getLast?_cons_of_ne_nil (List.cons_ne_nil _ _)] at hlast
          rw [Path.settleFrom, List.foldl_cons]
          by_cases hname : name = ".."
          · have hrest : rest ≠ [] := by
              rintro rfl
              exact hlast (congrArg some hname)
            rw [walk.eq_def] at h
            dsimp only at h
            rw [if_pos hname] at h
            rw [if_pos hname]
            cases above with
            | nil => exact absurd h (walk_nil_ne_ok hrestLast hrest found)
            | cons parent above =>
                cases place with
                | nil => exact habove.elim
                | cons last place =>
                    have hplace' : ".." ∉ place := fun hm => hplace (List.mem_cons_of_mem _ hm)
                    exact ih hplace' habove.1 habove.2 hrestLast h
          · rw [walk_directory hname] at h
            rw [if_neg hname]
            cases hf : entries.find? name with
            | none =>
                rw [hf] at h
                cases h
            | some next =>
                rw [hf] at h
                have hplace' : ".." ∉ name :: place := by
                  rw [List.mem_cons, not_or]
                  exact ⟨Ne.symm hname, hplace⟩
                have hnext : tree.at? (name :: place).reverse = some next := by
                  rw [List.reverse_cons, at?_concat ?_ hnode, hf]
                  rw [← List.reverse_cons, List.mem_reverse]
                  exact hplace'
                have habove' : StandsUnder tree (name :: place) (directory entries :: above) :=
                  ⟨hnode, habove⟩
                exact ih hplace' hnext habove' hrestLast h

/-- What is found at a path whose last name goes down stands at its settled place. -/
theorem at?_settled {tree found : Node σ} {path : Path} (hlast : path.route.getLast? ≠ some "..")
    (h : tree.locate path = .ok found) : tree.at? path.settled = some found := by
  have hhere : tree.at? [] = some tree := by cases tree <;> rfl
  have habove : StandsUnder tree [] [] := trivial
  exact at?_settleFrom List.not_mem_nil hhere habove hlast h

end Node

end EmbeddedSql
