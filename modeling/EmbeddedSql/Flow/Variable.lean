/-
# Tracked variables

A variable holds what has been accumulated in it since it was bound or reset: fragments in program
order and the lines they span.  It remembers how far it had grown when it was last reported, so that
it is reported again only after it has changed.

The variables of a scope form an *arena*, in the order in which they were bound.  Updating a variable
keeps its place; a name that is removed and bound again goes to the end.
-/
import EmbeddedSql.Flow.Fragment

namespace EmbeddedSql

inductive VariableKind where
  | plain
  | builder
deriving DecidableEq, Repr

def VariableKind.name : VariableKind → String
  | plain => "plain"
  | builder => "builder"

structure Variable where
  name : String
  kind : VariableKind
  firstLine : Nat
  lastLine : Nat
  fragments : List Fragment
  /-- The number of fragments and the last line when the variable was last reported. -/
  reportedAt : Option (Nat × Nat)
deriving DecidableEq, Repr

namespace Variable

/-- How far the accumulation has grown. -/
def extent (v : Variable) : Nat × Nat := (v.fragments.length, v.lastLine)

/-- Was the variable never reported, or has it grown since? -/
def isUnreported (v : Variable) : Bool := v.reportedAt ≠ some v.extent

def markReported (v : Variable) : Variable := { v with reportedAt := some v.extent }

/-- Was the variable ever reported? -/
def isFinalized (v : Variable) : Bool := v.reportedAt.isSome

/-- Append fragments that end on `line`. -/
def extend (v : Variable) (fragments : List Fragment) (line : Nat) : Variable :=
  { v with fragments := v.fragments ++ fragments, lastLine := max v.lastLine line }

/-- Replace all fragments by ones that continue them and end on `line`. -/
def regrow (v : Variable) (fragments : List Fragment) (line : Nat) : Variable :=
  { v with fragments, lastLine := max v.lastLine line }

@[simp]
theorem isUnreported_markReported (v : Variable) : v.markReported.isUnreported = false := by
  simp [isUnreported, markReported, extent]

end Variable

/-- The variables of a scope, in the order of binding. -/
abbrev Arena := List Variable

namespace Arena

def get? (arena : Arena) (name : String) : Option Variable := arena.find? (·.name == name)

def erase (arena : Arena) (name : String) : Arena := arena.filter (·.name != name)

/-- Put a variable in the place of its namesake, or at the end. -/
def put (arena : Arena) (v : Variable) : Arena :=
  match arena with
  | [] => [v]
  | w :: rest => if w.name == v.name then v :: rest else w :: put rest v

@[simp]
theorem get?_put_self (arena : Arena) (v : Variable) : (arena.put v).get? v.name = some v := by
  induction arena with
  | nil => simp [put, get?]
  | cons w rest ih =>
    by_cases h : w.name = v.name
    · simp [put, get?, h]
    · simpa [put, get?, h] using ih

theorem get?_put_of_ne (arena : Arena) {v : Variable} {name : String} (h : name ≠ v.name) :
    (arena.put v).get? name = arena.get? name := by
  have hv : (v.name == name) = false := by simpa using Ne.symm h
  induction arena with
  | nil => simp [put, get?, hv]
  | cons w rest ih =>
    by_cases hw : w.name = v.name
    · simp [put, get?, hw, hv]
    · by_cases hn : w.name = name
      · simp [put, get?, hn, h]
      · simpa [put, get?, hw, hn] using ih

@[simp]
theorem get?_erase_self (arena : Arena) (name : String) : (arena.erase name).get? name = none := by
  simp [get?, erase]

theorem get?_erase_of_ne (arena : Arena) {name other : String} (h : other ≠ name) :
    (arena.erase name).get? other = arena.get? other := by
  rw [get?, erase, List.find?_filter]
  congr 1
  funext v
  by_cases hv : v.name = other
  · simp [hv, h]
  · simp [hv]

theorem name_of_get? {arena : Arena} {name : String} {v : Variable}
    (h : arena.get? name = some v) : v.name = name := by
  have hv := List.find?_some h
  exact beq_iff_eq.1 hv

theorem get?_cons (w : Variable) (rest : Arena) (name : String) :
    get? (w :: rest) name = if w.name = name then some w else get? rest name := by
  by_cases h : w.name = name <;> simp [get?, h]

/-- Where names stand for one variable each, only the first of these has its name. -/
theorem name_ne {w : Variable} {rest : Arena} (h : (List.map (·.name) (w :: rest)).Nodup) :
    ∀ u ∈ rest, u.name ≠ w.name := by
  intro u hu hname
  refine (List.nodup_cons.1 h).1 ?_
  show w.name ∈ _
  rw [← hname]
  exact List.mem_map_of_mem hu

/-- A new name goes to the end. -/
theorem put_of_get?_eq_none {arena : Arena} {v : Variable} (h : arena.get? v.name = none) :
    arena.put v = arena ++ [v] := by
  induction arena with
  | nil => rfl
  | cons w rest ih =>
    rw [get?_cons] at h
    by_cases hw : w.name = v.name
    · rw [if_pos hw] at h
      cases h
    · rw [if_neg hw] at h
      rw [put, if_neg (by simpa using hw), ih h, List.cons_append]

/-- Putting back a changed variable changes it where it stands. -/
theorem put_change {arena : Arena} (hnodup : (arena.map (·.name)).Nodup) {name : String}
    {v : Variable} (hv : arena.get? name = some v) {change : Variable → Variable}
    (hc : (change v).name = name) :
    arena.put (change v) = arena.map fun w => if w.name = name then change w else w := by
  induction arena with
  | nil => cases hv
  | cons w rest ih =>
    rw [get?_cons] at hv
    by_cases hw : w.name = name
    · rw [if_pos hw] at hv
      obtain rfl := Option.some.inj hv
      have hrest : rest.map (fun u => if u.name = name then change u else u) = rest.map id :=
        List.map_congr_left fun u hu => if_neg (hw ▸ name_ne hnodup u hu)
      rw [put, if_pos (by simp [hw, hc]), List.map_cons, if_pos hw, hrest, List.map_id]
    · rw [if_neg hw] at hv
      rw [put, if_neg (by simpa [hc] using hw), ih (List.nodup_cons.1 hnodup).2 hv, List.map_cons,
        if_neg hw]

/-- A name stands for one variable. -/
theorem filter_name {arena : Arena} (hnodup : (arena.map (·.name)).Nodup) (name : String) :
    arena.filter (·.name == name) = (arena.get? name).toList := by
  induction arena with
  | nil => rfl
  | cons w rest ih =>
    rw [get?_cons, List.filter_cons]
    by_cases hw : w.name = name
    · have hrest : rest.filter (·.name == name) = [] :=
        List.filter_eq_nil_iff.2 fun u hu hname =>
          name_ne hnodup u hu ((beq_iff_eq.1 hname).trans hw.symm)
      rw [if_pos (by simpa using hw), if_pos hw, hrest]
      rfl
    · rw [if_neg (by simpa using hw), if_neg hw]
      exact ih (List.nodup_cons.1 hnodup).2

end Arena

end EmbeddedSql
