/-
# Connections that bring a database up to date at once

Any number of connections bring the same database up to date, each of them going through the versions in
order.  For each version it reads the number of the database without a lock.  Where the version is
pending it waits for the exclusive lock, and when it has the lock it reads the number once more, since
others may have made the changes while it waited.

| stage | step |
| :-- | :-- |
| `reading` | the number is read, outside of a transaction |
| `waiting` | the lock is taken, if nobody holds it |
| `checking` | the number is read again, in the transaction |
| `changing` | one statement is carried out, or the new number is written |
| `committing` | the changes become visible to all, and the lock is given back |
| `undoing` | after a fault, the changes are dropped and the lock is given back |

Inside of a transaction a connection sees its own changes, and nobody else does: outside of it the
database is read as it was committed last.  A connection can always take its next step, unless it waits
for a lock that another one holds, has gone through all versions or has failed.  The steps of all
connections are taken in any order, which is a *schedule*.
-/
import EmbeddedSql.Store.Migration
import Mathlib.Logic.Function.Basic

namespace EmbeddedSql

/-- Where a connection stands that brings a database up to date.  While it holds the lock, `view` is the
database as it sees it. -/
inductive Stage where
  | reading (left : List Migration)
  | waiting (m : Migration) (rest : List Migration)
  | checking (m : Migration) (rest : List Migration) (view : Database)
  | changing (m : Migration) (left : List SchemaChange) (rest : List Migration) (view : Database)
  | committing (reached : Option Migration) (rest : List Migration) (view : Database)
  | undoing (e : SchemaError)
  | failed (e : SchemaError)
deriving DecidableEq

namespace Stage

/-- Does a connection hold the lock in this stage? -/
def locks : Stage → Bool
  | checking .. | changing .. | committing .. | undoing _ => true
  | reading _ | waiting .. | failed _ => false

/-- Has the connection come to its end? -/
def isOver : Stage → Bool
  | reading [] | failed _ => true
  | _ => false

end Stage

/-- A connection with the versions that it has reached itself. -/
structure Migrator where
  stage : Stage
  reached : List Int
deriving DecidableEq

/-- A database with `n` connections that bring it up to date. -/
structure Contention (n : Nat) where
  committed : Database
  holder : Option (Fin n)
  migrators : Fin n → Migrator
  /-- The statements that have been carried out by any of them, each with the version it leads to. -/
  made : List (Int × SchemaChange)

namespace Contention

variable {n : Nat}

/-- Nobody has begun. -/
def start (n : Nat) (ms : List Migration) (db : Database) : Contention n :=
  ⟨db, none, fun _ => ⟨.reading ms, []⟩, []⟩

def stage (sys : Contention n) (c : Fin n) : Stage := (sys.migrators c).stage

/-- The versions that a connection has reached itself; what it gives in the end. -/
def reached (sys : Contention n) (c : Fin n) : List Int := (sys.migrators c).reached

/-- The connection goes on to a stage, having reached some more versions. -/
def moveTo (sys : Contention n) (c : Fin n) (stage : Stage) (more : List Int) : Contention n :=
  { sys with migrators := Function.update sys.migrators c ⟨stage, sys.reached c ++ more⟩ }

/-- The next step of a connection, if it can take one. -/
def advance (sys : Contention n) (c : Fin n) : Option (Contention n) :=
  match sys.stage c with
  | .reading [] => none
  | .reading (m :: rest) =>
    if m.version ≤ sys.committed.version then some (sys.moveTo c (.reading rest) [])
    else some (sys.moveTo c (.waiting m rest) [])
  | .waiting m rest =>
    match sys.holder with
    | some _ => none
    | none => some { sys.moveTo c (.checking m rest sys.committed) [] with holder := some c }
  | .checking m rest view =>
    if m.version ≤ view.version then some (sys.moveTo c (.committing none rest view) [])
    else some (sys.moveTo c (.changing m m.changes rest view) [])
  | .changing m (change :: left) rest view =>
    match view.change change with
    | .error e => some (sys.moveTo c (.undoing e) [])
    | .ok view =>
      some { sys.moveTo c (.changing m left rest view) [] with
        made := sys.made ++ [(m.version, change)] }
  | .changing m [] rest view =>
    some (sys.moveTo c (.committing (some m) rest { view with version := m.version }) [m.version])
  | .committing _ rest view =>
    some { sys.moveTo c (.reading rest) [] with committed := view, holder := none }
  | .undoing e => some { sys.moveTo c (.failed e) [] with holder := none }
  | .failed _ => none

/-- The steps of a schedule, if each of them can be taken. -/
def after (sys : Contention n) : List (Fin n) → Option (Contention n)
  | [] => some sys
  | c :: rest => (sys.advance c).bind (·.after rest)

variable {sys sys' : Contention n} {c other : Fin n}

@[simp]
theorem stage_moveTo_self (stage : Stage) (more : List Int) :
    (sys.moveTo c stage more).stage c = stage := by
  simp [moveTo, Contention.stage]

@[simp]
theorem stage_moveTo_of_ne (h : other ≠ c) (stage : Stage) (more : List Int) :
    (sys.moveTo c stage more).stage other = sys.stage other := by
  simp [moveTo, Contention.stage, h]

/-! ## What a step does -/

/-- The steps that a connection can take, by the stage it is in. -/
inductive Advances (sys : Contention n) (c : Fin n) : Contention n → Prop
  | pass {m : Migration} {rest : List Migration} : sys.stage c = .reading (m :: rest) →
      m.version ≤ sys.committed.version → Advances sys c (sys.moveTo c (.reading rest) [])
  | queue {m : Migration} {rest : List Migration} : sys.stage c = .reading (m :: rest) →
      sys.committed.version < m.version → Advances sys c (sys.moveTo c (.waiting m rest) [])
  | lock {m : Migration} {rest : List Migration} : sys.stage c = .waiting m rest →
      sys.holder = none →
      Advances sys c { sys.moveTo c (.checking m rest sys.committed) [] with holder := some c }
  | skip {m : Migration} {rest : List Migration} {view : Database} :
      sys.stage c = .checking m rest view → m.version ≤ view.version →
      Advances sys c (sys.moveTo c (.committing none rest view) [])
  | begin {m : Migration} {rest : List Migration} {view : Database} :
      sys.stage c = .checking m rest view → view.version < m.version →
      Advances sys c (sys.moveTo c (.changing m m.changes rest view) [])
  | make {m : Migration} {change : SchemaChange} {left : List SchemaChange}
      {rest : List Migration} {view view' : Database} :
      sys.stage c = .changing m (change :: left) rest view → view.change change = .ok view' →
      Advances sys c { sys.moveTo c (.changing m left rest view') [] with
        made := sys.made ++ [(m.version, change)] }
  | refuse {m : Migration} {change : SchemaChange} {left : List SchemaChange}
      {rest : List Migration} {view : Database} {e : SchemaError} :
      sys.stage c = .changing m (change :: left) rest view → view.change change = .error e →
      Advances sys c (sys.moveTo c (.undoing e) [])
  | number {m : Migration} {rest : List Migration} {view : Database} :
      sys.stage c = .changing m [] rest view →
      Advances sys c
        (sys.moveTo c (.committing (some m) rest { view with version := m.version }) [m.version])
  | commit {reached : Option Migration} {rest : List Migration} {view : Database} :
      sys.stage c = .committing reached rest view →
      Advances sys c { sys.moveTo c (.reading rest) [] with committed := view, holder := none }
  | undo {e : SchemaError} : sys.stage c = .undoing e →
      Advances sys c { sys.moveTo c (.failed e) [] with holder := none }

theorem advances_of_advance (h : sys.advance c = some sys') : sys.Advances c sys' := by
  unfold advance at h
  split at h
  · cases h
  · next m rest hstage =>
      split at h
      · next hle =>
          cases h
          exact .pass hstage hle
      · next hlt =>
          cases h
          exact .queue hstage (Int.not_le.1 hlt)
  · next m rest hstage =>
      split at h
      · cases h
      · next hfree =>
          cases h
          exact .lock hstage hfree
  · next m rest view hstage =>
      split at h
      · next hle =>
          cases h
          exact .skip hstage hle
      · next hlt =>
          cases h
          exact .begin hstage (Int.not_le.1 hlt)
  · next m change left rest view hstage =>
      split at h
      · next e he =>
          cases h
          exact .refuse hstage he
      · next view' hview =>
          cases h
          exact .make hstage hview
  · next m rest view hstage =>
      cases h
      exact .number hstage
  · next reached rest view hstage =>
      cases h
      exact .commit hstage
  · next e hstage =>
      cases h
      exact .undo hstage
  · cases h

/-- A connection that cannot go on has come to its end, or waits for a lock that is held. -/
theorem of_advance_eq_none (h : sys.advance c = none) :
    (sys.stage c).isOver = true ∨ ((sys.stage c).locks = false ∧ sys.holder.isSome = true) := by
  unfold advance at h
  split at h
  case h_1 hstage => exact .inl (by rw [hstage]; rfl)
  case h_2 => split at h <;> cases h
  case h_3 hstage =>
    split at h
    · next other hheld => exact .inr ⟨by rw [hstage]; rfl, by rw [hheld]; rfl⟩
    · cases h
  case h_4 => split at h <;> cases h
  case h_5 => split at h <;> cases h
  case h_6 => cases h
  case h_7 => cases h
  case h_8 => cases h
  case h_9 hstage => exact .inl (by rw [hstage]; rfl)

/-- What every step keeps holds after a schedule. -/
theorem after_induction {P : Contention n → Prop}
    (hstep : ∀ sys sys' c, P sys → sys.Advances c sys' → P sys') {schedule : List (Fin n)}
    (hstart : P sys) (h : sys.after schedule = some sys') : P sys' := by
  induction schedule generalizing sys with
  | nil =>
      cases h
      exact hstart
  | cons c rest ih =>
      obtain ⟨sys₁, hadvance, hrest⟩ := Option.bind_eq_some_iff.1 h
      exact ih (hstep sys sys₁ c hstart (advances_of_advance hadvance)) hrest

end Contention

end EmbeddedSql
