/-
# Bringing a database up to date, statement by statement

A session is a connection to a database as it goes through the versions: what is committed, and what the
session sees while a transaction is open.  Each version is reached in a transaction of its own.

| act | what the session sees | what is committed |
| :-- | :-- | :-- |
| `begin` | what is committed | stays |
| a statement, or the new number | changes | stays |
| `commit` | stays | what the session sees |
| rolling back | what is committed | stays |

Each act but the last one can be refused.  Some statements are refused by the schema they find, which is
what `Database.change` says; an *engine* may refuse any act besides, for reasons of its own: the
database is locked or cannot be written, a name is that of a view, a column of an index is missing.  A
refused statement changes nothing, but those before it have been carried out.

An engine that refuses nothing of its own brings a database up to date as `Database.migrate` says
(`migrateBy_lenient`).
-/
import EmbeddedSql.Proofs.Store.Growth
import EmbeddedSql.Proofs.Store.MigratedOnce
import EmbeddedSql.Store.MigrationScript

namespace EmbeddedSql

/-- What a session asks of the engine. -/
inductive Act where
  | begin
  | change (c : SchemaChange)
  | number (version : Int)
  | commit
deriving DecidableEq, Repr

/-- What an engine refuses in a database that the schema does not forbid, and what it says. -/
abbrev Engine := Act → Database → Option String

/-- Nothing. -/
def Engine.lenient : Engine := fun _ _ => none

/-- A connection to a database; `working` is the database as it sees it in the transaction that is open,
if one is. -/
structure Session where
  committed : Database
  working : Option Database
deriving DecidableEq, Repr

namespace Session

/-- The database as the session sees it. -/
def seen (s : Session) : Database := s.working.getD s.committed

/-- What is written outside of a transaction is committed at once. -/
def write (s : Session) (db : Database) : Session :=
  match s.working with
  | some _ => { s with working := some db }
  | none => { s with committed := db }

def begin (engine : Engine) (s : Session) : Except String Session :=
  match s.working with
  | some _ => .error SchemaError.transactionOpen.message
  | none =>
    match engine .begin s.committed with
    | some reason => .error reason
    | none => .ok { s with working := some s.committed }

def execute (engine : Engine) (s : Session) (c : SchemaChange) : Except String Session :=
  match engine (.change c) s.seen with
  | some reason => .error reason
  | none => ((s.seen.change c).map s.write).mapError SchemaError.message

/-- Write the number of the version. -/
def number (engine : Engine) (s : Session) (version : Int) : Except String Session :=
  match engine (.number version) s.seen with
  | some reason => .error reason
  | none => .ok (s.write { s.seen with version })

def commit (engine : Engine) (s : Session) : Except String Session :=
  match s.working with
  | none => .error (SchemaError.noTransaction "commit").message
  | some db =>
    match engine .commit db with
    | some reason => .error reason
    | none => .ok ⟨db, none⟩

def rollback (s : Session) : Except String Session :=
  match s.working with
  | none => .error (SchemaError.noTransaction "rollback").message
  | some _ => .ok { s with working := none }

/-- Carry out statements until one is refused. -/
def executeAll (engine : Engine) (s : Session) : List SchemaChange → Except String Unit × Session
  | [] => (.ok (), s)
  | c :: rest =>
    match s.execute engine c with
    | .error e => (.error e, s)
    | .ok s => s.executeAll engine rest

/-- The statements and the number of a version. -/
def reach (engine : Engine) (s : Session) (m : Migration) : Except String Unit × Session :=
  match s.executeAll engine m.changes with
  | (.error e, s) => (.error e, s)
  | (.ok _, s) =>
    match s.number engine m.version with
    | .error e => (.error e, s)
    | .ok s => (.ok (), s)

/-- What is done in the transaction: the version is reached, unless another connection has reached it
since; gives the versions reached. -/
def attempt (engine : Engine) (s : Session) (m : Migration) : Except String (List Int) × Session :=
  match if s.seen.version < m.version then (s.reach engine m, [m.version]) else ((.ok (), s), []) with
  | ((.error e, s), _) => (.error e, s)
  | ((.ok _, s), versions) =>
    match s.commit engine with
    | .error e => (.error e, s)
    | .ok s => (.ok versions, s)

/-- A transaction for a version, rolled back if anything in it is refused. -/
def step (engine : Engine) (s : Session) (m : Migration) : Except String (List Int) × Session :=
  match s.begin engine with
  | .error e => (.error e, s)
  | .ok s =>
    match s.attempt engine m with
    | (.ok versions, s) => (.ok versions, s)
    | (.error e, s) =>
      match s.rollback with
      | .error e => (.error e, s)
      | .ok s => (.error e, s)

/-- Go through versions; gives those reached. -/
def migrateBy (engine : Engine) (s : Session) :
    List Migration → Except String (List Int) × Session
  | [] => (.ok [], s)
  | m :: rest =>
    if m.version ≤ s.seen.version then s.migrateBy engine rest
    else
      match s.step engine m with
      | (.error e, s) => (.error e, s)
      | (.ok versions, s) =>
        let (outcome, s) := s.migrateBy engine rest
        (outcome.map (versions ++ ·), s)

/-- Bring the database up to date. -/
def migrate (engine : Engine) (s : Session) : Except String (List Int) × Session :=
  s.migrateBy engine migrations

/-! ## In the transaction -/

variable {db : Database} {m : Migration}

theorem begin_cases (engine : Engine) (db : Database) :
    (∃ e, begin engine ⟨db, none⟩ = .error e) ∨ begin engine ⟨db, none⟩ = .ok ⟨db, some db⟩ := by
  unfold begin
  dsimp only
  split
  · exact .inl ⟨_, rfl⟩
  · exact .inr rfl

theorem execute_cases (engine : Engine) (db view : Database) (c : SchemaChange) :
    (∃ e, execute engine ⟨db, some view⟩ c = .error e) ∨
      ∃ view', view.change c = .ok view' ∧
        execute engine ⟨db, some view⟩ c = .ok ⟨db, some view'⟩ := by
  unfold execute
  split
  · exact .inl ⟨_, rfl⟩
  · dsimp only [seen, Option.getD_some]
    cases view.change c with
    | error e => exact .inl ⟨_, rfl⟩
    | ok view' => exact .inr ⟨view', rfl, rfl⟩

theorem number_cases (engine : Engine) (db view : Database) (version : Int) :
    (∃ e, number engine ⟨db, some view⟩ version = .error e) ∨
      number engine ⟨db, some view⟩ version = .ok ⟨db, some { view with version }⟩ := by
  unfold number
  split
  · exact .inl ⟨_, rfl⟩
  · exact .inr rfl

theorem commit_cases (engine : Engine) (db view : Database) :
    (∃ e, commit engine ⟨db, some view⟩ = .error e) ∨
      commit engine ⟨db, some view⟩ = .ok ⟨view, none⟩ := by
  unfold commit
  dsimp only
  split
  · exact .inl ⟨_, rfl⟩
  · exact .inr rfl

/-- Statements are carried out on what the session sees, and nothing is committed. -/
theorem executeAll_cases (engine : Engine) (db view : Database) (changes : List SchemaChange) :
    (∃ e view', executeAll engine ⟨db, some view⟩ changes = (.error e, ⟨db, some view'⟩)) ∨
      ∃ view', view.changeAll changes = .ok view' ∧
        executeAll engine ⟨db, some view⟩ changes = (.ok (), ⟨db, some view'⟩) := by
  induction changes generalizing view with
  | nil => exact .inr ⟨view, rfl, rfl⟩
  | cons c rest ih =>
      rw [executeAll, Database.changeAll]
      rcases execute_cases engine db view c with ⟨e, he⟩ | ⟨view', hc, hv⟩
      · exact .inl ⟨e, view, by rw [he]⟩
      · rw [hc, hv]
        exact ih view'

theorem reach_cases (engine : Engine) (db view : Database) (m : Migration) :
    (∃ e view', reach engine ⟨db, some view⟩ m = (.error e, ⟨db, some view'⟩)) ∨
      ∃ view', view.advance m = .ok view' ∧
        reach engine ⟨db, some view⟩ m = (.ok (), ⟨db, some view'⟩) := by
  rw [reach]
  rcases executeAll_cases engine db view m.changes with ⟨e, view', he⟩ | ⟨view', hc, hv⟩
  · exact .inl ⟨e, view', by rw [he]⟩
  · rw [hv, Database.advance, hc]
    rcases number_cases engine db view' m.version with ⟨e, he⟩ | hn
    · exact .inl ⟨e, view', by simp only [he]⟩
    · exact .inr ⟨_, rfl, by simp only [hn]⟩

theorem attempt_cases (engine : Engine) (hlt : db.version < m.version) :
    (∃ e view, attempt engine ⟨db, some db⟩ m = (.error e, ⟨db, some view⟩)) ∨
      ∃ db', db.advance m = .ok db' ∧
        attempt engine ⟨db, some db⟩ m = (.ok [m.version], ⟨db', none⟩) := by
  have hpending : (⟨db, some db⟩ : Session).seen.version < m.version := hlt
  rw [attempt, if_pos hpending]
  rcases reach_cases engine db db m with ⟨e, view, he⟩ | ⟨db', ha, hr⟩
  · exact .inl ⟨e, view, by rw [he]⟩
  · rw [hr]
    rcases commit_cases engine db db' with ⟨e, he⟩ | hc
    · exact .inl ⟨e, db', by simp only [he]⟩
    · exact .inr ⟨db', ha, by simp only [hc]⟩

/-- What a version comes to: it is reached as a whole and committed, or the database is as it was. -/
theorem step_cases (engine : Engine) (hlt : db.version < m.version) :
    (∃ e, step engine ⟨db, none⟩ m = (.error e, ⟨db, none⟩)) ∨
      ∃ db', db.advance m = .ok db' ∧
        step engine ⟨db, none⟩ m = (.ok [m.version], ⟨db', none⟩) := by
  rw [step]
  rcases begin_cases engine db with ⟨e, he⟩ | hb
  · exact .inl ⟨e, by rw [he]⟩
  · rw [hb]
    rcases attempt_cases engine hlt with ⟨e, view, he⟩ | ⟨db', ha, hv⟩
    · refine .inl ⟨e, ?_⟩
      simp only [he]
      rfl
    · exact .inr ⟨db', ha, by simp only [hv]⟩

/-! ## An engine that refuses nothing of its own -/

theorem executeAll_lenient (db view : Database) (changes : List SchemaChange) :
    (executeAll .lenient ⟨db, some view⟩ changes).1 =
      ((view.changeAll changes).map fun _ => ()).mapError SchemaError.message := by
  induction changes generalizing view with
  | nil => rfl
  | cons c rest ih =>
      have hexecute : execute .lenient ⟨db, some view⟩ c =
          ((view.change c).map fun view => ⟨db, some view⟩).mapError SchemaError.message := rfl
      rw [executeAll, Database.changeAll, hexecute]
      cases view.change c with
      | error e => rfl
      | ok view' => exact ih view'

theorem step_lenient (hlt : db.version < m.version) :
    (step .lenient ⟨db, none⟩ m).1 =
      ((db.advance m).map fun _ => [m.version]).mapError SchemaError.message := by
  have hpending : (⟨db, some db⟩ : Session).seen.version < m.version := hlt
  have hbegin : begin .lenient ⟨db, none⟩ = .ok ⟨db, some db⟩ := rfl
  have hall := executeAll_lenient db db m.changes
  rw [step, hbegin]
  dsimp only
  rw [attempt, if_pos hpending, reach, Database.advance]
  rcases executeAll_cases .lenient db db m.changes with ⟨e, view, he⟩ | ⟨view, hc, hv⟩
  · rw [he] at hall ⊢
    cases hc : db.changeAll m.changes with
    | error r =>
        rw [hc] at hall
        obtain rfl : e = r.message := Except.error.inj hall
        rfl
    | ok view =>
        rw [hc] at hall
        cases hall
  · rw [hc, hv]
    rfl

/-- Such an engine does what is said of databases. -/
theorem migrateBy_lenient (db : Database) (ms : List Migration) :
    migrateBy .lenient ⟨db, none⟩ ms =
      ((db.migrateBy ms).2.mapError SchemaError.message, ⟨(db.migrateBy ms).1, none⟩) := by
  induction ms generalizing db with
  | nil => rfl
  | cons m rest ih =>
      rw [migrateBy, Database.migrateBy]
      change (if m.version ≤ db.version then _ else _) = _
      by_cases hle : m.version ≤ db.version
      · rw [if_pos hle, if_pos hle]
        exact ih db
      · have hlt : db.version < m.version := Int.not_le.1 hle
        have hstep := step_lenient hlt
        rw [if_neg hle, if_neg hle]
        rcases step_cases .lenient hlt with ⟨e, he⟩ | ⟨db', ha, hv⟩
        · rw [he] at hstep ⊢
          cases ha : db.advance m with
          | error r =>
              rw [ha] at hstep
              exact Prod.ext hstep rfl
          | ok db' =>
              rw [ha] at hstep
              cases hstep
        · rw [ha, hv]
          dsimp only
          rw [ih db']
          cases (db'.migrateBy rest).2 <;> rfl

end Session

end EmbeddedSql
