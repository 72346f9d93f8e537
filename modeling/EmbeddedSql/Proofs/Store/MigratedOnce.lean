/-
# Every pending version is reached once

However many connections bring a database up to date at once, and in whatever order they take their
steps, they do together what a single one does alone: the statements of the pending versions are carried
out one time each and in order, and every pending version is in what exactly one of them gives.  A
connection comes to its end only where the database is up to date, or where a connection alone would
have met the same fault.  Nobody waits for ever: there is always somebody who can go on until all have
come to their ends, and each step leaves one step less to take.
-/
import EmbeddedSql.Proofs.Store.Underway

namespace EmbeddedSql

/-! ## Steps that are left -/

/-- Steps that are left for versions. -/
def Migration.workAll : List Migration → Nat
  | [] => 0
  | m :: rest => m.changes.length + 5 + workAll rest

/-- Steps that are left for a connection, at most. -/
def Stage.work : Stage → Nat
  | reading left => Migration.workAll left
  | waiting m rest => m.changes.length + 4 + Migration.workAll rest
  | checking m rest _ => m.changes.length + 3 + Migration.workAll rest
  | changing _ left rest _ => left.length + 2 + Migration.workAll rest
  | committing _ rest _ => 1 + Migration.workAll rest
  | undoing _ => 1
  | failed _ => 0

/-- What the holder of the lock has done belongs to the next pending version. -/
theorem Stage.Stands.unsaved_isPrefix {ms : List Migration} {db : Database} {stage : Stage}
    (h : stage.Stands ms db) (hsorted : ms.Pairwise (·.version < ·.version)) :
    stage.unsaved <+: (db.pending ms).flatMap Migration.statements := by
  have hnext {m : Migration} {rest : List Migration} (hpassed : db.Passed ms (m :: rest))
      (hlt : db.version < m.version) :
      m.statements <+: (db.pending ms).flatMap Migration.statements := by
    have hpending : db.pending ms = m :: { db with version := m.version }.pending ms :=
      hpassed.pending_eq hlt hsorted rfl
    rw [hpending]
    exact List.prefix_append _ _
  cases stage with
  | changing m left rest view =>
      obtain ⟨hpassed, hlt, before, hchanges, -⟩ := h
      refine List.IsPrefix.trans ?_ (hnext hpassed hlt)
      rw [Stage.unsaved_changing hchanges, Migration.statements, hchanges, List.map_append]
      exact List.prefix_append _ _
  | committing reached rest view =>
      cases reached with
      | none => exact List.nil_prefix
      | some m => exact hnext h.1 h.2.1
  | reading | waiting | checking | undoing | failed => exact List.nil_prefix

namespace Contention

variable {n : Nat} {ms : List Migration} {db : Database} {sys sys' : Contention n} {c : Fin n}

/-- Steps that are left for all connections together, at most. -/
def work (sys : Contention n) : Nat := ∑ c, (sys.stage c).work

theorem work_moveTo_lt {stage : Stage} (h : stage.work < (sys.stage c).work) (more : List Int) :
    (sys.moveTo c stage more).work < sys.work := by
  refine Finset.sum_lt_sum (fun d _ => ?_) ⟨c, Finset.mem_univ c, by rwa [stage_moveTo_self]⟩
  exact forall_stage_moveTo (P := fun d stage => stage.work ≤ (sys.stage d).work) more
    (Nat.le_of_lt h) (fun _ _ => Nat.le_refl _) d

/-- Whatever else a step changes, it takes the connection to a stage with less to do. -/
theorem Advances.work_lt (h : sys.Advances c sys') : sys'.work < sys.work := by
  cases h with
  | pass hstage _ => exact work_moveTo_lt (by simp only [hstage, Stage.work, Migration.workAll]; omega) []
  | queue hstage _ => exact work_moveTo_lt (by simp only [hstage, Stage.work, Migration.workAll]; omega) []
  | lock hstage _ => exact work_moveTo_lt (by simp only [hstage, Stage.work]; omega) []
  | skip hstage _ => exact work_moveTo_lt (by simp only [hstage, Stage.work]; omega) []
  | begin hstage _ => exact work_moveTo_lt (by simp only [hstage, Stage.work]; omega) []
  | make hstage _ =>
      exact work_moveTo_lt (by simp only [hstage, Stage.work, List.length_cons]; omega) []
  | refuse hstage _ =>
      exact work_moveTo_lt (by simp only [hstage, Stage.work, List.length_cons]; omega) []
  | number hstage => exact work_moveTo_lt (by simp only [hstage, Stage.work, List.length_nil]; omega) _
  | commit hstage => exact work_moveTo_lt (by simp only [hstage, Stage.work]; omega) []
  | undo hstage => exact work_moveTo_lt (by simp only [hstage, Stage.work]; omega) []

theorem length_add_work_le {schedule : List (Fin n)} (h : sys.after schedule = some sys') :
    schedule.length + sys'.work ≤ sys.work := by
  induction schedule generalizing sys with
  | nil =>
      cases h
      simp
  | cons c rest ih =>
      obtain ⟨sys₁, hadvance, hrest⟩ := Option.bind_eq_some_iff.1 h
      have hlt : sys₁.work < sys.work := (advances_of_advance hadvance).work_lt
      have hle : rest.length + sys'.work ≤ sys₁.work := ih hrest
      rw [List.length_cons]
      omega

/-! ## What the invariant says -/

section Underway

variable {first : Database} {done : List Migration}

/-- Where nobody can go on, nobody holds the lock. -/
theorem Underway.holder_of_stuck (h : sys.Underway ms first done)
    (hstuck : ∀ c, sys.advance c = none) : sys.holder = none := by
  cases hholder : sys.holder with
  | none => rfl
  | some c =>
      have hlocks : (sys.stage c).locks = true := (h.holder c).2 hholder
      rcases of_advance_eq_none (hstuck c) with hover | ⟨hunlocked, -⟩
      · cases hstage : sys.stage c <;> rw [hstage] at hlocks hover <;> cases hlocks <;> cases hover
      · rw [hlocks] at hunlocked
        cases hunlocked

/-- Somebody can go on, until all have come to their ends. -/
theorem Underway.isOver_of_stuck (h : sys.Underway ms first done)
    (hstuck : ∀ c, sys.advance c = none) (c : Fin n) : (sys.stage c).isOver = true := by
  rcases of_advance_eq_none (hstuck c) with hover | ⟨-, hheld⟩
  · exact hover
  · rw [h.holder_of_stuck hstuck] at hheld
    cases hheld

/-- A connection that has gone through all versions leaves what a single one would have made. -/
theorem Underway.of_reading_nil (h : sys.Underway ms first done) (hstage : sys.stage c = .reading []) :
    first.migrateBy ms = (sys.committed, .ok (done.map (·.version))) := by
  have hpassed : sys.committed.Passed ms [] := by
    have hstands := h.stands c
    rwa [hstage] at hstands
  rw [h.alone, hpassed.migrateBy_eq]
  simp [Database.migrateBy, Except.map]

/-- A connection that has failed met the fault that a single one would have met, in its place. -/
theorem Underway.of_failed (h : sys.Underway ms first done) {e : SchemaError}
    (hstage : sys.stage c = .failed e) : first.migrateBy ms = (sys.committed, .error e) := by
  have hfault : sys.committed.migrateBy ms = (sys.committed, .error e) := by
    have hstands := h.stands c
    rwa [hstage] at hstands
  rw [h.alone, hfault]
  rfl

/-- Where the database is up to date, the versions that have been reached are those that were pending. -/
theorem Underway.done_eq (h : sys.Underway ms first done)
    (hall : ∀ m ∈ ms, m.version ≤ sys.committed.version) : done = first.pending ms := by
  have hnone : sys.committed.pending ms = [] := by
    refine List.filter_eq_nil_iff.2 ?_
    intro m hm hlt
    have hle : m.version ≤ sys.committed.version := hall m hm
    rw [decide_eq_true_eq] at hlt
    omega
  rw [← h.pending, hnone, List.append_nil]

/-- So far, statements have been carried out in order and none of them twice. -/
theorem Underway.made_isPrefix (h : sys.Underway ms first done)
    (hsorted : ms.Pairwise (·.version < ·.version)) (hok : (first.migrateBy ms).2.isOk = true) :
    sys.made <+: (first.pending ms).flatMap Migration.statements := by
  rw [h.made hok, ← h.pending, List.flatMap_append, List.prefix_append_right_inj, held]
  cases sys.holder with
  | none => exact List.nil_prefix
  | some c => exact (h.stands c).unsaved_isPrefix hsorted

end Underway

theorem apart_of_sum {lists : Fin n → List Int} {all : List Int}
    (h : ∑ c, (lists c : Multiset Int) = all) (hall : all.Nodup) :
    (∀ c, (lists c).Nodup) ∧ ∀ c d, c ≠ d → (lists c).Disjoint (lists d) := by
  have hnodup : (∑ c, (lists c : Multiset Int)).Nodup := h ▸ Multiset.coe_nodup.2 hall
  have hsplit (c : Fin n) : (lists c).Nodup ∧
      Disjoint (lists c : Multiset Int) (∑ d ∈ Finset.univ.erase c, (lists d : Multiset Int)) := by
    rw [← Finset.add_sum_erase _ _ (Finset.mem_univ c), Multiset.nodup_add] at hnodup
    exact ⟨Multiset.coe_nodup.1 hnodup.1, hnodup.2.2⟩
  refine ⟨fun c => (hsplit c).1, fun c d hne v hc hd => ?_⟩
  refine Multiset.disjoint_left.1 (hsplit c).2 (Multiset.mem_coe.2 hc) ?_
  exact Multiset.mem_sum.2 ⟨d, Finset.mem_erase.2 ⟨hne.symm, Finset.mem_univ d⟩, hd⟩

end Contention

/-! ## Opening a database -/

theorem migrations_sorted : migrations.Pairwise (·.version < ·.version) := by decide

/-- A moment while `n` connections bring a database up to date. -/
def Contention.Occurs {n : Nat} (db : Database) (sys : Contention n) : Prop :=
  ∃ schedule : List (Fin n), (Contention.start n migrations db).after schedule = some sys

/-- What `n` connections keep to that bring a database up to date at once, whatever the schedule. -/
structure MigratesOnce (n : Nat) (db : Database) : Prop where
  /-- There are only so many steps. -/
  ends : ∀ schedule : List (Fin n), n * Migration.workAll migrations < schedule.length →
    (Contention.start n migrations db).after schedule = none
  /-- A connection that waits for the lock gets it: somebody can go on until all are at their ends. -/
  goesOn : ∀ sys : Contention n, sys.Occurs db → (∀ c, sys.advance c = none) →
    ∀ c, (sys.stage c).isOver = true
  /-- At most one connection is in a transaction. -/
  exclusive : ∀ sys : Contention n, sys.Occurs db → ∀ c d, (sys.stage c).locks = true →
    (sys.stage d).locks = true → c = d
  /-- The version never decreases. -/
  version_le : ∀ sys sys' : Contention n, sys.Occurs db → ∀ c, sys.advance c = some sys' →
    sys.committed.version ≤ sys'.committed.version
  /-- A connection is done only where the database has every version. -/
  upToDate : ∀ sys : Contention n, sys.Occurs db → ∀ c, sys.stage c = .reading [] →
    ∀ m ∈ migrations, m.version ≤ sys.committed.version
  /-- A connection fails only with the fault, and in the place, in which a single one would fail. -/
  fault : ∀ sys : Contention n, sys.Occurs db → ∀ c e, sys.stage c = .failed e →
    db.migrate = (sys.committed, .error e)
  /-- No statement is carried out twice, nor out of order. -/
  inOrder : db.migrate.2.isOk = true → ∀ sys : Contention n, sys.Occurs db →
    sys.made <+: (db.pending migrations).flatMap Migration.statements
  /-- In the end every pending version has been reached, by one of the connections. -/
  once : 0 < n → ∀ versions, db.migrate.2 = .ok versions → ∀ sys : Contention n, sys.Occurs db →
    (∀ c, sys.advance c = none) →
      (∀ c, sys.stage c = .reading []) ∧ sys.committed = db.migrate.1 ∧
      sys.made = (db.pending migrations).flatMap Migration.statements ∧
      versions = (db.pending migrations).map (·.version) ∧
      (∀ v, v ∈ versions ↔ ∃ c, v ∈ sys.reached c) ∧ (∀ c, (sys.reached c).Nodup) ∧
      ∀ c d, c ≠ d → (sys.reached c).Disjoint (sys.reached d)

namespace Database

/-- A database that has been brought to a version, and no further. -/
def atVersion (v : Int) : Except SchemaError Database :=
  (empty.changeAll ((migrations.filter (·.version ≤ v)).flatMap (·.changes))).map
    fun db => { db with version := v }

variable {db : Database}

/-- Changes do not look at the version. -/
theorem changeAll_withVersion (db : Database) (v : Int) (changes : List SchemaChange) :
    { db with version := v }.changeAll changes =
      (db.changeAll changes).map fun db => { db with version := v } := by
  induction changes generalizing db with
  | nil => rfl
  | cons c rest ih =>
      have htable (name : String) : { db with version := v }.table? name = db.table? name := rfl
      have hindex (name : String) : { db with version := v }.hasIndex name = db.hasIndex name := rfl
      have hc : { db with version := v }.change c =
          (db.change c).map fun db => { db with version := v } := by
        cases c with
        | createTable name columns =>
            simp only [change, htable]
            cases db.table? name <;> rfl
        | createIndex index =>
            simp only [change, htable, hindex]
            cases db.hasIndex index.name
            · cases db.table? index.table <;> rfl
            · rfl
        | addColumn name column =>
            simp only [change, htable]
            cases db.table? name with
            | none => rfl
            | some t => cases ht : t.hasColumn column.name <;> simp only [ht] <;> rfl
      rw [changeAll, changeAll, hc]
      cases db.change c with
      | error e => rfl
      | ok db₁ => exact ih db₁

theorem advance_withVersion (db : Database) (v : Int) (m : Migration) :
    { db with version := v }.advance m = db.advance m := by
  rw [advance, advance, changeAll_withVersion]
  cases db.changeAll m.changes <;> rfl

/-- Nothing is in the way of the pending versions, whichever version a database is at. -/
theorem exists_migrate_atVersion (v : Int) :
    ∃ db versions, atVersion v = .ok db ∧ db.migrate.2 = .ok versions := by
  by_cases hfirst : v < 1
  · have hnone : migrations.filter (·.version ≤ v) = [] := by
      have hlater : ∀ m ∈ migrations, 1 ≤ m.version := by decide
      refine List.filter_eq_nil_iff.2 ?_
      intro m hm hle
      have := hlater m hm
      rw [decide_eq_true_eq] at hle
      omega
    obtain ⟨db, hadvance, hrest⟩ :
        ∃ db, empty.advance firstVersion = .ok db ∧ (db.migrateBy migrations).2 = .ok [2] :=
      ⟨_, rfl, rfl⟩
    refine ⟨{ empty with version := v }, [1, 2], by rw [atVersion, hnone]; rfl, ?_⟩
    rw [migrate, (passed_self _ migrations).migrateBy_advance hfirst
      ((advance_withVersion empty v firstVersion).trans hadvance), hrest]
    rfl
  · by_cases hsecond : v < 2
    · obtain rfl : v = 1 := by omega
      exact ⟨_, _, rfl, rfl⟩
    · have hearlier : ∀ m ∈ migrations, m.version ≤ v := by
        have hearlier : ∀ m ∈ migrations, m.version ≤ 2 := by decide
        intro m hm
        exact Int.le_trans (hearlier m hm) (Int.not_lt.1 hsecond)
      have hall : migrations.filter (·.version ≤ v) = migrations :=
        List.filter_eq_self.2 fun m hm => decide_eq_true (hearlier m hm)
      obtain ⟨db, hchanges⟩ : ∃ db, empty.changeAll (migrations.flatMap (·.changes)) = .ok db :=
        ⟨_, rfl⟩
      have hpassed : Passed { db with version := v } migrations [] :=
        ⟨migrations, (List.append_nil _).symm, hearlier⟩
      refine ⟨{ db with version := v }, [], by rw [atVersion, hall, hchanges]; rfl, ?_⟩
      rw [migrate, hpassed.migrateBy_eq]
      rfl

end Database

/-- However many connections bring a database up to date at once, they do together what one does alone;
and a database that is at any version can be brought up to date. -/
theorem migrates_once :
    (∀ (n : Nat) (db : Database), MigratesOnce n db) ∧
      ∀ v : Int, ∃ db versions, Database.atVersion v = .ok db ∧ db.migrate.2 = .ok versions := by
  refine ⟨fun n db => ?_, Database.exists_migrate_atVersion⟩
  have hunderway : ∀ sys : Contention n, sys.Occurs db → ∃ done, sys.Underway migrations db done :=
    fun sys ⟨schedule, h⟩ => Contention.underway_of_after migrations_sorted h
  have hall : ∀ sys : Contention n, sys.Occurs db → ∀ c, sys.stage c = .reading [] →
      ∀ m ∈ migrations, m.version ≤ sys.committed.version := by
    intro sys hsys c hstage
    obtain ⟨done, h⟩ := hunderway sys hsys
    have hstands := h.stands c
    rw [hstage] at hstands
    exact hstands.le_of_nil
  have hfault : ∀ sys : Contention n, sys.Occurs db → ∀ c e, sys.stage c = .failed e →
      db.migrate = (sys.committed, .error e) := by
    intro sys hsys c e hstage
    obtain ⟨done, h⟩ := hunderway sys hsys
    exact h.of_failed hstage
  refine
    { ends := ?ends, goesOn := ?goesOn, exclusive := ?exclusive, version_le := ?version_le
      upToDate := hall, fault := hfault, inOrder := ?inOrder, once := ?once }
  case ends =>
    intro schedule hlong
    cases h : (Contention.start n migrations db).after schedule with
    | none => rfl
    | some sys =>
        have hwork : (Contention.start n migrations db).work = n * Migration.workAll migrations := by
          simp [Contention.work, Contention.stage, Contention.start, Stage.work]
        have hle := Contention.length_add_work_le h
        omega
  case goesOn =>
    intro sys hsys hstuck c
    obtain ⟨done, h⟩ := hunderway sys hsys
    exact h.isOver_of_stuck hstuck c
  case exclusive =>
    intro sys hsys c d hc hd
    obtain ⟨done, h⟩ := hunderway sys hsys
    exact Option.some.inj (((h.holder c).1 hc).symm.trans ((h.holder d).1 hd))
  case version_le =>
    intro sys sys' hsys c hadvance
    obtain ⟨done, h⟩ := hunderway sys hsys
    exact (h.advance migrations_sorted (Contention.advances_of_advance hadvance)).1
  case inOrder =>
    intro hok sys hsys
    obtain ⟨done, h⟩ := hunderway sys hsys
    exact h.made_isPrefix migrations_sorted hok
  case once =>
    intro hn versions hversions sys hsys hstuck
    obtain ⟨done, h⟩ := hunderway sys hsys
    have hthrough : ∀ c, sys.stage c = .reading [] := by
      intro c
      have hover := h.isOver_of_stuck hstuck c
      cases hstage : sys.stage c with
      | reading left =>
          cases left with
          | nil => rfl
          | cons m rest =>
              rw [hstage] at hover
              cases hover
      | failed e =>
          rw [hfault sys hsys c e hstage] at hversions
          cases hversions
      | waiting | checking | changing | committing | undoing =>
          rw [hstage] at hover
          cases hover
    have halone : db.migrate = (sys.committed, .ok (done.map (·.version))) :=
      h.of_reading_nil (hthrough ⟨0, hn⟩)
    have hdone : done = db.pending migrations :=
      h.done_eq (hall sys hsys ⟨0, hn⟩ (hthrough ⟨0, hn⟩))
    have hheld : sys.held = none := by rw [Contention.held, h.holder_of_stuck hstuck, Option.map_none]
    have hmade : sys.made = done.flatMap Migration.statements := by
      have hmade := h.made (by rw [show db.migrateBy migrations = _ from halone]; rfl)
      rwa [hheld, Option.elim_none, List.append_nil] at hmade
    have hreached : ∑ c, (sys.reached c : Multiset Int) = (done.map (·.version) : List Int) := by
      have hreached := h.reached
      rwa [hheld, Option.elim_none, List.append_nil] at hreached
    obtain rfl : done.map (·.version) = versions := by
      rw [halone] at hversions
      exact Except.ok.inj hversions
    have hnodup : (done.map (·.version)).Nodup := by
      rw [hdone]
      exact List.pairwise_map.2 ((migrations_sorted.filter _).imp fun hlt => Int.ne_of_lt hlt)
    refine ⟨hthrough, by rw [halone], hdone ▸ hmade, by rw [hdone], fun v => ?_,
      Contention.apart_of_sum hreached hnodup⟩
    rw [← Multiset.mem_coe, ← hreached, Multiset.mem_sum]
    simp

/-- A connection that read its number too early waits in vain. -/
example :
    ((Contention.start 2 migrations .empty).after
      (1 :: List.replicate 20 0 ++ List.replicate 4 1)).map
        (fun sys => (sys.stage 0, sys.stage 1, sys.reached 0, sys.reached 1, sys.made.length)) =
      some (.reading [], .reading [], [1, 2], [], 10) := by
  decide +kernel

end EmbeddedSql
