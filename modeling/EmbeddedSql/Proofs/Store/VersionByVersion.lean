/-
# A database is brought up to date version by version

Whatever an engine refuses, a session ends between two versions: each pending version has been reached as
a whole or left no trace, and there is no version reached after one that was not.  What was in the
database is kept.  A session that comes to its end has nothing left to do, so the next one does nothing.

| a session ends | the database |
| :-- | :-- |
| with the versions it reached | has the latest version, or a later one if it had that |
| with an error in a version | is what the versions before that one have made of it |

A step either reaches a version or changes nothing (`Session.step_cases`); the run follows by induction on
the versions that are left (`Session.migrateBy_ends`).
-/
import EmbeddedSql.Proofs.Store.Sessions

namespace EmbeddedSql

namespace Database

variable {db db' : Database} {m : Migration} {ms rest : List Migration}

/-- The versions have been reached, one after the other. -/
inductive Raised : Database → List Migration → Database → Prop
  | done {db : Database} : Raised db [] db
  | next {db db₁ db' : Database} {m : Migration} {rest : List Migration} :
      db.version < m.version → db.advance m = .ok db₁ → Raised db₁ rest db' →
      Raised db (m :: rest) db'

namespace Raised

theorem grown (h : Raised db ms db') :
    db.Grown (fun table => ms.flatMap (·.columnsFor table)) db' := by
  induction h with
  | done => exact .refl _
  | next _ hadvance _ ih =>
      simpa only [List.flatMap_cons] using (grown_of_advance hadvance).trans ih

/-- The database has the version that was reached last, if one was. -/
theorem version (h : Raised db ms db') :
    (db'.version = db.version ∨ ∃ m ∈ ms, db'.version = m.version) ∧ db.version ≤ db'.version ∧
      ∀ m ∈ ms, m.version ≤ db'.version := by
  induction h with
  | done => exact ⟨.inl rfl, Int.le_refl _, fun m hm => absurd hm List.not_mem_nil⟩
  | @next db db₁ db' m rest hlt hadvance _ ih =>
      obtain ⟨hlast, hle, hall⟩ := ih
      have hversion : db₁.version = m.version := version_of_advance hadvance
      refine ⟨.inr ?_, by omega, ?_⟩
      · rcases hlast with hlast | ⟨m', hm', hlast⟩
        · exact ⟨m, List.mem_cons_self, hlast.trans hversion⟩
        · exact ⟨m', List.mem_cons_of_mem m hm', hlast⟩
      · intro m' hm'
        rcases List.mem_cons.1 hm' with rfl | hm'
        · omega
        · exact hall m' hm'

end Raised

/-! ## Pending versions -/

theorem pending_cons_of_le (h : m.version ≤ db.version) (rest : List Migration) :
    db.pending (m :: rest) = db.pending rest :=
  List.filter_cons_of_neg (by simpa using h)

/-- Versions that are later than one that is pending are pending as well, and still are when that one
has been reached. -/
theorem pending_cons_of_lt (hlt : db.version < m.version) (hversion : db'.version = m.version)
    (hlater : ∀ m' ∈ rest, m.version < m'.version) :
    db.pending (m :: rest) = m :: db'.pending rest := by
  have hbefore : db.pending rest = rest := List.filter_eq_self.2 fun m' hm' => by
    have := hlater m' hm'
    rw [decide_eq_true_eq]
    omega
  have hafter : db'.pending rest = rest := List.filter_eq_self.2 fun m' hm' => by
    rw [decide_eq_true_eq, hversion]
    exact hlater m' hm'
  have hcons : db.pending (m :: rest) = m :: db.pending rest :=
    List.filter_cons_of_pos (by simpa using hlt)
  rw [hcons, hbefore, hafter]

end Database

/-! ## Runs -/

namespace Session

variable {engine : Engine} {db db' : Database} {m : Migration} {ms rest : List Migration}

/-- The session ends well, with the pending ones of the versions reached. -/
def EndsWell (engine : Engine) (db : Database) (ms : List Migration) (db' : Database) : Prop :=
  migrateBy engine ⟨db, none⟩ ms = (.ok ((db.pending ms).map (·.version)), ⟨db', none⟩) ∧
    db.Raised (db.pending ms) db'

theorem migrateBy_of_le (engine : Engine) (h : m.version ≤ db.version) (rest : List Migration) :
    migrateBy engine ⟨db, none⟩ (m :: rest) = migrateBy engine ⟨db, none⟩ rest := by
  rw [migrateBy]
  exact if_pos h

theorem migrateBy_of_step (hlt : db.version < m.version)
    (h : step engine ⟨db, none⟩ m = (.ok [m.version], ⟨db', none⟩)) (rest : List Migration) :
    migrateBy engine ⟨db, none⟩ (m :: rest) =
      ((migrateBy engine ⟨db', none⟩ rest).1.map (m.version :: ·),
        (migrateBy engine ⟨db', none⟩ rest).2) := by
  rw [migrateBy]
  change (if m.version ≤ db.version then _ else _) = _
  rw [if_neg (Int.not_le.2 hlt), h]
  rfl

theorem migrateBy_of_error (hlt : db.version < m.version) {e : String}
    (h : step engine ⟨db, none⟩ m = (.error e, ⟨db, none⟩)) (rest : List Migration) :
    migrateBy engine ⟨db, none⟩ (m :: rest) = (.error e, ⟨db, none⟩) := by
  rw [migrateBy]
  change (if m.version ≤ db.version then _ else _) = _
  rw [if_neg (Int.not_le.2 hlt), h]

theorem EndsWell.skip (h : EndsWell engine db rest db') (hle : m.version ≤ db.version) :
    EndsWell engine db (m :: rest) db' := by
  rw [EndsWell, migrateBy_of_le engine hle, Database.pending_cons_of_le hle]
  exact h

theorem EndsWell.next {db₁ : Database} (h : EndsWell engine db₁ rest db')
    (hlt : db.version < m.version) (hlater : ∀ m' ∈ rest, m.version < m'.version)
    (hadvance : db.advance m = .ok db₁)
    (hstep : step engine ⟨db, none⟩ m = (.ok [m.version], ⟨db₁, none⟩)) :
    EndsWell engine db (m :: rest) db' := by
  have hversion : db₁.version = m.version := Database.version_of_advance hadvance
  obtain ⟨hrun, hraised⟩ := h
  rw [EndsWell, migrateBy_of_step hlt hstep, hrun,
    Database.pending_cons_of_lt hlt hversion hlater]
  exact ⟨rfl, .next hlt hadvance hraised⟩

/-- A session that does not end well stops at a version, in front of which it would have ended well. -/
theorem migrateBy_ends (engine : Engine) (db : Database)
    (hsorted : ms.Pairwise (·.version < ·.version)) :
    (∃ db', EndsWell engine db ms db') ∨
      ∃ before m after db' e, ms = before ++ m :: after ∧ db.version < m.version ∧
        EndsWell engine db before db' ∧ step engine ⟨db', none⟩ m = (.error e, ⟨db', none⟩) ∧
        migrateBy engine ⟨db, none⟩ ms = (.error e, ⟨db', none⟩) := by
  induction ms generalizing db with
  | nil => exact .inl ⟨db, rfl, .done⟩
  | cons m rest ih =>
      obtain ⟨hlater, hrest⟩ := List.pairwise_cons.1 hsorted
      by_cases hle : m.version ≤ db.version
      · rcases ih db hrest with ⟨db', hwell⟩ | ⟨before, m', after, db', e, rfl, hlt, hwell, hs, hr⟩
        · exact .inl ⟨db', hwell.skip hle⟩
        · exact .inr ⟨m :: before, m', after, db', e, rfl, hlt, hwell.skip hle, hs,
            (migrateBy_of_le engine hle _).trans hr⟩
      · have hlt : db.version < m.version := Int.not_le.1 hle
        rcases step_cases engine hlt with ⟨e, he⟩ | ⟨db₁, hadvance, hstep⟩
        · exact .inr ⟨[], m, rest, db, e, rfl, hlt, ⟨rfl, .done⟩, he,
            migrateBy_of_error hlt he rest⟩
        · rcases ih db₁ hrest with
            ⟨db', hwell⟩ | ⟨before, m', after, db', e, rfl, hlt', hwell, hs, hr⟩
          · exact .inl ⟨db', hwell.next hlt hlater hadvance hstep⟩
          · have hversion : db₁.version = m.version := Database.version_of_advance hadvance
            refine .inr ⟨m :: before, m', after, db', e, rfl, by omega, ?_, hs, ?_⟩
            · exact hwell.next hlt (fun d hd => hlater d (List.mem_append_left _ hd)) hadvance hstep
            · rw [migrateBy_of_step hlt hstep, hr]
              rfl

/-- Where all versions have been reached there is nothing to do. -/
theorem migrateBy_of_all (engine : Engine) (h : ∀ m ∈ ms, m.version ≤ db.version) :
    migrateBy engine ⟨db, none⟩ ms = (.ok [], ⟨db, none⟩) := by
  induction ms with
  | nil => rfl
  | cons m rest ih =>
      obtain ⟨hle, hrest⟩ := List.forall_mem_cons.1 h
      rw [migrateBy_of_le engine hle, ih hrest]

end Session

/-! ## The versions of the schema -/

/-- The version that a database has when it is up to date. -/
def latestVersion : Int := (migrations.getLast (by decide)).version

/-- What a table has become when versions have been reached: with the second one findings list their
statements and hold their source lines, and those from before list none and hold none. -/
def Table.after (versions : List Int) (t : Table) : Table :=
  if 2 ∈ versions ∧ t.name = "findings" then
    { t with
      columns := t.columns ++ [⟨"statements", .text "[]"⟩, ⟨"content", .text ""⟩]
      rows := t.rows.map (· ++ [.text "[]", .text ""]) }
  else t

/-- A database in which versions have been reached has all of its tables, with their rows, and all of its
indexes; what is new holds no rows. -/
structure Database.KeptBy (versions : List Int) (db db' : Database) : Prop where
  tables : ∃ fresh, db'.tables = db.tables.map (Table.after versions) ++ fresh ∧
    ∀ t ∈ fresh, t.rows = []
  indexes : ∃ fresh, db'.indexes = db.indexes ++ fresh

theorem Table.extend_eq_after {ms : List Migration} (h : ms.Sublist migrations) (t : Table) :
    t.extend (ms.flatMap (·.columnsFor t.name)) = t.after (ms.map (·.version)) := by
  have hfirst : firstVersion.columnsFor t.name = [] := by
    simp [Migration.columnsFor, firstVersion, SchemaChange.columnFor?]
  have hsecond : secondVersion.columnsFor t.name =
      if t.name = "findings" then [⟨"statements", .text "[]"⟩, ⟨"content", .text ""⟩] else [] := by
    by_cases hn : t.name = "findings"
    · rw [hn]
      rfl
    · simp [Migration.columnsFor, secondVersion, SchemaChange.columnFor?, Ne.symm hn, hn]
  have hms : ms = [] ∨ ms = [firstVersion] ∨ ms = [secondVersion] ∨
      ms = [firstVersion, secondVersion] := by
    simpa [migrations, List.sublists, List.sublistsAux] using List.mem_sublists.2 h
  have hold : t.after [] = t ∧ t.after [1] = t := ⟨if_neg (by simp), if_neg (by simp)⟩
  have hnew (versions : List Int) (h2 : 2 ∈ versions) :
      t.extend (secondVersion.columnsFor t.name) = t.after versions := by
    rw [hsecond, after]
    by_cases hn : t.name = "findings"
    · rw [if_pos hn, if_pos ⟨h2, hn⟩]
      rfl
    · rw [if_neg hn, if_neg (fun h => hn h.2), t.extend_nil]
  rcases hms with rfl | rfl | rfl | rfl
  · exact t.extend_nil.trans hold.1.symm
  · rw [List.flatMap_singleton, hfirst, t.extend_nil]
    exact hold.2.symm
  · rw [List.flatMap_singleton]
    exact hnew [2] (by simp)
  · rw [List.flatMap_cons, List.flatMap_singleton, hfirst, List.nil_append]
    exact hnew [1, 2] (by simp)

namespace Database

variable {db db' : Database} {ms : List Migration}

theorem Raised.keptBy (h : db.Raised ms db') (hms : ms.Sublist migrations) :
    db.KeptBy (ms.map (·.version)) db' := by
  obtain ⟨⟨fresh, htables, hrows⟩, hindexes⟩ := h.grown
  refine ⟨⟨fresh, ?_, hrows⟩, hindexes⟩
  rw [htables]
  exact congrArg (· ++ fresh) (List.map_congr_left fun t _ => t.extend_eq_after hms)

/-- With all versions reached a database has the latest one, unless it had a later one. -/
theorem Raised.version_eq_max (h : db.Raised (db.pending migrations) db') :
    db'.version = max db.version latestVersion ∧ ∀ m ∈ migrations, m.version ≤ db'.version := by
  have hlatest : ∀ m ∈ migrations, m.version ≤ latestVersion := by decide
  obtain ⟨hlast, hle, hall⟩ := h.version
  have hreached : ∀ m ∈ migrations, m.version ≤ db'.version := by
    intro m hm
    by_cases hlt : db.version < m.version
    · exact hall m (List.mem_filter.2 ⟨hm, decide_eq_true hlt⟩)
    · omega
  have htwo : latestVersion ≤ db'.version := hreached secondVersion (by decide)
  refine ⟨?_, hreached⟩
  rcases hlast with hlast | ⟨m, hm, hlast⟩
  · omega
  · have := hlatest m (List.mem_filter.1 hm).1
    omega

theorem versions_pending (db : Database) (ms : List Migration) :
    (db.pending ms).map (·.version) = (ms.map (·.version)).filter (db.version < ·) := by
  rw [pending, List.filter_map]
  rfl

end Database

/-- The versions in front of one of them are the earlier ones. -/
theorem filter_version_lt {ms before after : List Migration} {m : Migration}
    (hsorted : ms.Pairwise (·.version < ·.version)) (h : ms = before ++ m :: after) :
    ms.filter (·.version < m.version) = before := by
  subst h
  obtain ⟨-, hafter, hbefore⟩ := List.pairwise_append.1 hsorted
  have hlater := (List.pairwise_cons.1 hafter).1
  have hearlier : before.filter (·.version < m.version) = before :=
    List.filter_eq_self.2 fun m' hm' => decide_eq_true (hbefore m' hm' m List.mem_cons_self)
  have hnone : (m :: after).filter (·.version < m.version) = [] := by
    refine List.filter_eq_nil_iff.2 fun m' hm' => ?_
    rw [decide_eq_true_eq]
    rcases List.mem_cons.1 hm' with rfl | hm'
    · omega
    · have := hlater m' hm'
      omega
  rw [List.filter_append, hearlier, hnone, List.append_nil]

/-- The scripts write down the migrations, and without an engine that refuses more than the schema does a
session does what is said of databases.  Whatever the engine refuses, bringing a database up to date
succeeds, with the later versions in order, and leaves the latest version, all rows, and nothing to do
for the next session; or it fails in a version, and then the database is what the versions before that
one have made of it. -/
theorem migrate_versionByVersion :
    migrationScripts.map MigrationScript.migration? = migrations.map some ∧
    (∀ db : Database, Session.migrate .lenient ⟨db, none⟩ =
      (db.migrate.2.mapError SchemaError.message, ⟨db.migrate.1, none⟩)) ∧
    ∀ (engine : Engine) (db : Database),
      (∃ versions db', Session.migrate engine ⟨db, none⟩ = (.ok versions, ⟨db', none⟩) ∧
        versions = (migrations.map (·.version)).filter (db.version < ·) ∧
        db'.version = max db.version latestVersion ∧ db.KeptBy versions db' ∧
        ∀ engine', Session.migrate engine' ⟨db', none⟩ = (.ok [], ⟨db', none⟩)) ∨
      ∃ m ∈ migrations, db.version < m.version ∧ ∃ e versions db',
        Session.migrate engine ⟨db, none⟩ = (.error e, ⟨db', none⟩) ∧
        Session.step engine ⟨db', none⟩ m = (.error e, ⟨db', none⟩) ∧
        Session.migrateBy engine ⟨db, none⟩ (migrations.filter (·.version < m.version)) =
          (.ok versions, ⟨db', none⟩) ∧
        versions = (migrations.map (·.version)).filter (fun v => db.version < v ∧ v < m.version) ∧
        db.KeptBy versions db' := by
  refine ⟨migration?_migrationScripts, fun db => Session.migrateBy_lenient db migrations,
    fun engine db => ?_⟩
  rcases Session.migrateBy_ends engine db migrations_sorted with
    ⟨db', hrun, hraised⟩ | ⟨before, m, after, db', e, hms, hlt, ⟨hrun, hraised⟩, hstep, hstop⟩
  · obtain ⟨hversion, hreached⟩ := hraised.version_eq_max
    exact .inl ⟨_, db', hrun, db.versions_pending migrations, hversion,
      hraised.keptBy List.filter_sublist,
      fun engine' => Session.migrateBy_of_all engine' hreached⟩
  · have hbefore : migrations.filter (·.version < m.version) = before :=
      filter_version_lt migrations_sorted hms
    have hsub : before.Sublist migrations := hbefore ▸ List.filter_sublist
    refine .inr ⟨m, hms ▸ List.mem_append_right _ List.mem_cons_self, hlt, e, _, db', hstop, hstep,
      hbefore.symm ▸ hrun, ?_, hraised.keptBy (List.filter_sublist.trans hsub)⟩
    rw [db.versions_pending, ← hbefore]
    simp only [List.filter_map, List.filter_filter, Function.comp_def, Bool.decide_and]

/-- A finding from before findings listed their statements. -/
example : (Database.migrate ⟨1, [⟨"findings", [bare "id"], [[.text "f"]]⟩], []⟩).1.tables =
    [⟨"findings", [bare "id", ⟨"statements", .text "[]"⟩, ⟨"content", .text ""⟩],
      [[.text "f", .text "[]", .text ""]]⟩] := by
  decide +kernel

end EmbeddedSql
