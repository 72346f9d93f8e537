/-
# What changes of the schema keep

A change makes a table or an index, or adds a column; it takes nothing away.  So after any changes every
table is there still, with its rows in their order, and each row holds what it held before, followed by
the standard values of the columns that were added (`Database.Grown`).

| change | tables that were there | tables that were not |
| :-- | :-- | :-- |
| `createTable` | stay as they are | one without rows |
| `createIndex` | stay as they are | none |
| `addColumn` | one has a column more | none |
-/
import EmbeddedSql.Store.Migration

namespace EmbeddedSql

/-- The column that a change adds to a table, if it does. -/
def SchemaChange.columnFor? (c : SchemaChange) (table : String) : Option Column :=
  match c with
  | addColumn name column => if name = table then some column else none
  | createTable .. | createIndex _ => none

/-- The columns that a version adds to a table. -/
def Migration.columnsFor (m : Migration) (table : String) : List Column :=
  m.changes.filterMap (·.columnFor? table)

/-- The table with more columns, in which all rows have the standard values. -/
def Table.extend (columns : List Column) (t : Table) : Table :=
  { t with
    columns := t.columns ++ columns
    rows := t.rows.map (· ++ columns.map (·.standard)) }

@[simp]
theorem Table.name_extend (columns : List Column) (t : Table) :
    (t.extend columns).name = t.name := rfl

@[simp]
theorem Table.extend_nil (t : Table) : t.extend [] = t := by
  simp [extend]

theorem Table.extend_extend (columns more : List Column) (t : Table) :
    (t.extend columns).extend more = t.extend (columns ++ more) := by
  simp [extend, Function.comp_def]

/-- A table without rows has none with more columns. -/
theorem Table.rows_extend_eq_nil {t : Table} (h : t.rows = []) (columns : List Column) :
    (t.extend columns).rows = [] := by
  rw [extend, h, List.map_nil]

namespace Database

/-- What was there is there still: the tables with `columns` added, and the indexes.  What is new has no
rows. -/
structure Grown (columns : String → List Column) (db db' : Database) : Prop where
  tables : ∃ fresh, db'.tables = db.tables.map (fun t => t.extend (columns t.name)) ++ fresh ∧
    ∀ t ∈ fresh, t.rows = []
  indexes : ∃ fresh, db'.indexes = db.indexes ++ fresh

namespace Grown

variable {db db' db'' : Database} {columns more : String → List Column}

theorem refl (db : Database) : db.Grown (fun _ => []) db where
  tables := ⟨[], by simp, fun t ht => absurd ht List.not_mem_nil⟩
  indexes := ⟨[], (List.append_nil _).symm⟩

theorem trans (h : db.Grown columns db') (h' : db'.Grown more db'') :
    db.Grown (fun table => columns table ++ more table) db'' := by
  obtain ⟨fresh, htables, hrows⟩ := h.tables
  obtain ⟨fresh', htables', hrows'⟩ := h'.tables
  obtain ⟨indexes, hindexes⟩ := h.indexes
  obtain ⟨indexes', hindexes'⟩ := h'.indexes
  refine ⟨⟨fresh.map (fun t => t.extend (more t.name)) ++ fresh', ?_, ?_⟩,
    ⟨indexes ++ indexes', by rw [hindexes', hindexes, List.append_assoc]⟩⟩
  · rw [htables', htables, List.map_append, List.map_map, List.append_assoc]
    simp only [Function.comp_def, Table.name_extend, Table.extend_extend]
  · intro t ht
    rcases List.mem_append.1 ht with ht | ht
    · obtain ⟨u, hu, rfl⟩ := List.mem_map.1 ht
      exact Table.rows_extend_eq_nil (hrows u hu) _
    · exact hrows' t ht

/-- The version makes no difference. -/
theorem withVersion (h : db.Grown columns db') (v : Int) :
    db.Grown columns { db' with version := v } :=
  ⟨h.tables, h.indexes⟩

/-- The rows of a table. -/
theorem rows (h : db.Grown columns db') {t : Table} (ht : t ∈ db.tables) :
    ∃ t' ∈ db'.tables, t'.name = t.name ∧
      t'.rows = t.rows.map (· ++ (columns t.name).map (·.standard)) := by
  obtain ⟨fresh, htables, -⟩ := h.tables
  refine ⟨t.extend (columns t.name), ?_, rfl, rfl⟩
  rw [htables]
  exact List.mem_append_left _ (List.mem_map_of_mem ht)

end Grown

variable {db db' : Database}

/-- One change. -/
theorem grown_of_change {c : SchemaChange} (h : db.change c = .ok db') :
    db.Grown (fun table => (c.columnFor? table).toList) db' := by
  cases c with
  | createTable name columns =>
      unfold change at h
      dsimp only at h
      split at h
      · cases h
        exact .refl db
      · cases h
        refine ⟨⟨[⟨name, columns, []⟩], ?_, ?_⟩, ⟨[], (List.append_nil _).symm⟩⟩
        · simp [SchemaChange.columnFor?]
        · intro t ht
          rw [List.mem_singleton.1 ht]
  | createIndex index =>
      unfold change at h
      dsimp only at h
      split at h
      · cases h
        exact .refl db
      · split at h
        · cases h
        · cases h
          exact ⟨⟨[], by simp [SchemaChange.columnFor?], fun t ht => absurd ht List.not_mem_nil⟩,
            ⟨[index], rfl⟩⟩
  | addColumn name column =>
      unfold change at h
      dsimp only at h
      split at h
      · cases h
      · split at h
        · cases h
        · cases h
          refine ⟨⟨[], ?_, fun t ht => absurd ht List.not_mem_nil⟩, ⟨[], (List.append_nil _).symm⟩⟩
          rw [List.append_nil]
          refine List.map_congr_left fun t _ => ?_
          by_cases hn : t.name = name
          · rw [if_pos (beq_iff_eq.2 hn), SchemaChange.columnFor?, if_pos hn.symm]
            rfl
          · rw [if_neg (by simpa using hn), SchemaChange.columnFor?, if_neg (Ne.symm hn)]
            exact t.extend_nil.symm

theorem grown_of_changeAll {changes : List SchemaChange} (h : db.changeAll changes = .ok db') :
    db.Grown (fun table => changes.filterMap (·.columnFor? table)) db' := by
  induction changes generalizing db with
  | nil =>
      cases h
      exact .refl _
  | cons c rest ih =>
      rw [changeAll] at h
      cases hc : db.change c with
      | error e =>
          rw [hc] at h
          cases h
      | ok db₁ =>
          rw [hc] at h
          have hgrown := (grown_of_change hc).trans (ih h)
          have hcolumns (table : String) : (c :: rest).filterMap (·.columnFor? table) =
              (c.columnFor? table).toList ++ rest.filterMap (·.columnFor? table) := by
            rw [List.filterMap_cons]
            cases c.columnFor? table <;> rfl
          simpa only [hcolumns] using hgrown

/-- The changes of a version. -/
theorem grown_of_advance {m : Migration} (h : db.advance m = .ok db') :
    db.Grown m.columnsFor db' := by
  unfold advance at h
  cases hc : db.changeAll m.changes with
  | error e =>
      rw [hc] at h
      cases h
  | ok db₁ =>
      rw [hc] at h
      cases h
      exact (grown_of_changeAll hc).withVersion m.version

end Database

end EmbeddedSql
