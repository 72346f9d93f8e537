/-
# Databases

A database is a version number, tables and indexes.  Its schema changes by making tables and indexes,
which does nothing where they are there already, and by adding columns, which gives every row the
column's standard value.

Names are compared as they stand, so the names of a database that ignores their case are all written in
lower case here.
-/
namespace EmbeddedSql

/-- A value in a row; a real number by the bits of its binary form. -/
inductive Cell where
  | null
  | int (n : Int)
  | real (bits : UInt64)
  | text (s : String)
  | blob (bytes : List UInt8)
deriving DecidableEq, Repr

/-- A column, with the value that rows have in it that say nothing else. -/
structure Column where
  name : String
  standard : Cell
deriving DecidableEq, Repr

structure Table where
  name : String
  columns : List Column
  rows : List (List Cell)
deriving DecidableEq, Repr

structure TableIndex where
  name : String
  table : String
  columns : List String
deriving DecidableEq, Repr

structure Database where
  version : Int
  tables : List Table
  indexes : List TableIndex
deriving DecidableEq, Repr

/-- A change of the schema. -/
inductive SchemaChange where
  | createTable (name : String) (columns : List Column)
  | createIndex (index : TableIndex)
  | addColumn (table : String) (column : Column)
deriving DecidableEq, Repr

/-- Why a change cannot be made, or a transaction not begun or ended. -/
inductive SchemaError where
  | noSuchTable (name : String)
  | duplicateColumn (name : String)
  | transactionOpen
  | noTransaction (ending : String)
deriving DecidableEq, Repr

def SchemaError.message : SchemaError → String
  | noSuchTable name => "no such table: " ++ name
  | duplicateColumn name => "duplicate column name: " ++ name
  | transactionOpen => "cannot start a transaction within a transaction"
  | noTransaction ending => "cannot " ++ ending ++ " - no transaction is active"

namespace Table

def hasColumn (t : Table) (name : String) : Bool := t.columns.any (·.name == name)

/-- Add a column at the end, with its standard value in every row. -/
def addColumn (t : Table) (c : Column) : Table :=
  { t with columns := t.columns ++ [c], rows := t.rows.map (· ++ [c.standard]) }

end Table

namespace Database

/-- Nothing yet. -/
def empty : Database := ⟨0, [], []⟩

def table? (db : Database) (name : String) : Option Table := db.tables.find? (·.name == name)

def hasIndex (db : Database) (name : String) : Bool := db.indexes.any (·.name == name)

/-- Make one change of the schema. -/
def change (db : Database) : SchemaChange → Except SchemaError Database
  | .createTable name columns =>
    match db.table? name with
    | some _ => .ok db
    | none => .ok { db with tables := db.tables ++ [⟨name, columns, []⟩] }
  | .createIndex index =>
    if db.hasIndex index.name then .ok db
    else
      match db.table? index.table with
      | none => .error (.noSuchTable ("main." ++ index.table))
      | some _ => .ok { db with indexes := db.indexes ++ [index] }
  | .addColumn name column =>
    match db.table? name with
    | none => .error (.noSuchTable name)
    | some t =>
      if t.hasColumn column.name then .error (.duplicateColumn column.name)
      else
        .ok { db with
          tables := db.tables.map fun u => if u.name == name then u.addColumn column else u }

/-- Make changes one after the other. -/
def changeAll (db : Database) : List SchemaChange → Except SchemaError Database
  | [] => .ok db
  | c :: rest =>
    match db.change c with
    | .error e => .error e
    | .ok db => changeAll db rest

/-- The names of all tables and indexes, in order. -/
def names (db : Database) : List String :=
  (db.tables.map (·.name) ++ db.indexes.map (·.name)).mergeSort fun a b => a ≤ b

/-- The names of a table's columns; none if there is no such table. -/
def columnNames (db : Database) (table : String) : List String :=
  match db.table? table with
  | some t => t.columns.map (·.name)
  | none => []

end Database

end EmbeddedSql
