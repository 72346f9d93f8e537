/-
# Connections

A store is used through a connection.  Once that is closed every use is refused, except where there
is nothing to do: closing again, and saving a result that has no content digest.  Opening a store
brings its schema up to date.

Statements can be carried out in a *transaction*.  The connection remembers what the store was when the
transaction began; committing forgets it, and rolling back or closing returns to it.  A result is saved
in a transaction of its own.
-/
import EmbeddedSql.Store.Statement

namespace EmbeddedSql

/-- A connection: the store as the connection sees it, and as it was before the transaction that is open,
if one is. -/
structure Connection where
  store : Store
  isOpen : Bool
  transaction : Option Store
deriving DecidableEq, Repr

namespace Connection

/-- Open a store. -/
def connect (store : Store) : Except StoreError Connection :=
  match store.migrate with
  | (store, .ok _) => .ok ⟨store, true, none⟩
  | (_, .error e) => .error e

/-- What is not committed is lost. -/
def close (c : Connection) : Connection where
  store := c.transaction.getD c.store
  isOpen := false
  transaction := none

/-- Use an open store for something that may change it. -/
def update {α : Type} (c : Connection) (f : Store → Except StoreError (α × Store)) :
    Except StoreError (α × Connection) :=
  if !c.isOpen then .error .closed
  else
    match f c.store with
    | .error e => .error e
    | .ok (a, store) => .ok (a, { c with store })

/-- Ask an open store for something. -/
def ask {α : Type} (c : Connection) (f : Store → Except StoreError α) : Except StoreError α :=
  if !c.isOpen then .error .closed else f c.store

/-! ## Transactions -/

def begin (c : Connection) : Except StoreError Connection :=
  if !c.isOpen then .error .closed
  else
    match c.transaction with
    | none => .ok { c with transaction := some c.store }
    | some _ => .error (.schema .transactionOpen)

def commit (c : Connection) : Except StoreError Connection :=
  if !c.isOpen then .error .closed
  else
    match c.transaction with
    | none => .error (.schema (.noTransaction "commit"))
    | some _ => .ok { c with transaction := none }

def rollback (c : Connection) : Except StoreError Connection :=
  if !c.isOpen then .error .closed
  else
    match c.transaction with
    | none => .error (.schema (.noTransaction "rollback"))
    | some store => .ok { c with store, transaction := none }

def execute (c : Connection) (statement : Statement) : Except StoreError Connection :=
  if !c.isOpen then .error .closed
  else (statement.run c.store).map fun store => { c with store }

/-- Carry out statements until one is refused.  Those before it have been carried out. -/
def executeAll (c : Connection) : List Statement → Except StoreError Unit × Connection
  | [] => (.ok (), c)
  | statement :: rest =>
    match c.execute statement with
    | .error e => (.error e, c)
    | .ok c => c.executeAll rest

/-- Roll back for a reason, unless not even that can be done. -/
def giveUp (c : Connection) (reason : StoreError) : Except StoreError Unit × Connection :=
  match c.rollback with
  | .error e => (.error e, c)
  | .ok c => (.error reason, c)

/-- Carry out statements in a transaction of their own, and roll back if one is refused. -/
def atomically (c : Connection) (statements : List Statement) :
    Except StoreError Unit × Connection :=
  match c.begin with
  | .error e => (.error e, c)
  | .ok c =>
    match c.executeAll statements with
    | (.error e, c) => c.giveUp e
    | (.ok _, c) =>
      match c.commit with
      | .error e => c.giveUp e
      | .ok c => (.ok (), c)

/-- Save a result under a run, if it has a digest; gives the connection as it is afterwards in either
case. -/
def attemptSave (c : Connection) (runId : Option Text) (r : GivenResult) :
    Except StoreError Unit × Connection :=
  match r.contentHash with
  | none => (.ok (), c)
  | some hash => c.atomically (saveStatements runId r hash)

/-- Save a result under a run. -/
def save (c : Connection) (runId : Option String) (r : ScanResult) :
    Except StoreError Connection :=
  match c.attemptSave (runId.map Text.ofString) r.given with
  | (.error e, _) => .error e
  | (.ok _, c) => .ok c

/-! ## Schema and events -/

/-- Bring the schema up to date; gives the versions that were reached. -/
def migrate (c : Connection) : Except StoreError (List Int) × Connection :=
  if !c.isOpen then (.error .closed, c)
  else
    let (store, applied) := c.store.migrate
    (applied, { c with store })

/-- Store an event if that is possible. -/
def logEvent? (c : Connection) (runId eventType : Option String) (data : Json)
    (duration : Option Int) : Option Connection :=
  if !c.isOpen then none
  else (c.store.logEvent? runId eventType data duration).map fun store => { c with store }

end Connection

end EmbeddedSql
