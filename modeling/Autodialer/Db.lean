import Autodialer.Lib.Chain
import Autodialer.Lib.Trace

/-!
# The SQL queue (`db.c`)

`db_exec` appends a statement to the shared list `sqllist`; `db_sync`, run by
the database thread, detaches the whole list under the mutex, checks the
connection and hands the detached statements to `mysql_query` one by one. The
list is modelled with its `next` pointers, because the detached chain and the
new list live in the same memory and `list_init` resets neither.

`enqueued` and `handed` record the statements that `db_exec` appended and
those that `mysql_query` was given.
-/

namespace Autodialer

open Chain

/-- `struct sqlquery`, with the `next` pointer of its `struct le`. -/
structure SqlQuery (α : Type) where
  sql : α
  next : Option Nat

/-- What `con->con` is: a usable handle, `NULL`, or a handle already passed to
`mysql_close`. -/
inductive Handle
  | connected
  | null
  | closed
deriving DecidableEq, Repr

/-- The state of `db.c`: the statements in memory, the list head `sqllist` and
the connection. -/
structure Db (α : Type) where
  queries : Heap (SqlQuery α) := Heap.empty
  head : Option Nat := none
  tail : Option Nat := none
  con : Handle := .connected
  enqueued : List α := []
  handed : List α := []

variable {α : Type}

/-- `list_append(&sqllist, &query->le, query)` on a query that is on no list. -/
def Db.append (db : Db α) (sql : α) : Db α :=
  let query := db.queries.next
  let queries := db.queries.alloc ⟨sql, none⟩
  { db with
    queries :=
      match db.tail with
      | none => queries
      | some tail => queries.modify tail fun q => { q with next := some query }
    head :=
      match db.head with
      | none => some query
      | some head => some head
    tail := some query }

def dbExec (db : Db α) (sql : α) : Db α :=
  { db.append sql with enqueued := db.enqueued ++ [sql] }

/-- `db_reconnect`: `init` and `connect` are the outcomes of `mysql_init` and of
`mysql_real_connect`. -/
def dbReconnect (db : Db α) (init connect : Bool) : Bool × Db α :=
  if init then
    if connect then (true, { db with con := .connected })
    else (false, { db with con := .closed })
  else (false, { db with con := .null })

/-- Where the database thread is in `db_sync`; `le` is its local variable. -/
inductive SyncPc
  | idle
  | ping (le : Option Nat)
  | reconnect (le : Option Nat)
  | query (le : Option Nat)
deriving DecidableEq, Repr

/-- The detached statement the thread will look at next. -/
def SyncPc.le : SyncPc → Option Nat
  | .idle => none
  | .ping le | .reconnect le | .query le => le

/-- The steps of `db_sync`, with the outcomes of the library calls in them. -/
inductive SyncEvent
  | detach
  | ping (ok : Bool)
  | reconnect (init connect : Bool)
  | query
  | finish
deriving DecidableEq, Repr

def dbSync (db : Db α) : SyncPc → SyncEvent → Option (Db α × SyncPc)
  | .idle, .detach => some ({ db with head := none, tail := none }, .ping db.head)
  | .ping le, .ping true => some (db, .query le)
  | .ping le, .ping false => some ({ db with con := .null }, .reconnect le)
  | .reconnect le, .reconnect init connect =>
    match dbReconnect db init connect with
    | (true, db) => some (db, .query le)
    | (false, db) => some (db, .idle)  -- `return`: nothing refers to `le` any more
  | .query (some le), .query =>
    (db.queries.get le).map fun query =>
      ({ db with queries := db.queries.free le, handed := db.handed ++ [query.sql] },
        .query query.next)
  | .query none, .finish => some (db, .idle)
  | _, _ => none

/-! ## The queue and its thread as a system -/

/-- The main loop enqueues, the database thread works through `db_sync`. -/
inductive QueueEvent (α : Type)
  | exec (sql : α)
  | sync (e : SyncEvent)

def queueNext (s : Db α × SyncPc) : QueueEvent α → Option (Db α × SyncPc)
  | .exec sql => some (dbExec s.1 sql, s.2)
  | .sync e => dbSync s.1 s.2 e

/-- After `db_connect` the list is empty and the thread has not started. -/
def QueueInit (s : Db α × SyncPc) : Prop := s = ({}, .idle)

def queueSystem (α : Type) : Lts (Db α × SyncPc) (QueueEvent α) := Lts.ofNext QueueInit queueNext

end Autodialer
