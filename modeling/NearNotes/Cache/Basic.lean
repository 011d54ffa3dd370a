import NearNotes.Storage.Table
import NearNotes.Vector.Blob

/-!
# The cache

Vectors by the exact text they belong to, kept in a database. Rows are never changed.

* `Cache`: the database, the dimension it insists on, its counters and the calls in progress;
* `read`, `write`, `contents`, `size`: plain reading and writing;
* `Lock`, `Call`: what the calls in progress hold, see `Cache.Flight`.
-/

namespace NearNotes

abbrev CallId := Nat

abbrev LockId := Nat

/-- A lock that one call holds at a time; the others wait in line. -/
structure Lock where
  id : LockId
  holder : Option CallId := none
  waiters : List CallId := []
deriving DecidableEq, Repr

/-- How far a call has come. -/
inductive Phase
  /-- In line for its text's lock, or holding it and not yet gone on. -/
  | queued
  /-- Holding the lock while its vector is computed. -/
  | computing
  /-- Holding the lock with a vector that is about to be stored. -/
  | storing (vector : Embedding)
deriving DecidableEq, Repr

structure Call where
  id : CallId
  text : String
  lock : LockId
  phase : Phase := .queued
deriving DecidableEq, Repr

structure Cache where
  database : Database := {}
  /-- The length that every vector must have, if one is enforced. -/
  dimension : Option Nat := none
  /-- Calls answered from a row. -/
  hits : Nat := 0
  /-- Calls that started to compute. -/
  misses : Nat := 0
  /-- Calls in progress, the oldest first. -/
  calls : List Call := []
  /-- The lock of every text in progress. -/
  keys : List (String × LockId) := []
  locks : List Lock := []
  /-- Calls that were given their lock and have not gone on, in the order of giving. -/
  granted : List CallId := []
  nextCall : CallId := 0
  nextLock : LockId := 0
deriving DecidableEq, Repr

structure Entry where
  text : String
  embedding : Embedding
deriving DecidableEq, Repr

structure Counters where
  rows : Nat
  hits : Nat
  misses : Nat
deriving DecidableEq, Repr

namespace Cell

/-- The bytes of a blob; any other kind of value is an error. -/
def asBlob : Cell → Except EmbedError (List UInt8)
  | blob bytes => .ok bytes
  | text _ => .error (.storage "Invalid column type Text at index: 0, name: embedding")
  | int _ => .error (.storage "Invalid column type Integer at index: 0, name: embedding")
  | real _ => .error (.storage "Invalid column type Real at index: 0, name: embedding")

def vector (cell : Cell) : Except EmbedError Embedding := do Blob.decode (← cell.asBlob)

end Cell

namespace Row

/-- The number, text and bytes of a row, if its columns are of the right kind. -/
def columns (row : Row) : Except EmbedError (Int64 × String × List UInt8) :=
  match row.key with
  | .text text => do return (row.id, text, ← row.cell.asBlob)
  | .bytes _ => .error (.storage "invalid utf-8 sequence")

end Row

/-- The entry of a row, where a blob that cannot be decoded is reported with the row's number. -/
def Entry.ofColumns : Int64 × String × List UInt8 → Except EmbedError Entry
  | (id, text, bytes) =>
    match Blob.parse bytes with
    | .ok embedding => .ok ⟨text, embedding⟩
    | .error fault => .error (.corruptData s!"row {id}: {fault.message}")

namespace Cache

/-- A cache on a database, with its table made where it is missing. -/
def openOn (db : Database) : Except EmbedError Cache := do
  return { database := ← db.prepare }

/-- The cache with a length that every vector must have. -/
def enforcing (c : Cache) (dimension : Nat) : Cache := { c with dimension := some dimension }

/-- Refuses a vector of another length than the enforced one. -/
def requireLength (c : Cache) (v : Embedding) : Except EmbedError Unit :=
  match c.dimension with
  | some expected =>
    if expected ≠ v.length then .error (.dimensionMismatch expected v.length) else .ok ()
  | none => .ok ()

def prepare (c : Cache) : Except EmbedError Cache := do
  return { c with database := ← c.database.prepare }

def read (c : Cache) (text : String) : Except EmbedError (Option Embedding) := do
  match ← c.database.value? text with
  | some cell => return some (← cell.vector)
  | none => return none

/-- Whether the row that a text already has holds a vector's blob. -/
def compareStored (db : Database) (text : String) (bytes : List UInt8) :
    Except EmbedError Unit := do
  match ← db.value? text with
  | none => throw (.storage "Query returned no rows")
  | some cell => if (← cell.asBlob) = bytes then return () else throw (.duplicateKey text)

/-- Stores a vector for a text. The same vector may be stored again; another one is refused and
leaves the row as it was. -/
def write (c : Cache) (text : String) (v : Embedding) : Cache × Except EmbedError Unit :=
  match c.requireLength v with
  | .error e => (c, .error e)
  | .ok () =>
    let bytes := Blob.encode v
    match c.database.insertNew (.text text) (.blob bytes) with
    | .error e => (c, .error e)
    | .ok (db, true) => ({ c with database := db }, .ok ())
    | .ok (db, false) => ({ c with database := db }, compareStored db text bytes)

/-- Every row in the order of insertion. A column of the wrong kind anywhere comes before a blob
that cannot be decoded. -/
def contents (c : Cache) : Except EmbedError (List Entry) := do
  let t ← c.database.rowsOf
  let rows ← t.rows.mapM Row.columns
  rows.mapM Entry.ofColumns

def size (c : Cache) : Except EmbedError Nat := do
  let t ← c.database.rowsOf
  return t.rows.length

def isEmpty (c : Cache) : Except EmbedError Bool := do return (← c.size) == 0

def counters (c : Cache) : Except EmbedError Counters := do return ⟨← c.size, c.hits, c.misses⟩

/-- The number of texts with a miss that is being computed or waited for. -/
def textsInProgress (c : Cache) : Nat := c.keys.length

end Cache

end NearNotes
