import NearNotes.Error

/-!
# The table of stored vectors

One table of rows, each with a number, a text and a value. Other programs may write to it too, so
a text may be no text and a value no blob. A row may have `Table.mostBytes` bytes, and a number is
never used again: once the greatest one is given out, there are no new rows.

* `Row`: a row; `Table`: the rows in the order of their numbers, and the last number given out;
  `Table.rowSize`: the bytes of a row; `Table.idsLeft`: how many numbers there still are;
* `Database`: the table, if there is one, and whether inserts are ignored;
* `Database.insertNew`, `Database.insert`, `Database.delete`: writing, where a text that is
  there already makes the first do nothing and the second fail;
* `Database.value?`: the value of a text's row; `Database.prepare`: a table with distinct
  texts.
-/

namespace NearNotes

inductive Cell
  | blob (bytes : List UInt8)
  | text (s : String)
  | int (n : Int)
  | real (bits : UInt64)
deriving DecidableEq, Repr

/-- A row's key: a text, or bytes that are none. -/
inductive Key
  | text (s : String)
  | bytes (raw : List UInt8)
deriving DecidableEq, Repr

structure Row where
  id : Int64
  key : Key
  cell : Cell
deriving DecidableEq, Repr

structure Table where
  rows : List Row := []
  lastId : Int64 := 0
deriving DecidableEq, Repr

namespace Key

def size : Key → Nat
  | text s => s.utf8ByteSize
  | bytes raw => raw.length

end Key

namespace Cell

/-- The bytes that a whole number takes up in a row. -/
def intSize (n : Int) : Nat :=
  if n = 0 ∨ n = 1 then 0
  else if -128 ≤ n ∧ n < 128 then 1
  else if -32768 ≤ n ∧ n < 32768 then 2
  else if -8388608 ≤ n ∧ n < 8388608 then 3
  else if -2147483648 ≤ n ∧ n < 2147483648 then 4
  else if -140737488355328 ≤ n ∧ n < 140737488355328 then 6
  else 8

def size : Cell → Nat
  | blob bytes => bytes.length
  | text s => s.utf8ByteSize
  | int n => intSize n
  | real _ => 8

end Cell

namespace Table

def mostBytes : Nat := 1000000000

/-- The bytes of a number that is written seven bits at a time. -/
def varintSize (n : Nat) : Nat :=
  1 + ([128, 16384, 2097152, 268435456, 34359738368].filter (· ≤ n)).length

/-- The bytes that say which kind of value follows, and how long it is. -/
def kindSize : Cell → Nat
  | .blob bytes => varintSize (12 + 2 * bytes.length)
  | .text s => varintSize (13 + 2 * s.utf8ByteSize)
  | .int _ | .real _ => 1

/-- The bytes of a row. One byte gives the length of its head, and one stands for its number, which
is kept outside. -/
def rowSize (key : Key) (cell : Cell) : Nat :=
  2 + varintSize (13 + 2 * key.size) + kindSize cell + key.size + cell.size

def idsLeft (t : Table) : Nat := (Int64.maxValue.toInt - t.lastId.toInt).toNat

def find? (t : Table) (key : Key) : Option Row := t.rows.find? (·.key == key)

def append (t : Table) (key : Key) (cell : Cell) : Table :=
  ⟨t.rows ++ [⟨t.lastId + 1, key, cell⟩], t.lastId + 1⟩

/-- A number is given out, and no row has it. -/
def skipId (t : Table) : Table := { t with lastId := t.lastId + 1 }

def hasDistinctKeys (t : Table) : Bool := decide (t.rows.map Row.key).Nodup

end Table

/-- A database: its table, if there is one, and whether inserts are ignored. -/
structure Database where
  table : Option Table := none
  blocked : Bool := false
deriving DecidableEq, Repr

namespace Database

def rowsOf (db : Database) : Except EmbedError Table :=
  match db.table with
  | some t => .ok t
  | none => .error (.storage "no such table: embeddings")

def prepare (db : Database) : Except EmbedError Database :=
  match db.table with
  | none => .ok { db with table := some {} }
  | some t =>
    if t.hasDistinctKeys then .ok db
    else .error (.storage "UNIQUE constraint failed: embeddings.text")

def tooBig : EmbedError := .storage "string or blob too big"

def full : EmbedError := .storage "database or disk is full"

/-- Refuses more bytes than can be handed over. -/
def requireSize (bytes : Nat) : Except EmbedError Unit :=
  if bytes ≤ Table.mostBytes then .ok () else .error tooBig

/-- Adds a row unless the key has one. The second component tells whether it was added. A row that
is not added because the key is there takes up a number all the same, so that it too is refused
when none is left. -/
def insertNew (db : Database) (key : Key) (cell : Cell) :
    Except EmbedError (Database × Bool) := do
  let t ← db.rowsOf
  requireSize key.size
  requireSize cell.size
  if db.blocked then return (db, false)
  else if t.idsLeft = 0 then throw full
  else if (t.find? key).isSome then return ({ db with table := some t.skipId }, false)
  else
    requireSize (Table.rowSize key cell)
    return ({ db with table := some (t.append key cell) }, true)

/-- Adds a row; a key that has one is an error. -/
def insert (db : Database) (key : Key) (cell : Cell) : Except EmbedError Database := do
  let (db', isNew) ← db.insertNew key cell
  if isNew || db.blocked then return db'
  else throw (.storage "UNIQUE constraint failed: embeddings.text")

def idsLeft (db : Database) : Nat := (db.table.getD {}).idsLeft

def delete (db : Database) (key : Key) : Except EmbedError (Database × Nat) := do
  let t ← db.rowsOf
  requireSize key.size
  let gone := t.rows.filter (·.key == key)
  return ({ db with table := some { t with rows := t.rows.filter (·.key != key) } }, gone.length)

/-- Removes the table, with everything that belongs to it. -/
def dropTable (db : Database) : Except EmbedError Database := do
  let _ ← db.rowsOf
  return {}

def blockInserts (db : Database) : Except EmbedError Database := do
  let _ ← db.rowsOf
  if db.blocked then throw (.storage "trigger already exists")
  else return { db with blocked := true }

def value? (db : Database) (text : String) : Except EmbedError (Option Cell) := do
  let t ← db.rowsOf
  requireSize text.utf8ByteSize
  return (t.find? (.text text)).map Row.cell

end Database

end NearNotes
