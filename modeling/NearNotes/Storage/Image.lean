import NearNotes.Storage.Table
import NearNotes.Text.Utf8
import NearNotes.Vector.Bytes

/-!
# Database files of this library

The bytes of a database as `Disk` keeps it. Numbers are 64-bit little-endian words, and every text or blob
comes after its length.

* `Database.image`: the file of a database;
* `Database.ofImage?`: the database of a file. The empty file is an empty database, and other
  bytes that no database has are refused.
-/

namespace NearNotes

namespace Image

/-- The first bytes of every file: `NOTEROWS`. -/
def magic : List UInt8 := Text.utf8Bytes "NOTEROWS"

def word (n : Nat) : List UInt8 := leBytes 8 n

def idWord (id : Int64) : List UInt8 := word id.toUInt64.toNat

def sized (bytes : List UInt8) : List UInt8 := word bytes.length ++ bytes

def keyBytes : Key → List UInt8
  | .text s => 0 :: sized (Text.utf8Bytes s)
  | .bytes raw => 1 :: sized raw

def cellBytes : Cell → List UInt8
  | .blob bytes => 0 :: sized bytes
  | .text s => 1 :: sized (Text.utf8Bytes s)
  | .int (.ofNat n) => 2 :: word n
  | .int (.negSucc n) => 3 :: word n
  | .real bits => 4 :: word bits.toNat

def rowBytes (row : Row) : List UInt8 := idWord row.id ++ keyBytes row.key ++ cellBytes row.cell

def tableBytes : Option Table → List UInt8
  | none => [0]
  | some t => 1 :: idWord t.lastId ++ word t.rows.length ++ t.rows.flatMap rowBytes

abbrev ByteReader (α : Type) := StateT (List UInt8) Option α

def take (n : Nat) : ByteReader (List UInt8) := fun bytes =>
  if n ≤ bytes.length then some (bytes.take n, bytes.drop n) else none

def readByte : ByteReader UInt8
  | [] => none
  | b :: bytes => some (b, bytes)

def readWord : ByteReader Nat := do return ofLe (← take 8)

def readId : ByteReader Int64 := do return (UInt64.ofNat (← readWord)).toInt64

def readSized : ByteReader (List UInt8) := do take (← readWord)

def readText : ByteReader String := do
  match Text.decodeUtf8? (← readSized) with
  | some s => return s
  | none => failure

def readKey : ByteReader Key := do
  match ← readByte with
  | 0 => return .text (← readText)
  | 1 => return .bytes (← readSized)
  | _ => failure

def readCell : ByteReader Cell := do
  match ← readByte with
  | 0 => return .blob (← readSized)
  | 1 => return .text (← readText)
  | 2 => return .int (.ofNat (← readWord))
  | 3 => return .int (.negSucc (← readWord))
  | 4 => return .real (UInt64.ofNat (← readWord))
  | _ => failure

def readRow : ByteReader Row := do return ⟨← readId, ← readKey, ← readCell⟩

def readRows : Nat → ByteReader (List Row)
  | 0 => return []
  | n + 1 => do return (← readRow) :: (← readRows n)

def readTable : ByteReader (Option Table) := do
  match ← readByte with
  | 0 => return none
  | 1 =>
    let lastId ← readId
    return some ⟨← readRows (← readWord), lastId⟩
  | _ => failure

def readDatabase : ByteReader Database := do
  guard ((← take magic.length) = magic)
  let blocked ← readByte
  return ⟨← readTable, blocked != 0⟩

end Image

namespace Database

def image (db : Database) : List UInt8 :=
  Image.magic ++ [if db.blocked then 1 else 0] ++ Image.tableBytes db.table

def ofImage? : List UInt8 → Option Database
  | [] => some {}
  | bytes =>
    match Image.readDatabase bytes with
    | some (db, []) => some db
    | _ => none

end Database

end NearNotes
