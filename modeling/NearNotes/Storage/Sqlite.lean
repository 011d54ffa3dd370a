import NearNotes.Storage.Image

/-!
# Database files of SQLite

What a file that SQLite wrote says about the one table. Such a file is a sequence of pages of one
size, and a table is a tree of them: the leaves hold the rows in the order of their numbers, and the
other pages say where their children are. A row that does not fit in its leaf goes on in a chain of
further pages. The tree at the first page lists the tables with the first page of each.

* `Pages`: the pages of a file; `Pages.rows`: the rows of the tree at a page;
* `readValues`: the values of a row, whose kinds and lengths stand in its head;
* `database?`: the database of a file. Triggers are not understood, and a file with one is refused.
* `Database.ofFile?`: the database of a file of either kind.
-/

namespace NearNotes

namespace Sqlite

open Image (ByteReader take readByte)

def magic : List UInt8 := Text.utf8Bytes "SQLite format 3\x00"

/-- The number that bytes spell, the most significant first. -/
def ofBe (bytes : List UInt8) : Nat := bytes.foldl (fun n b => n * 256 + b.toNat) 0

/-- The same with a sign. -/
def signedOfBe (bytes : List UInt8) : Int :=
  let n := ofBe bytes
  if 128 ≤ bytes.head?.getD 0 then (n : Int) - (1 <<< (8 * bytes.length) : Nat) else n

def readBe (width : Nat) : ByteReader Nat := do return ofBe (← take width)

/-- A number of at most nine bytes. The first eight have seven bits each, and say whether more
follow. -/
def readVarint : ByteReader Nat := go 8 0
where
  go : Nat → Nat → ByteReader Nat
    | 0, n => do return n * 256 + (← readByte).toNat
    | left + 1, n => do
      let b ← readByte
      if b < 128 then return n * 128 + b.toNat else go left (n * 128 + (b.toNat - 128))

inductive Value
  | null
  | int (n : Int)
  | real (bits : UInt64)
  | blob (bytes : List UInt8)
  | text (bytes : List UInt8)
deriving DecidableEq

/-- A row as it is found in a tree: its number and its values. -/
structure Record where
  id : Int64
  values : List Value

def readInt (width : Nat) : ByteReader Value := do return .int (signedOfBe (← take width))

def readValue : Nat → ByteReader Value
  | 0 => return .null
  | 1 => readInt 1
  | 2 => readInt 2
  | 3 => readInt 3
  | 4 => readInt 4
  | 5 => readInt 6
  | 6 => readInt 8
  | 7 => do return .real (UInt64.ofNat (← readBe 8))
  | 8 => return .int 0
  | 9 => return .int 1
  | 10 | 11 => failure
  | kind + 12 => do
    let bytes ← take (kind / 2)
    return if kind % 2 = 0 then .blob bytes else .text bytes

/-- The numbers that fill the given bytes, of which there are at most `bound`. -/
def varints : Nat → List UInt8 → Option (List Nat)
  | _, [] => some []
  | 0, _ => none
  | bound + 1, bytes => do
    let (n, rest) ← readVarint bytes
    return n :: (← varints bound rest)

/-- The values of a row: the length of its head, their kinds, and then the values. -/
def readValues (row : List UInt8) : Option (List Value) := do
  let (headSize, afterSize) ← readVarint row
  let kinds ← varints headSize ((row.take headSize).drop (row.length - afterSize.length))
  let (values, _) ← (kinds.mapM readValue).run (row.drop headSize)
  return values

/-- The pages of a file: their size, and how much of a page is in use. -/
structure Pages where
  bytes : List UInt8
  size : Nat
  usable : Nat

namespace Pages

/-- Pages are numbered from 1. -/
def page (p : Pages) (n : Nat) : Option (List UInt8) :=
  let bytes := (p.bytes.drop ((n - 1) * p.size)).take p.size
  if n ≠ 0 ∧ bytes.length = p.size then some bytes else none

def localSize (p : Pages) (size : Nat) : Nat :=
  let least := (p.usable - 12) * 32 / 255 - 23
  let best := least + (size - least) % (p.usable - 4)
  if size ≤ p.usable - 35 then size else if best ≤ p.usable - 35 then best else least

/-- The next bytes of a chain of at most `bound` pages. -/
def chained (p : Pages) : (bound page size : Nat) → Option (List UInt8)
  | _, _, 0 => some []
  | 0, _, _ => none
  | bound + 1, n, size => do
    let bytes ← p.page n
    let part := ((bytes.take p.usable).drop 4).take size
    return part ++ (← p.chained bound (ofBe (bytes.take 4)) (size - part.length))

def readRecord (p : Pages) : ByteReader Record := do
  let size ← readVarint
  let id ← readVarint
  let near ← take (p.localSize size)
  let far := size - near.length
  let first ← if far = 0 then pure 0 else readBe 4
  let row ← p.chained far first far
  return ⟨(UInt64.ofNat id).toInt64, ← readValues (near ++ row)⟩

/-- The bytes at each of the places that a page lists, two bytes for a place. -/
def cells (page list : List UInt8) (count : Nat) : List (List UInt8) :=
  (List.range count).map fun i => page.drop (ofBe ((list.drop (2 * i)).take 2))

def rows (p : Pages) : (depth page : Nat) → Option (List Record)
  | 0, _ => none
  | depth + 1, n => do
    let page ← p.page n
    -- the head of the file stands before the first page's own
    let head := if n = 1 then page.drop 100 else page
    let count := ofBe ((head.drop 3).take 2)
    match head.head? with
    | some 0x0D => (cells page (head.drop 8) count).mapM fun cell => (p.readRecord cell).map Prod.fst
    | some 0x05 =>
      let children := (cells page (head.drop 12) count).map fun cell => ofBe (cell.take 4)
      let last := ofBe ((head.drop 8).take 4)
      return (← (children ++ [last]).mapM (p.rows depth)).flatten
    | _ => none

/-- No tree is deeper. -/
def mostLevels : Nat := 20

def tree (p : Pages) (page : Nat) : Option (List Record) := p.rows mostLevels page

end Pages

/-- The pages of a file whose texts are in UTF-8. -/
def pages? (bytes : List UInt8) : Option Pages := do
  guard (bytes.take magic.length = magic ∧ ofBe ((bytes.drop 56).take 4) = 1)
  let size := ofBe ((bytes.drop 16).take 2)
  -- two bytes are too few for the greatest size
  let size := if size = 1 then 65536 else size
  return ⟨bytes, size, size - (bytes.getD 20 0).toNat⟩

def Record.isNamed (entry : Record) (kind name : String) : Bool :=
  entry.values.take 2 = [.text (Text.utf8Bytes kind), .text (Text.utf8Bytes name)]

/-- The rows of a table, if the file has one of that name. -/
def table? (p : Pages) (schema : List Record) (name : String) :
    Option (Option (List Record)) :=
  match schema.find? (·.isNamed "table" name) with
  | none => some none
  | some ⟨_, [_, _, _, .int page, _]⟩ => (p.tree page.toNat).map some
  | some _ => none

def Value.toKey : Value → Option Key
  | .text bytes => some (((Text.decodeUtf8? bytes).map Key.text).getD (.bytes bytes))
  | .blob bytes => some (.bytes bytes)
  | _ => none

def Value.toCell : Value → Option Cell
  | .blob bytes => some (.blob bytes)
  | .text bytes => some (.text (Text.decodeLossy bytes))
  | .int n => some (.int n)
  | .real bits => some (.real bits)
  | .null => none

/-- The first column is the number of the row, which is kept outside. -/
def Record.toRow : Record → Option Row
  | ⟨id, [.null, key, cell]⟩ => do return ⟨id, ← key.toKey, ← cell.toCell⟩
  | _ => none

/-- The last number given out for a table, where a number is on record. -/
def lastGiven (sequences : List Record) (table : String) : Int64 :=
  match sequences.find? (·.values.head? = some (.text (Text.utf8Bytes table))) with
  | some ⟨_, [_, .int n]⟩ => Int64.ofInt n
  | _ => 0

def database? (bytes : List UInt8) : Option Database := do
  let p ← pages? bytes
  let schema ← p.tree 1
  guard (schema.all (·.values.head? != some (.text (Text.utf8Bytes "trigger"))))
  match ← table? p schema "embeddings" with
  | none => return {}
  | some entries =>
    let rows ← entries.mapM Record.toRow
    let given := lastGiven ((← table? p schema "sqlite_sequence").getD []) "embeddings"
    return { table := some ⟨rows, rows.foldl (fun last row => max last row.id) given⟩ }

end Sqlite

def Database.ofFile? (bytes : List UInt8) : Option Database :=
  Database.ofImage? bytes <|> Sqlite.database? bytes

end NearNotes
