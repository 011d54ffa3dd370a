import NearNotes.Json.Reader

/-!
# Bodies of answers

What a service answers: vectors in the JSON notation, or a text that says what went wrong.

* `Item`: a vector with the place that it is for;
* `items?`: the items of a success answer. An object may also be written as the array of its
  fields in order; unknown names are skipped, known ones stand once;
* `bodyText`: the text of any other answer, with a replacement character for what cannot be read.
-/

namespace NearNotes.Remote

structure Item where
  embedding : Embedding
  index : Nat
deriving DecidableEq, Repr

open Json

def embedding : Reader Embedding :=
  listOf do return (← number).toBinary64

def index : Reader Nat := do
  match ← number with
  | .unsigned n => return n
  | _ => failure

/-- An item as an object: both fields, each once. -/
def itemObject : Reader Item := do
  let (embedding?, index?) ← members (fun name (e, i) =>
    match name with
    | "embedding" => do
      guard e.isNone
      return (some (← embedding), i)
    | "index" => do
      guard i.isNone
      return (e, some (← index))
    | _ => do
      skipValue
      return (e, i)) ((none, none) : Option Embedding × Option Nat)
  match embedding?, index? with
  | some embedding, some index => return ⟨embedding, index⟩
  | _, _ => failure

def itemArray : Reader Item := do
  expect 0x5B
  blanks
  let embedding ← embedding
  blanks
  expect 0x2C
  blanks
  let index ← index
  blanks
  expect 0x5D
  return ⟨embedding, index⟩

def item : Reader Item := do
  if (← peek) = some 0x5B then itemArray else itemObject

def answerObject : Reader (List Item) := do
  let data? ← members (fun name data =>
    match name with
    | "data" => do
      guard data.isNone
      return some (← listOf item)
    | _ => do
      skipValue
      return data) (none : Option (List Item))
  match data? with
  | some items => return items
  | none => failure

/-- The items of an answer as the array of its one field. -/
def answerArray : Reader (List Item) := do
  expect 0x5B
  blanks
  let items ← listOf item
  blanks
  expect 0x5D
  return items

def items? (body : List UInt8) : Option (List Item) :=
  whole (do if (← peek) = some 0x5B then answerArray else answerObject) body

/-! ## Other answers -/

/-- Sixteen-bit units of bytes; a byte that is left over counts as a gap. -/
def units (bigEndian : Bool) : List UInt8 → List (Option Nat)
  | a :: b :: rest =>
    some (if bigEndian then a.toNat * 256 + b.toNat else b.toNat * 256 + a.toNat)
      :: units bigEndian rest
  | [_] => [none]
  | [] => []

/-- The characters of sixteen-bit units, with a replacement character for every gap. -/
def ofUnits : List (Option Nat) → List Char
  | some high :: some low :: rest =>
    if 0xD800 ≤ high ∧ high < 0xDC00 then
      if 0xDC00 ≤ low ∧ low < 0xE000 then
        Char.ofNat (0x10000 + (high - 0xD800) * 0x400 + (low - 0xDC00)) :: ofUnits rest
      else '\uFFFD' :: ofUnits (some low :: rest)
    else unit high :: ofUnits (some low :: rest)
  | some u :: rest => unit u :: ofUnits rest
  | none :: rest => '\uFFFD' :: ofUnits rest
  | [] => []
where
  /-- The character of a unit that stands alone. -/
  unit (u : Nat) : Char := if 0xD800 ≤ u ∧ u < 0xE000 then '\uFFFD' else Char.ofNat u

/-- The text of a body. A byte order mark at the front decides how it is read. -/
def bodyText : List UInt8 → String
  | 0xEF :: 0xBB :: 0xBF :: rest => Text.decodeLossy rest
  | 0xFE :: 0xFF :: rest => String.ofList (ofUnits (units true rest))
  | 0xFF :: 0xFE :: rest => String.ofList (ofUnits (units false rest))
  | bytes => Text.decodeLossy bytes

end NearNotes.Remote
