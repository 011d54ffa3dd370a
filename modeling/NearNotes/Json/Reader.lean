import NearNotes.Json.Number
import NearNotes.Text.Utf8

/-!
# Reading the JSON notation

Readers of values at the front of some bytes. Each fails on anything that is not what it expects.

* `string`, `number`: a string or number;
* `listOf`: an array of values of one kind;
* `members`: an object, member by member, where a name may be looked at before its value is read;
* `skipValue`: any value, looked at only as far as its shape goes: strings need not be valid text
  and numbers need not fit;
* `whole`: a value and nothing else.
-/

namespace NearNotes.Json

abbrev Reader (α : Type) := StateT (List UInt8) Option α

def isBlank (b : UInt8) : Bool := b == 0x20 || b == 0x0A || b == 0x09 || b == 0x0D

def blanks : Reader Unit := modify (·.dropWhile isBlank)

def peek : Reader (Option UInt8) := do return (← get).head?

def next : Reader UInt8 := fun bytes =>
  match bytes with
  | b :: rest => some (b, rest)
  | [] => none

def expect (b : UInt8) : Reader Unit := do guard ((← next) = b)

def expectAll (bytes : List UInt8) : Reader Unit := bytes.forM expect

/-! ## Strings -/

def hexDigit? (b : UInt8) : Option Nat :=
  if isDigit b then some (digitOf b)
  else if 0x61 ≤ b && b ≤ 0x66 then some (b.toNat - 0x61 + 10)
  else if 0x41 ≤ b && b ≤ 0x46 then some (b.toNat - 0x41 + 10)
  else none

def hexUnit : Reader Nat := do
  let digit : Reader Nat := do hexDigit? (← next)
  return (((← digit) * 16 + (← digit)) * 16 + (← digit)) * 16 + (← digit)

/-- The character of an escape that names it by its number, in one part or in two. -/
def unicodeEscape : Reader Char := do
  let unit ← hexUnit
  if unit < 0xD800 ∨ 0xE000 ≤ unit then return Char.ofNat unit
  else if unit < 0xDC00 then
    expectAll [0x5C, 0x75]
    let low ← hexUnit
    guard (0xDC00 ≤ low ∧ low < 0xE000)
    return Char.ofNat (0x10000 + (unit - 0xD800) * 0x400 + (low - 0xDC00))
  else failure

/-- The character of an escape, from after its backslash. -/
def escapedChar : Reader Char := do
  match ← next with
  | 0x22 => return '"'
  | 0x5C => return '\\'
  | 0x2F => return '/'
  | 0x62 => return '\x08'
  | 0x66 => return '\x0c'
  | 0x6E => return '\n'
  | 0x72 => return '\r'
  | 0x74 => return '\t'
  | 0x75 => unicodeEscape
  | _ => failure

/-- The bytes of a string, from after its opening quote; the latest come first in `taken`. -/
def stringBytes : (fuel : Nat) → (taken : List UInt8) → Reader (List UInt8)
  | 0, _ => failure
  | fuel + 1, taken => do
    let b ← next
    if b = 0x22 then return taken.reverse
    else if b = 0x5C then
      let c ← escapedChar
      stringBytes fuel ((Text.utf8Bytes c.toString).reverse ++ taken)
    else if b < 0x20 then failure
    else stringBytes fuel (b :: taken)

/-- A string, from after its opening quote. -/
def stringBody : Reader String := do
  let bytes ← stringBytes ((← get).length + 1) []
  match Text.decodeUtf8? bytes with
  | some s => return s
  | none => failure

def string : Reader String := do
  expect 0x22
  stringBody

/-- The end of a string is found without a look at what it says. -/
def skipString : (fuel : Nat) → Reader Unit
  | 0 => failure
  | fuel + 1 => do
    let b ← next
    if b = 0x22 then return ()
    else if b = 0x5C then
      match ← next with
      | 0x75 =>
        let _ ← hexUnit
        skipString fuel
      | e =>
        if "\"\\/bfnrt".toList.any (·.toNat == e.toNat) then skipString fuel else failure
    else if b < 0x20 then failure
    else skipString fuel

/-! ## Numbers -/

def number : Reader Number := fun bytes => number? bytes

def skipDigits : Reader Unit := do
  guard ((← peek).any isDigit)
  modify (·.dropWhile isDigit)

def skipNumber : Reader Unit := do
  if (← peek) = some 0x2D then
    let _ ← next
  if (← peek) = some 0x30 then
    let _ ← next
    guard !((← peek).any isDigit)
  else skipDigits
  if (← peek) = some 0x2E then
    let _ ← next
    skipDigits
  if (← peek) = some 0x65 ∨ (← peek) = some 0x45 then
    let _ ← next
    if (← peek) = some 0x2B ∨ (← peek) = some 0x2D then
      let _ ← next
    skipDigits

/-! ## Arrays and objects -/

/-- After a value in brackets or braces: whether another one follows. -/
def another (close : UInt8) : Reader Bool := do
  blanks
  let b ← next
  if b = 0x2C then return true
  else
    guard (b = close)
    return false

def listItems {α : Type} (item : Reader α) : (fuel : Nat) → Reader (List α)
  | 0 => failure
  | fuel + 1 => do
    blanks
    let first ← item
    if ← another 0x5D then return first :: (← listItems item fuel) else return [first]

def listOf {α : Type} (item : Reader α) : Reader (List α) := do
  expect 0x5B
  blanks
  if (← peek) = some 0x5D then
    let _ ← next
    return []
  else listItems item ((← get).length + 1)

def memberName : Reader String := do
  blanks
  let name ← string
  blanks
  expect 0x3A
  blanks
  return name

/-- Members of an object, at least one of them. Each makes something of what came before. -/
def memberItems {α : Type} (member : String → α → Reader α) : (fuel : Nat) → α → Reader α
  | 0, _ => failure
  | fuel + 1, a => do
    let name ← memberName
    let a ← member name a
    if ← another 0x7D then memberItems member fuel a else return a

def members {α : Type} (member : String → α → Reader α) (start : α) : Reader α := do
  expect 0x7B
  blanks
  if (← peek) = some 0x7D then
    let _ ← next
    return start
  else memberItems member ((← get).length + 1) start

inductive Frame
  | bracket
  | brace
deriving DecidableEq

def skipText : Reader Unit := do
  expect 0x22
  skipString ((← get).length + 1)

def skipPlain : Reader Unit := do
  match ← peek with
  | some 0x6E => expectAll [0x6E, 0x75, 0x6C, 0x6C]
  | some 0x74 => expectAll [0x74, 0x72, 0x75, 0x65]
  | some 0x66 => expectAll [0x66, 0x61, 0x6C, 0x73, 0x65]
  | some 0x22 => skipText
  | _ => skipNumber

/-- In a brace, the name before a value is skipped. -/
def skipName : Frame → Reader Unit
  | .bracket => return ()
  | .brace => do
    blanks
    skipText
    blanks
    expect 0x3A

/-- Closes as many frames as end here. What is left of them, or nothing where a value must follow
in the innermost one. -/
def closeFrames : List Frame → Reader (List Frame)
  | [] => return []
  | frame :: outer => do
    if ← another (if frame = .bracket then 0x5D else 0x7D) then
      skipName frame
      return frame :: outer
    else closeFrames outer

/-- Skips values until every open frame is closed. -/
def skipIn : (fuel : Nat) → List Frame → Reader Unit
  | 0, _ => failure
  | fuel + 1, frames => do
    blanks
    match ← peek with
    | some 0x5B => enter fuel .bracket 0x5D frames
    | some 0x7B => enter fuel .brace 0x7D frames
    | _ =>
      skipPlain
      goOn fuel frames
where
  /-- A value ended. -/
  goOn (fuel : Nat) (frames : List Frame) : Reader Unit := do
    match ← closeFrames frames with
    | [] => return ()
    | frames => skipIn fuel frames
  /-- A frame opens; it may be empty. -/
  enter (fuel : Nat) (frame : Frame) (close : UInt8) (frames : List Frame) : Reader Unit := do
    let _ ← next
    blanks
    if (← peek) = some close then
      let _ ← next
      goOn fuel frames
    else
      skipName frame
      skipIn fuel (frame :: frames)

def skipValue : Reader Unit := do skipIn ((← get).length + 1) []

def whole {α : Type} (value : Reader α) (bytes : List UInt8) : Option α :=
  let all : Reader α := do
    blanks
    let a ← value
    blanks
    return a
  match all bytes with
  | some (a, []) => some a
  | _ => none

end NearNotes.Json
