/-!
# UTF-8

Reading bytes as text, strictly or with replacement characters.

* `utf8Pieces`: the characters of a byte string, with a gap for every faulty stretch;
* `decodeUtf8?`: the text, if there is no gap;
* `decodeLossy`: the text with a replacement character for every gap;
* `utf8Bytes`: the bytes of a text.

A faulty stretch is the longest start of a well-formed character that the bytes break off, or one
byte that can start none.
-/

namespace NearNotes.Text

/-- A character begun and not finished: its bits so far, the number of bytes still to come, and
the range of the next one. -/
structure Unfinished where
  bits : Nat
  missing : Nat
  low : Nat := 0x80
  high : Nat := 0xBF

/-- What a byte does where a character may start: a whole character, the start of a longer one,
or neither. -/
def leadByte (b : Nat) : Option Char ⊕ Unfinished :=
  if b < 0x80 then .inl (some (Char.ofNat b))
  else if b < 0xC2 then .inl none
  else if b < 0xE0 then .inr { bits := b - 0xC0, missing := 1 }
  else if b = 0xE0 then .inr { bits := 0, missing := 2, low := 0xA0 }
  else if b = 0xED then .inr { bits := 0xD, missing := 2, high := 0x9F }
  else if b < 0xF0 then .inr { bits := b - 0xE0, missing := 2 }
  else if b = 0xF0 then .inr { bits := 0, missing := 3, low := 0x90 }
  else if b < 0xF4 then .inr { bits := b - 0xF0, missing := 3 }
  else if b = 0xF4 then .inr { bits := 4, missing := 3, high := 0x8F }
  else .inl none

/-- The characters of a byte string from a given point on; `none` stands for a faulty stretch. -/
def utf8PiecesFrom : Option Unfinished → List UInt8 → List (Option Char)
  | none, [] => []
  | some _, [] => [none]
  | state, b :: bytes =>
    let fresh (gap : List (Option Char)) : List (Option Char) :=
      match leadByte b.toNat with
      | .inl piece => gap ++ piece :: utf8PiecesFrom none bytes
      | .inr begun => gap ++ utf8PiecesFrom (some begun) bytes
    match state with
    | none => fresh []
    | some begun =>
      if begun.low ≤ b.toNat ∧ b.toNat ≤ begun.high then
        let bits := begun.bits * 64 + (b.toNat - 0x80)
        if begun.missing ≤ 1 then some (Char.ofNat bits) :: utf8PiecesFrom none bytes
        else utf8PiecesFrom (some { bits, missing := begun.missing - 1 }) bytes
      else fresh [none]

def utf8Pieces (bytes : List UInt8) : List (Option Char) := utf8PiecesFrom none bytes

def decodeUtf8? (bytes : List UInt8) : Option String :=
  ((utf8Pieces bytes).mapM id).map String.ofList

def decodeLossy (bytes : List UInt8) : String :=
  String.ofList ((utf8Pieces bytes).map (·.getD '\uFFFD'))

def utf8Bytes (s : String) : List UInt8 := s.toUTF8.data.toList

end NearNotes.Text
