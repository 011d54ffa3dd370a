import NearNotes.Toml.Scalar

/-!
# Strings

Text between quotes: on one line or on several, with escapes or literally.

* `isTextChar`: the characters that may stand as they are: no control characters but the tab;
* `basicString`, `literalString`: a string on one line, from after its opening quote;
* `basicBlock`, `literalBlock`: a string on several lines, from after its opening quotes. A line
  end right there is not part of it, and up to two quotes may stand before the closing ones.

Each gives the text and what follows the closing quote.
-/

namespace NearNotes.Toml

open Text

def isTextChar (c : Char) : Bool := c == '\t' || (c.toNat ≥ 0x20 && c.toNat != 0x7F)

def isBlankChar (c : Char) : Bool := c == ' ' || c == '\t'

def charOf? (n : Nat) : Option Char :=
  if n < 0xD800 ∨ (0xE000 ≤ n ∧ n < 0x110000) then some (Char.ofNat n) else none

/-- The character of so many hexadecimal digits, and what follows. -/
def hexEscape (count : Nat) (cs : List Char) : Except Fault (Char × List Char) :=
  match (cs.take count).mapM (digitValue? 16) with
  | some digits =>
    if digits.length = count then
      match charOf? (ofDigits 16 digits) with
      | some c => .ok (c, cs.drop count)
      | none => .error .badEscape
    else .error .badEscape
  | none => .error .badEscape

/-- The character of an escape, from after its backslash, and what follows. -/
def escape : List Char → Except Fault (Char × List Char)
  | 'b' :: rest => .ok ('\x08', rest)
  | 't' :: rest => .ok ('\t', rest)
  | 'n' :: rest => .ok ('\n', rest)
  | 'f' :: rest => .ok ('\x0c', rest)
  | 'r' :: rest => .ok ('\r', rest)
  | 'e' :: rest => .ok ('\x1b', rest)
  | '"' :: rest => .ok ('"', rest)
  | '\\' :: rest => .ok ('\\', rest)
  | 'x' :: rest => hexEscape 2 rest
  | 'u' :: rest => hexEscape 4 rest
  | 'U' :: rest => hexEscape 8 rest
  | _ => .error .badEscape

/-- Text read so far, the latest character first, with what is left to read. -/
abbrev TextResult := Except Fault (String × List Char)

def finishText (taken : List Char) (rest : List Char) : TextResult :=
  .ok (String.ofList taken.reverse, rest)

def basicString : (fuel : Nat) → (taken : List Char) → List Char → TextResult
  | 0, _, _ | _ + 1, _, [] => .error .unterminatedString
  | fuel + 1, taken, c :: rest =>
    if c = '"' then finishText taken rest
    else if c = '\\' then do
      let (c, rest) ← escape rest
      basicString fuel (c :: taken) rest
    else if isTextChar c then basicString fuel (c :: taken) rest
    else .error .unexpectedCharacter

def literalString : (taken : List Char) → List Char → TextResult
  | _, [] => .error .unterminatedString
  | taken, c :: rest =>
    if c = '\'' then finishText taken rest
    else if isTextChar c then literalString (c :: taken) rest
    else .error .unexpectedCharacter

def dropLineStart : List Char → List Char
  | '\n' :: rest => rest
  | '\r' :: '\n' :: rest => rest
  | cs => cs

/-- What follows a backslash at the end of a line: all blanks and line ends are skipped. -/
def continuation? (cs : List Char) : Option (List Char) :=
  match cs.dropWhile isBlankChar with
  | '\n' :: rest => some (skip rest)
  | '\r' :: '\n' :: rest => some (skip rest)
  | _ => none
where
  /-- What follows blanks and line ends. -/
  skip : List Char → List Char
    | '\r' :: '\n' :: rest => skip rest
    | c :: rest => if isBlankChar c || c == '\n' then skip rest else c :: rest
    | [] => []

/-- The closing quotes of a string on several lines, if they stand here: how many quotes are still
part of the text, and what follows. -/
def closing? (quote : Char) (cs : List Char) : Option (Nat × List Char) :=
  let run := (cs.takeWhile (· == quote)).length
  if run < 3 then none
  else
    let inside := min (run - 3) 2
    some (inside, cs.drop (inside + 3))

def basicBlock : (fuel : Nat) → (taken : List Char) → List Char → TextResult
  | 0, _, _ | _ + 1, _, [] => .error .unterminatedString
  | fuel + 1, taken, c :: rest =>
    match closing? '"' (c :: rest) with
    | some (inside, rest) => finishText (List.replicate inside '"' ++ taken) rest
    | none =>
      if c = '\\' then
        match continuation? rest with
        | some rest => basicBlock fuel taken rest
        | none => do
          let (c, rest) ← escape rest
          basicBlock fuel (c :: taken) rest
      else if c = '\r' ∧ rest.head? = some '\n' then basicBlock fuel (c :: taken) rest
      else if c = '\n' ∨ isTextChar c then basicBlock fuel (c :: taken) rest
      else .error .unexpectedCharacter

def literalBlock : (taken : List Char) → List Char → TextResult
  | _, [] => .error .unterminatedString
  | taken, c :: rest =>
    match closing? '\'' (c :: rest) with
    | some (inside, rest) => finishText (List.replicate inside '\'' ++ taken) rest
    | none =>
      if c = '\r' ∧ rest.head? = some '\n' then literalBlock (c :: taken) rest
      else if c = '\n' ∨ isTextChar c then literalBlock (c :: taken) rest
      else .error .unexpectedCharacter

end NearNotes.Toml
