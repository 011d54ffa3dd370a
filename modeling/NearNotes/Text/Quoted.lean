import NearNotes.Text.Printable

/-!
# Quoted texts

How a text is shown inside a message: between double quotes, with short escapes for the usual
controls and a braced hexadecimal escape for whatever would not be seen.

* `quote`: the quoted form;
* `escapeChar`: the form of one character.
-/

namespace NearNotes.Text

/-- Lower-case hexadecimal digits of a number, without leading zeros. -/
def hexDigits (n : Nat) : List Char := Nat.toDigits 16 n

/-- The quoted form of one character: a single quote stands as it is. -/
def escapeChar (c : Char) : List Char :=
  if c = '\x00' then ['\\', '0']
  else if c = '\t' then ['\\', 't']
  else if c = '\r' then ['\\', 'r']
  else if c = '\n' then ['\\', 'n']
  else if c = '"' then ['\\', '"']
  else if c = '\\' then ['\\', '\\']
  else if isPlain c then [c]
  else '\\' :: 'u' :: '\x7b' :: (hexDigits c.toNat ++ ['\x7d'])

/-- A text between double quotes, with everything that would not be seen escaped. -/
def quote (s : String) : String :=
  String.ofList ('"' :: (s.toList.flatMap escapeChar ++ ['"']))

end NearNotes.Text
