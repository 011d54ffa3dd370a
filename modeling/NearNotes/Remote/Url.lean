import NearNotes.Text.Digits
import NearNotes.Text.Utf8

/-!
# Addresses of services

The address of a service that is reached over HTTP, and how its written form is read: forgivingly,
as browsers do.

* `Url`: where to connect, and what to ask for there;
* `Url.parse?`: blanks around it are dropped, line ends and tabs anywhere; slashes and backslashes
  are alike; dots in the path are taken out and characters that may not be sent are escaped;
  anything after a hash is not sent.
-/

namespace NearNotes

structure Url where
  secure : Bool
  host : String
  /-- The number of the service at the host. -/
  service : Nat
  /-- The path, and the query if there is one. -/
  target : String
deriving DecidableEq, Repr

namespace Url

/-- A byte with two hexadecimal digits after a percent sign. -/
def escapedByte (b : UInt8) : List Char :=
  let digit (n : Nat) : Char := (Nat.digitChar n).toUpper
  ['%', digit (b.toNat / 16), digit (b.toNat % 16)]

/-- Text with every character escaped that is not printable ASCII or is listed. -/
def escape (listed : List Char) (cs : List Char) : List Char :=
  cs.flatMap fun c =>
    if c.toNat < 0x20 || c.toNat > 0x7E || listed.contains c then
      (Text.utf8Bytes c.toString).flatMap escapedByte
    else [c]

def pathSet : List Char := " \"#<>?`\x7b\x7d".toList

def querySet : List Char := " \"#<>'".toList

def isSlash (c : Char) : Bool := c == '/' || c == '\\'

/-- Pieces between slashes; there is always at least one. -/
def pieces : List Char → List (List Char)
  | [] => [[]]
  | c :: cs =>
    if isSlash c then [] :: pieces cs
    else
      match pieces cs with
      | [] => [[c]]
      | piece :: rest => (c :: piece) :: rest

/-- A dot, as it is or escaped, is made plain. -/
def plainDots : List Char → List Char
  | '%' :: '2' :: 'e' :: rest | '%' :: '2' :: 'E' :: rest => '.' :: plainDots rest
  | c :: rest => c :: plainDots rest
  | [] => []

/-- The pieces of a path after dots are taken out. A dot at the end leaves an empty piece. -/
def withoutDots (done : List (List Char)) : List (List Char) → List (List Char)
  | [] => done
  | piece :: rest =>
    let last := rest.isEmpty
    if plainDots piece = ['.', '.'] then
      withoutDots (if last then done.dropLast ++ [[]] else done.dropLast) rest
    else if plainDots piece = ['.'] then withoutDots (if last then done ++ [[]] else done) rest
    else withoutDots (done ++ [escape pathSet piece]) rest

def cleanPath (cs : List Char) : List Char :=
  let cs := if cs.head?.any isSlash then cs.drop 1 else cs
  (withoutDots [] (pieces cs)).flatMap ('/' :: ·)

/-- A number in a host's name: octal after a zero, hexadecimal after `0x`. -/
def hostNumber? : List Char → Option Nat
  | ['0', 'x'] => some 0
  | '0' :: 'x' :: rest => Text.natOf? 16 rest
  | '0' :: d :: rest => Text.natOf? 8 (d :: rest)
  | digits => Text.natOf? 10 digits

/-- Whether a host's name that ends in a number can stand, and nothing for any other name. Up to
four numbers can, none above 255 but the last, which fills what is left. -/
def numericHost? (cs : List Char) : Option Bool :=
  let parts := (String.ofList cs).splitOn "."
  let parts := if parts.getLast? == some "" && parts.length > 1 then parts.dropLast else parts
  let last := (parts.getLastD "").toList
  if (hostNumber? last).isNone && (last.isEmpty || !last.all Char.isDigit) then none
  else
    match parts.mapM fun part => hostNumber? part.toList with
    | none => some false
    | some numbers =>
      some (numbers.length ≤ 4 && numbers.dropLast.all (· ≤ 255)
        && numbers.getLastD 0 < Nat.pow 256 (5 - numbers.length))

def forbiddenHost : List Char := " #/:<>?@[\\]^|%\x7f".toList

def isHost (cs : List Char) : Bool :=
  match cs with
  | [] => false
  | '[' :: rest =>
    rest.getLast? == some ']' && rest.contains ':'
      && rest.dropLast.all fun c => c == ':' || c == '.' || (Text.digitValue? 16 c).isSome
  | cs =>
    cs.all (fun c => c.toNat ≥ 0x20 && !forbiddenHost.contains c)
      && (numericHost? (cs.map Char.toLower)).getD true

/-- What stands before the first character of a kind, and the rest from it on. -/
def spanUntil (p : Char → Bool) (cs : List Char) : List Char × List Char :=
  (cs.takeWhile (!p ·), cs.dropWhile (!p ·))

/-- A host and the number of a service there; the usual one where none is given. -/
def hostAndService? (secure : Bool) (cs : List Char) : Option (List Char × Nat) :=
  let (host, rest) :=
    if cs.head? = some '[' then
      let (inner, rest) := spanUntil (· == ']') cs
      (inner ++ rest.take 1, rest.drop 1)
    else spanUntil (· == ':') cs
  let standard := if secure then 443 else 80
  match rest with
  | [] | [':'] => if isHost host then some (host, standard) else none
  | ':' :: digits => do
    let service ← Text.natOf? 10 digits
    if isHost host && service < 0x10000 then return (host, service) else none
  | _ => none

/-- The part after the last at-sign, which ends a user's name. -/
def afterUser (cs : List Char) : List Char :=
  (cs.reverse.takeWhile (· != '@')).reverse

def afterScheme? (secure : Bool) (cs : List Char) : Option Url := do
  let cs := cs.dropWhile isSlash
  let (authority, rest) := spanUntil (fun c => isSlash c || c == '?' || c == '#') cs
  let (host, service) ← hostAndService? secure (afterUser authority)
  let rest := (spanUntil (· == '#') rest).1
  let (path, query) := spanUntil (· == '?') rest
  let query := match query with
    | [] => []
    | mark :: query => mark :: escape querySet query
  return ⟨secure, String.ofList (host.map Char.toLower), service,
    String.ofList (cleanPath path ++ query)⟩

def isEdge (c : Char) : Bool := c.toNat ≤ 0x20

/-- The address that a text spells. Only services over HTTP have one. -/
def parse? (text : String) : Option Url :=
  let cs := (text.toList.dropWhile isEdge).reverse.dropWhile isEdge |>.reverse
  let cs := cs.filter fun c => c != '\t' && c != '\n' && c != '\r'
  let (scheme, rest) := spanUntil (· == ':') cs
  match rest with
  | ':' :: rest =>
    let scheme := String.ofList (scheme.map Char.toLower)
    if scheme == "http" then afterScheme? false rest
    else if scheme == "https" then afterScheme? true rest
    else none
  | _ => none

end Url

end NearNotes
