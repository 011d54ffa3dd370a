import NearNotes.Toml.Document
import NearNotes.Toml.Text

/-!
# Reading configuration files

A file is a list of lines, each with at most one statement.

* `keyPath`: a key, which may be a path of names with dots in between;
* `value`: a value. Arrays and tables between braces may go over several lines, may hold comments
  and may end with a comma; they nest at most `maxDepth` deep;
* `parse`: the tree of a file.
-/

namespace NearNotes.Toml

/-- What a reader takes from the front, and what follows. -/
abbrev Reads (α : Type) := List Char → Except Fault (α × List Char)

def maxDepth : Nat := 80

def skipBlanks (cs : List Char) : List Char := cs.dropWhile isBlankChar

def lineEnd? : List Char → Option (List Char)
  | '\n' :: rest => some rest
  | '\r' :: '\n' :: rest => some rest
  | _ => none

/-- What follows a comment, which goes up to the line's end. -/
def skipComment : List Char → List Char
  | '#' :: rest => rest.dropWhile isTextChar
  | cs => cs

def skipLines : (fuel : Nat) → List Char → List Char
  | 0, cs => cs
  | fuel + 1, cs =>
    let cs := skipComment (skipBlanks cs)
    match lineEnd? cs with
    | some rest => skipLines fuel rest
    | none => cs

/-- A character that a name without quotes may have. -/
def isBareChar (c : Char) : Bool := c.isAlphanum || c == '_' || c == '-'

def keyName : Reads String
  | '"' :: '"' :: '"' :: _ => .error .badKey
  | '\'' :: '\'' :: '\'' :: _ => .error .badKey
  | '"' :: rest => basicString (rest.length + 1) [] rest
  | '\'' :: rest => literalString [] rest
  | cs =>
    match cs.takeWhile isBareChar with
    | [] => .error .badKey
    | name => .ok (String.ofList name, cs.dropWhile isBareChar)

/-- A key: names with dots in between. -/
def keyPath : (fuel : Nat) → Reads (List String)
  | 0, _ => .error .badKey
  | fuel + 1, cs => do
    let (name, cs) ← keyName (skipBlanks cs)
    match skipBlanks cs with
    | '.' :: rest =>
      let (names, cs) ← keyPath fuel rest
      return (name :: names, cs)
    | cs => return ([name], cs)

def endsRun (c : Char) : Bool := " \t\r\n,=[]\x7b\x7d#".toList.contains c

/-- The run of characters of a plain value. A day and a time may have one blank in between. -/
def splitRun (cs : List Char) : List Char × List Char :=
  let run := cs.takeWhile (!endsRun ·)
  match cs.dropWhile (!endsRun ·) with
  | ' ' :: d :: rest =>
    if date? run == some [] && d.isDigit then
      let more := (d :: rest).takeWhile (!endsRun ·)
      (run ++ ' ' :: more, (d :: rest).dropWhile (!endsRun ·))
    else (run, ' ' :: d :: rest)
  | rest => (run, rest)

def stringValue : Reads String
  | '"' :: '"' :: '"' :: rest => basicBlock (rest.length + 1) [] (dropLineStart rest)
  | '\'' :: '\'' :: '\'' :: rest => literalBlock [] (dropLineStart rest)
  | '"' :: rest => basicString (rest.length + 1) [] rest
  | '\'' :: rest => literalString [] rest
  | _ => .error .badValue

mutual

def value : (fuel depth : Nat) → Reads Value
  | 0, _, _ => .error .nesting
  | fuel + 1, depth, cs =>
    match cs with
    | '[' :: rest =>
      if depth = 0 then .error .nesting
      else do
        let (items, rest) ← arrayItems fuel (depth - 1) (skipLines rest.length rest)
        return (.array false items, rest)
    | '\x7b' :: rest =>
      if depth = 0 then .error .nesting
      else do
        let table := Value.table .braces []
        tableEntries fuel (depth - 1) table (skipLines rest.length rest)
    | '"' :: _ | '\'' :: _ => do
      let (s, rest) ← stringValue cs
      return (.string s, rest)
    | cs => do
      let (run, rest) := splitRun cs
      return (← scalar run, rest)

/-- The items of an array, up to its closing bracket. -/
def arrayItems : (fuel depth : Nat) → Reads (List Value)
  | 0, _, _ => .error .nesting
  | _ + 1, _, ']' :: rest => .ok ([], rest)
  | fuel + 1, depth, cs => do
    let (item, rest) ← value fuel depth cs
    match skipLines rest.length rest with
    | ',' :: rest =>
      let (items, rest) ← arrayItems fuel depth (skipLines rest.length rest)
      return (item :: items, rest)
    | ']' :: rest => return ([item], rest)
    | _ => throw .unexpectedCharacter

/-- The entries of a table between braces, up to its closing brace. -/
def tableEntries : (fuel depth : Nat) → Value → Reads Value
  | 0, _, _, _ => .error .nesting
  | _ + 1, _, table, '\x7d' :: rest => .ok (table, rest)
  | fuel + 1, depth, table, cs => do
    let (key, rest) ← keyPath (cs.length + 1) cs
    match rest with
    | '=' :: rest =>
      let (item, rest) ← value fuel depth (skipBlanks rest)
      let table ← table.assign key item
      match skipLines rest.length rest with
      | ',' :: rest => tableEntries fuel depth table (skipLines rest.length rest)
      | '\x7d' :: rest => return (table, rest)
      | _ => throw .unexpectedCharacter
    | _ => throw .unexpectedCharacter

end

/-- The header of a table, from after its opening brackets. -/
def headerPath (close : List Char) : Reads (List String) := fun cs => do
  let (path, cs) ← keyPath (cs.length + 1) cs
  if close.isPrefixOf cs then return (path, cs.drop close.length)
  else throw .unexpectedCharacter

def statement : Reads Statement
  | '[' :: '[' :: rest => do
    let (path, rest) ← headerPath [']', ']'] rest
    return (.rowHeader path, rest)
  | '[' :: rest => do
    let (path, rest) ← headerPath [']'] rest
    return (.header path, rest)
  | cs => do
    let (key, rest) ← keyPath (cs.length + 1) cs
    match rest with
    | '=' :: rest =>
      let rest := skipBlanks rest
      let (value, rest) ← value (2 * rest.length + 2) maxDepth rest
      return (.assign key value, rest)
    | _ => throw .unexpectedCharacter

/-- What follows the rest of a line: blanks and a comment, and nothing else. -/
def finishLine (cs : List Char) : Except Fault (List Char) :=
  match skipComment (skipBlanks cs) with
  | [] => .ok []
  | cs =>
    match lineEnd? cs with
    | some rest => .ok rest
    | none => .error .unexpectedCharacter

def statements : (fuel : Nat) → List Char → Except Fault (List Statement)
  | 0, _ | _ + 1, [] => .ok []
  | fuel + 1, cs =>
    match skipComment (skipBlanks cs) with
    | [] => .ok []
    | cs =>
      match lineEnd? cs with
      | some rest => statements fuel rest
      | none => do
        let (first, rest) ← statement cs
        let rest ← finishLine rest
        return first :: (← statements fuel rest)

/-- The tree of a file. A byte order mark at the front is skipped. -/
def parse (text : String) : Except Fault Value := do
  let cs := text.toList
  let cs := if cs.head? = some '\uFEFF' then cs.drop 1 else cs
  ofStatements (← statements (cs.length + 1) cs)

end NearNotes.Toml
