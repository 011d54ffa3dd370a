import NearNotes.Toml.Value

/-!
# The tree of a file

Statements put together. A name is given once; who may add to a table depends on how it came
about:

* a header makes a table, or takes over one that was only implied;
* a dotted key adds to tables that dotted keys made, and to no other;
* a table between braces and an array between brackets are closed.

`Value.assign` and `Value.openTable`, `Value.openRow` are the three kinds of statements, and
`ofStatements` the tree of all.
-/

namespace NearNotes.Toml

/-- The entries with the one of a name replaced, or a new one at the end. -/
def setEntry (entries : List (String × Value)) (key : String) (value : Value) :
    List (String × Value) :=
  if entries.any (·.1 == key) then
    entries.map fun (k, v) => if k == key then (k, value) else (k, v)
  else entries ++ [(key, value)]

def updateLast (items : List Value) (f : Value → Except Fault Value) :
    Except Fault (List Value) :=
  match items.getLast? with
  | some item => do return items.dropLast ++ [← f item]
  | none => .ok items

namespace Value

/-- Goes down a path, making the tables that are missing, and changes what is there. Along dotted
keys only tables that no header made may be entered. -/
def update (origin : Origin) (f : Value → Except Fault Value) :
    List String → Value → Except Fault Value
  | [], value => f value
  | key :: path, table own entries =>
    match entries.lookup key with
    | none => do
      return table own (setEntry entries key (← update origin f path (table origin [])))
    | some (array true items) => do
      let items ← updateLast items (update origin f path)
      return table own (setEntry entries key (array true items))
    | some (table theirs inner) =>
      if theirs = .braces then .error (.closedTable key)
      else if origin = .dotted ∧ theirs = .header then .error (.duplicateKey key)
      else do return table own (setEntry entries key (← update origin f path (table theirs inner)))
    | some _ => .error (.closedTable key)
  | key :: _, _ => .error (.closedTable key)

/-- Adds an entry that was not there. Whether the table came about by a dotted key must agree with
how it was reached. -/
def addEntry (viaDots : Bool) (key : String) (value : Value) : Value → Except Fault Value
  | table own entries =>
    if (own == .dotted) != viaDots || entries.any (·.1 == key) then .error (.duplicateKey key)
    else .ok (table own (entries ++ [(key, value)]))
  | _ => .error (.closedTable key)

def assign (target : Value) (key : List String) (value : Value) : Except Fault Value :=
  match key.getLast? with
  | none => .error .badKey
  | some last =>
    let path := key.dropLast
    target.update .dotted (addEntry (!path.isEmpty) last value) path

def openHere (key : String) : Value → Except Fault Value
  | table own entries =>
    match entries.lookup key with
    | none => .ok (table own (entries ++ [(key, table .header [])]))
    | some (table .implied inner) => .ok (table own (setEntry entries key (table .header inner)))
    | some _ => .error (.duplicateKey key)
  | _ => .error (.closedTable key)

/-- Adds a table to the row of a header in its parent. -/
def rowHere (key : String) : Value → Except Fault Value
  | table own entries =>
    match entries.lookup key with
    | none => .ok (table own (entries ++ [(key, array true [table .header []])]))
    | some (array true items) =>
      .ok (table own (setEntry entries key (array true (items ++ [table .header []]))))
    | some _ => .error (.duplicateKey key)
  | _ => .error (.closedTable key)

/-- A header is at work on the parent of the table that it names. -/
def atParent (f : String → Value → Except Fault Value) (path : List String) (root : Value) :
    Except Fault Value :=
  match path.getLast? with
  | none => .error .badKey
  | some last => root.update .implied (f last) path.dropLast

def openTable (path : List String) (root : Value) : Except Fault Value :=
  atParent openHere path root

def openRow (path : List String) (root : Value) : Except Fault Value :=
  atParent rowHere path root

end Value

/-- The tree so far, and the path of the table that assignments go to. -/
structure Progress where
  root : Value := .table .header []
  current : List String := []

def Progress.add (p : Progress) : Statement → Except Fault Progress
  | .assign key value => do
    return { p with root := ← p.root.update .implied (·.assign key value) p.current }
  | .header path => do return ⟨← p.root.openTable path, path⟩
  | .rowHeader path => do return ⟨← p.root.openRow path, path⟩

def ofStatements (statements : List Statement) : Except Fault Value := do
  return (← statements.foldlM Progress.add {}).root

end NearNotes.Toml
