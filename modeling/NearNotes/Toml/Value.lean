/-!
# Values of a configuration file

What a file in the TOML notation says: statements, and the tree of values that they build.

* `Value`: a value; tables remember how they came about, which decides who may add to them;
* `Statement`: a key with its value, or the header of a table;
* `Fault`: what is wrong with a file.
-/

namespace NearNotes.Toml

inductive Origin
  /-- By a header of its own; the outermost table counts as such. -/
  | header
  /-- By the header of a table inside it. -/
  | implied
  /-- By a dotted key. -/
  | dotted
  /-- Written between braces, and closed ever since. -/
  | braces
deriving DecidableEq, Repr

/-- A value. Numbers with a fraction and dates are told from the rest and not kept. -/
inductive Value
  | string (s : String)
  | integer (n : Int)
  | float
  | boolean (b : Bool)
  | datetime
  /-- An array, written between brackets or as a row of tables with headers. -/
  | array (ofTables : Bool) (items : List Value)
  | table (origin : Origin) (entries : List (String × Value))

/-- A statement: the key is a path of names. -/
inductive Statement
  | assign (key : List String) (value : Value)
  | header (path : List String)
  | rowHeader (path : List String)

inductive Fault
  | unexpectedCharacter
  | unterminatedString
  | badEscape
  | badKey
  | badValue
  | numberOverflow
  | nesting
  | duplicateKey (key : String)
  | closedTable (key : String)
deriving DecidableEq, Repr

def Fault.message : Fault → String
  | unexpectedCharacter => "unexpected character"
  | unterminatedString => "unterminated string"
  | badEscape => "invalid escape sequence"
  | badKey => "invalid key"
  | badValue => "invalid value"
  | numberOverflow => "number overflowed"
  | nesting => "cannot recurse further; max recursion depth met"
  | duplicateKey key => s!"duplicate key {key}"
  | closedTable key => s!"cannot extend {key}"

end NearNotes.Toml
