import NearNotes.Pattern.CharSet

/-!
# Patterns

The parts of a header pattern and the conditions they put on a place in a text.

* `Place`: a place between two characters of a text, with what stands before and after it;
* `Look`: conditions on a place, `Look.holds`;
* `Ast`: a pattern; `Ast.nullable` says whether it may match without reading a character.
-/

namespace NearNotes.Pattern

/-- A place in a text: the character before it, the characters after it and the number of bytes
before it. -/
structure Place where
  before : Option Char
  after : List Char
  offset : Nat
deriving DecidableEq, Repr

def Place.start (text : List Char) : Place := ⟨none, text, 0⟩

def Place.next? (p : Place) : Option Place :=
  match p.after with
  | [] => none
  | c :: rest => some ⟨some c, rest, p.offset + c.utf8Size⟩

/-- A condition on a place. -/
inductive Look
  | textStart | textEnd
  | lineStart | lineEnd
  | lineStartCrlf | lineEndCrlf
  | wordBoundary | notWordBoundary
  | wordStart | wordEnd
  | wordStartHalf | wordEndHalf
deriving DecidableEq, Repr

/-- A letter of the Latin alphabet, a digit or an underscore, where a character stands. -/
def isWord (c? : Option Char) : Bool :=
  match c? with
  | some c => CharSet.wordChars.has c
  | none => false

/-- The condition holds at the place. Between a carriage return and its newline there is neither
a line's start nor its end under the rules that know of both. -/
def Look.holds (look : Look) (p : Place) : Bool :=
  let before := isWord p.before
  let after := isWord p.after.head?
  match look with
  | textStart => p.before.isNone
  | textEnd => p.after.isEmpty
  | lineStart => p.before.isNone || p.before == some '\n'
  | lineEnd => p.after.isEmpty || p.after.head? == some '\n'
  | lineStartCrlf =>
    p.before.isNone || p.before == some '\n'
      || (p.before == some '\r' && p.after.head? != some '\n')
  | lineEndCrlf =>
    p.after.isEmpty || p.after.head? == some '\r'
      || (p.after.head? == some '\n' && p.before != some '\r')
  | wordBoundary => before != after
  | notWordBoundary => before == after
  | wordStart => !before && after
  | wordEnd => before && !after
  | wordStartHalf => !before
  | wordEndHalf => !after

inductive Ast
  | empty
  | never
  | set (chars : CharSet)
  | look (condition : Look)
  | seq (first second : Ast)
  | either (first second : Ast)
  | group (index : Nat) (body : Ast)
  | repeated (least : Nat) (most : Option Nat) (greedy : Bool) (body : Ast)
deriving Repr

/-- Alternatives, the preferred one first. -/
def Ast.eitherAll : List Ast → Ast
  | [] => never
  | [ast] => ast
  | ast :: rest => either ast (eitherAll rest)

def Ast.nullable : Ast → Bool
  | empty => true
  | never => false
  | set _ => false
  | look _ => true
  | seq a b => a.nullable && b.nullable
  | either a b => a.nullable || b.nullable
  | group _ body => body.nullable
  | repeated least _ _ body => least == 0 || body.nullable

end NearNotes.Pattern
