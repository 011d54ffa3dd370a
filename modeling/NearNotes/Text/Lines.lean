/-!
# Lines

Lines of a text and their places, in bytes.

* `byteLength`: the length of a text in UTF-8 bytes;
* `openingLine`: the first line without its end, a carriage return before the newline included;
* `splitLines`: the lines, each with its newline; `splitLines_flatten` says that nothing is lost;
* `startOfLine`: where a line starts, lines being counted from one.
-/

namespace NearNotes.Text

def byteLength : List Char → Nat
  | [] => 0
  | c :: cs => c.utf8Size + byteLength cs

@[simp] theorem byteLength_nil : byteLength [] = 0 := rfl

@[simp] theorem byteLength_cons (c : Char) (cs : List Char) :
    byteLength (c :: cs) = c.utf8Size + byteLength cs := rfl

@[simp] theorem byteLength_append (xs ys : List Char) :
    byteLength (xs ++ ys) = byteLength xs + byteLength ys := by
  induction xs with
  | nil => simp
  | cons c xs ih => simp [ih, Nat.add_assoc]

/-- The lines of a text, each with the newline that ends it; the last one may have none. -/
def splitLines : List Char → List (List Char)
  | [] => []
  | c :: cs =>
    if c = '\n' then [c] :: splitLines cs
    else
      match splitLines cs with
      | [] => [[c]]
      | line :: lines => (c :: line) :: lines

theorem splitLines_flatten (cs : List Char) : (splitLines cs).flatten = cs := by
  induction cs with
  | nil => rfl
  | cons c cs ih =>
    unfold splitLines
    split
    · simp [ih]
    · split <;> simp_all

/-- A line without the newline that ends it, nor a carriage return before that newline. -/
def dropLineEnd (line : List Char) : List Char :=
  match line.reverse with
  | '\n' :: '\r' :: body => body.reverse
  | '\n' :: body => body.reverse
  | _ => line

/-- The first line of a text, without its end; empty for the empty text. -/
def openingLine (s : String) : String :=
  String.ofList (dropLineEnd ((splitLines s.toList).headD []))

/-- The byte offset at which a line starts, lines being counted from one. Line zero is taken for
the first one, and lines past the last start at the end. -/
def startOfLine (document : String) (line : Nat) : Nat :=
  byteLength ((splitLines document.toList).take (line - 1)).flatten

end NearNotes.Text
