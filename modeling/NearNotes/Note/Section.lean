import NearNotes.Error
import NearNotes.Pattern.Parser
import NearNotes.Pattern.Search
import NearNotes.Text.Slice

/-!
# Sections of a note

A note is cut into sections at the places that a splitter names.

* `Boundary`: where a section starts, and its header;
* `Splitter`: any way to name boundaries; `Splitter.ofPattern` names the matches of a pattern,
  and `headingPattern` is the pattern for lines that start with a single hash and a blank;
* `Section`: a stretch of text; `sectionsAt` cuts a text at given offsets and
  `Splitter.sections` at the boundaries of a splitter.
-/

namespace NearNotes

structure Boundary where
  startOffset : Nat
  header : String
deriving DecidableEq, Repr

structure Section where
  startOffset : Nat
  text : String
deriving DecidableEq, Repr

def Section.title (s : Section) : String := Text.openingLine s.text

def Section.endOffset (s : Section) : Nat := s.startOffset + Text.byteLength s.text.toList

/-- The section's bytes include the one at an offset. -/
def Section.contains (s : Section) (offset : Nat) : Bool :=
  s.startOffset ≤ offset && offset < s.endOffset

abbrev Splitter := String → List Boundary

namespace Splitter

def headingPattern : String := "(?m)^# (.+)$"

/-- The boundary at a match: the first group is the header if it took part, and else all of it. -/
def boundaryAt (document : List Char) (m : Pattern.Program.Match) : Boundary :=
  let (start, stop) := m.group.getD (m.start, m.stop)
  ⟨m.start, String.ofList ((Text.slice? document start stop).getD [])⟩

def ofProgram (program : Pattern.Program) : Splitter := fun document =>
  (program.findAll document.toList).map (boundaryAt document.toList)

def ofPattern (pattern : String) : Except RunError Splitter :=
  match Pattern.parse pattern with
  | .ok ast => .ok (ofProgram (.ofAst ast))
  | .error fault => .error (.pattern fault.message)

end Splitter

/-- Neighbours that are equal, once. -/
def dropRepeats : List Nat → List Nat
  | [] => []
  | [a] => [a]
  | a :: b :: rest => if a = b then dropRepeats (b :: rest) else a :: dropRepeats (b :: rest)

/-- Each offset with the one after it; the last goes up to `finish`. -/
def spansUpTo (finish : Nat) : List Nat → List (Nat × Nat)
  | [] => []
  | [a] => [(a, finish)]
  | a :: b :: rest => (a, b) :: spansUpTo finish (b :: rest)

/-- The section between two offsets: none where it would be empty, run backwards or cut a
character. -/
def sectionBetween? (document : List Char) : Nat × Nat → Option Section
  | (start, stop) =>
    if stop ≤ start then none
    else (Text.slice? document start stop).map fun text => ⟨start, String.ofList text⟩

/-- The sections that offsets cut a text into: offsets past the end do not count, and neighbours
that are equal count once. -/
def sectionsAt (document : List Char) (offsets : List Nat) : List Section :=
  let length := Text.byteLength document
  let starts := dropRepeats (offsets.filter (· ≤ length))
  (spansUpTo length starts).filterMap (sectionBetween? document)

def Splitter.sections (splitter : Splitter) (document : String) : List Section :=
  sectionsAt document.toList ((splitter document).map Boundary.startOffset)

end NearNotes
