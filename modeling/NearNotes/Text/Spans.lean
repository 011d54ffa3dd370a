/-!
# Spans of code points

A set of code points is given by the sorted list of the points at which membership flips: the
first span runs from the first bound up to, and without, the second, and so on.

* `Spans.contains`: membership, by the parity of the number of bounds passed.
-/

namespace NearNotes.Text

/-- A set of code points, as the sorted list of the points where membership flips. -/
abbrev Spans := List Nat

namespace Spans

/-- A code point belongs to the set when an odd number of bounds lie at or below it. -/
def contains (bounds : Spans) (point : Nat) : Bool :=
  (bounds.takeWhile (· ≤ point)).length % 2 == 1

def has (bounds : Spans) (c : Char) : Bool := bounds.contains c.toNat

end Spans

end NearNotes.Text
