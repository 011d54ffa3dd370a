/-!
# Sets of characters

The sets that a pattern's classes stand for, as sorted spans of code points.

* `CharSet.ofSpans`: the set of some spans, sorted and merged;
* `CharSet.complement`: every other character;
* `CharSet.foldCase`: letters of the Latin alphabet joined by their other case;
* `CharSet.has`: membership;
* `CharSet.named?`: the sets that a class may name.
-/

namespace NearNotes.Pattern

/-- A set of characters: inclusive spans of code points. -/
structure CharSet where
  spans : List (Nat × Nat)
deriving DecidableEq, Repr

namespace CharSet

/-- The largest code point. -/
def top : Nat := 0x10FFFF

/-- Spans in ascending order, where spans that touch are one. -/
def mergeSorted : List (Nat × Nat) → List (Nat × Nat)
  | [] => []
  | (lo, hi) :: rest =>
    match mergeSorted rest with
    | [] => [(lo, hi)]
    | (lo', hi') :: more =>
      if lo' ≤ hi + 1 then (lo, max hi hi') :: more else (lo, hi) :: (lo', hi') :: more

def ofSpans (spans : List (Nat × Nat)) : CharSet :=
  ⟨mergeSorted (spans.mergeSort fun a b => a.1 < b.1 || (a.1 == b.1 && a.2 ≤ b.2))⟩

def has (set : CharSet) (c : Char) : Bool :=
  set.spans.any fun (lo, hi) => lo ≤ c.toNat && c.toNat ≤ hi

/-- The gaps between sorted spans, from `low` on. -/
def gaps (low : Nat) : List (Nat × Nat) → List (Nat × Nat)
  | [] => if low ≤ top then [(low, top)] else []
  | (lo, hi) :: rest => if low < lo then (low, lo - 1) :: gaps (hi + 1) rest else gaps (hi + 1) rest

def complement (set : CharSet) : CharSet := ⟨gaps 0 set.spans⟩

/-- The other case of the part of a span that lies in one Latin alphabet: lower-case letters are
looked for first. -/
def otherCase? : Nat × Nat → Option (Nat × Nat)
  | (lo, hi) =>
    if lo ≤ 0x7A && 0x61 ≤ hi then some (max lo 0x61 - 32, min hi 0x7A - 32)
    else if lo ≤ 0x5A && 0x41 ≤ hi then some (max lo 0x41 + 32, min hi 0x5A + 32)
    else none

def foldCase (set : CharSet) : CharSet :=
  ofSpans (set.spans ++ set.spans.filterMap otherCase?)

def single (c : Char) : CharSet := ⟨[(c.toNat, c.toNat)]⟩

def all : CharSet := ⟨[(0, top)]⟩

def notNewline : CharSet := ⟨[(0, 0x9), (0xB, top)]⟩

/-- Every character that is neither a newline nor a carriage return. -/
def notLineBreak : CharSet := ⟨[(0, 0x9), (0xB, 0xC), (0xE, top)]⟩

def digits : CharSet := ⟨[(0x30, 0x39)]⟩

def spaces : CharSet := ⟨[(0x9, 0xD), (0x20, 0x20)]⟩

def wordChars : CharSet := ⟨[(0x30, 0x39), (0x41, 0x5A), (0x5F, 0x5F), (0x61, 0x7A)]⟩

def named? : String → Option CharSet
  | "alnum" => some ⟨[(0x30, 0x39), (0x41, 0x5A), (0x61, 0x7A)]⟩
  | "alpha" => some ⟨[(0x41, 0x5A), (0x61, 0x7A)]⟩
  | "ascii" => some ⟨[(0, 0x7F)]⟩
  | "blank" => some ⟨[(0x9, 0x9), (0x20, 0x20)]⟩
  | "cntrl" => some ⟨[(0, 0x1F), (0x7F, 0x7F)]⟩
  | "digit" => some digits
  | "graph" => some ⟨[(0x21, 0x7E)]⟩
  | "lower" => some ⟨[(0x61, 0x7A)]⟩
  | "print" => some ⟨[(0x20, 0x7E)]⟩
  | "punct" => some ⟨[(0x21, 0x2F), (0x3A, 0x40), (0x5B, 0x60), (0x7B, 0x7E)]⟩
  | "space" => some spaces
  | "upper" => some ⟨[(0x41, 0x5A)]⟩
  | "word" => some wordChars
  | "xdigit" => some ⟨[(0x30, 0x39), (0x41, 0x46), (0x61, 0x66)]⟩
  | _ => none

end CharSet

end NearNotes.Pattern
