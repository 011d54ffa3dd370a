/-!
# Digits

* `digitValue?`: the value of a digit in a base up to sixteen;
* `ofDigits`: the number that digits spell; `natOf?`: the number that a run of digits spells.
-/

namespace NearNotes.Text

def digitValue? (base : Nat) (c : Char) : Option Nat :=
  let n :=
    if '0' ≤ c ∧ c ≤ '9' then c.toNat - '0'.toNat
    else if 'a' ≤ c ∧ c ≤ 'f' then c.toNat - 'a'.toNat + 10
    else if 'A' ≤ c ∧ c ≤ 'F' then c.toNat - 'A'.toNat + 10
    else base
  if n < base then some n else none

def ofDigits (base : Nat) (digits : List Nat) : Nat := digits.foldl (fun n d => n * base + d) 0

/-- The number that a run of digits spells. There must be at least one. -/
def natOf? (base : Nat) (cs : List Char) : Option Nat :=
  if cs.isEmpty then none else (cs.mapM (digitValue? base)).map (ofDigits base)

/-- The number that a text spells in decimal, with a plus sign in front or without, if a 64-bit
word holds it. -/
def wordOf? (s : String) : Option Nat := do
  let cs := s.toList
  let n ← natOf? 10 (if cs.head? = some '+' then cs.drop 1 else cs)
  if n < 0x10000000000000000 then return n else none

end NearNotes.Text
