import NearNotes.Vector.Binary64

/-!
# Numbers of the JSON notation

A number keeps as many of its leading digits as a 64-bit word holds. What follows only counts
towards the exponent, and the number is that word times or divided by a power of ten, each rounded
once.

* `Number`: a whole number that fits, or a float;
* `scaled?`: the float of a word and a power of ten, or nothing where it is too large;
* `number?`: the number at the front of some bytes, and what follows.
-/

namespace NearNotes.Json

inductive Number
  | unsigned (n : Nat)
  | negative (n : Nat)
  | float (x : Binary64)
deriving DecidableEq, Repr

def isDigit (b : UInt8) : Bool := 0x30 ≤ b && b ≤ 0x39

def digitOf (b : UInt8) : Nat := b.toNat - 0x30

/-- The float nearest to a power of ten. -/
def tenTo (n : Nat) : Binary64 := .ofFloat (Float.ofScientific 1 false n)

/-- The largest power of ten that is a float. -/
def maxPower : Nat := 308

def withSign (negative : Bool) (x : Binary64) : Binary64 :=
  if negative then ⟨x.bits ^^^ 0x8000000000000000⟩ else x

/-- Divides by powers of ten, the largest ones first, until nothing is left of the exponent. -/
def divideTen (x : Binary64) : (fuel : Nat) → (exponent : Nat) → Binary64
  | 0, _ => x
  | fuel + 1, exponent =>
    if exponent ≤ maxPower then x / tenTo exponent
    else if x.isZero then x
    else divideTen (x / tenTo maxPower) fuel (exponent - maxPower)

def scaled? (significand : Nat) (exponent : Int) : Option Binary64 :=
  let x := Binary64.ofWord (UInt64.ofNat significand)
  match exponent with
  | .ofNat e =>
    if e ≤ maxPower then
      let y := x * tenTo e
      if y.magnitude = Binary64.infinityBits then none else some y
    else if x.isZero then some x
    else none
  | .negSucc e => some (divideTen x (e / maxPower + 2) (e + 1))

/-- Digits added to a number as long as a 64-bit word holds it: the number, and the digits that
were left out. -/
def absorb (n : Nat) : List UInt8 → Nat × List UInt8
  | [] => (n, [])
  | d :: rest =>
    let next := n * 10 + digitOf d
    if next < 0x10000000000000000 then absorb next rest else (n, d :: rest)

/-- The largest exponent that is told from a larger one. -/
def maxExponent : Nat := 0x7FFFFFFF

/-- An exponent after its mark: whether it is negative, its digits, and what follows. -/
def exponent? (bytes : List UInt8) : Option (Bool × List UInt8 × List UInt8) :=
  let (negative, bytes) :=
    match bytes with
    | 0x2B :: rest => (false, rest)
    | 0x2D :: rest => (true, rest)
    | bytes => (false, bytes)
  match bytes.takeWhile isDigit with
  | [] => none
  | digits => some (negative, digits, bytes.dropWhile isDigit)

/-- The float of digits before the point, digits after it and an exponent. -/
def float? (whole fraction : List UInt8) (exponent : Option (Bool × List UInt8)) :
    Option Binary64 :=
  let (n, longWhole) := absorb 0 whole
  let (n, left) := absorb n fraction
  let shift : Int := (longWhole.length : Int) - ((fraction.length - left.length : Nat) : Int)
  match exponent with
  | none => scaled? n shift
  | some (negative, digits) =>
    let e := digits.foldl (fun e d => e * 10 + digitOf d) 0
    if e > maxExponent then
      if n ≠ 0 ∧ !negative then none else some ⟨0⟩
    else scaled? n (if negative then shift - e else shift + e)

/-- The number at the front, from after its sign, and what follows. -/
def unsignedNumber? (negative : Bool) (bytes : List UInt8) : Option (Number × List UInt8) := do
  let whole := bytes.takeWhile isDigit
  let rest := bytes.dropWhile isDigit
  match whole with
  | [] => none
  | 0x30 :: _ :: _ => none
  | _ =>
    let (fraction, rest) ←
      match rest with
      | 0x2E :: rest =>
        match rest.takeWhile isDigit with
        | [] => none
        | digits => some (some digits, rest.dropWhile isDigit)
      | rest => some (none, rest)
    let (exponent, rest) ←
      match rest with
      | b :: more =>
        if b = 0x65 ∨ b = 0x45 then
          (exponent? more).map fun (sign, digits, rest) => (some (sign, digits), rest)
        else some (none, b :: more)
      | [] => some (none, [])
    let (n, long) := absorb 0 whole
    if fraction.isNone ∧ exponent.isNone ∧ long.isEmpty then
      if !negative then return (.unsigned n, rest)
      else if n = 0 ∨ n > 0x8000000000000000 then
        return (.float (withSign true (.ofWord (UInt64.ofNat n))), rest)
      else return (.negative n, rest)
    else
      let x ← float? whole (fraction.getD []) exponent
      return (.float (withSign negative x), rest)

def number? : List UInt8 → Option (Number × List UInt8)
  | 0x2D :: rest => unsignedNumber? true rest
  | bytes => unsignedNumber? false bytes

def Number.toBinary64 : Number → Binary64
  | unsigned n => .ofWord (UInt64.ofNat n)
  | negative n => withSign true (.ofWord (UInt64.ofNat n))
  | float x => x

end NearNotes.Json
