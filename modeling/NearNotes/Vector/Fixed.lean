import NearNotes.Vector.Binary64

/-!
# Floats with a fixed number of decimals

* `Binary64.exact`: a finite float as a whole number times a power of two;
* `roundDiv`: a quotient rounded to the nearest whole number, a half to the even one;
* `Binary64.fixed`: the text of a float with so many decimals, rounded from its exact value. Both
  zeros keep their sign.
-/

namespace NearNotes

/-- A quotient rounded to the nearest whole number, a half to the even one. -/
def roundDiv (num den : Nat) : Nat :=
  let q := num / den
  let r := num % den
  if 2 * r < den then q
  else if den < 2 * r then q + 1
  else q + q % 2

namespace Binary64

/-- The bit above the stored ones of a normal float, 2^52. -/
def hiddenBit : Nat := 0x10000000000000

/-- The magnitude of a finite float: a whole number and the power of two that it is multiplied
by. -/
def exact (x : Binary64) : Nat × Int :=
  let exponent : Nat := x.magnitude / hiddenBit
  let fraction : Nat := x.magnitude % hiddenBit
  if exponent = 0 then (fraction, -1074) else (fraction + hiddenBit, (exponent : Int) - 1075)

/-- The magnitude of a finite float in units of a decimal place, rounded. -/
def roundedUnits (x : Binary64) (places : Nat) : Nat :=
  match x.exact with
  | (m, .ofNat e) => m * Nat.pow 2 e * Nat.pow 10 places
  | (m, .negSucc e) => roundDiv (m * Nat.pow 10 places) (Nat.pow 2 (e + 1))

def fixed (x : Binary64) (places : Nat) : String :=
  let sign := if x.isNegative then "-" else ""
  if x.isNaN then "NaN"
  else if x.magnitude = infinityBits then sign ++ "inf"
  else
    let units := x.roundedUnits places
    let digits := Nat.toDigits 10 (units % Nat.pow 10 places)
    let fraction := List.replicate (places - digits.length) '0' ++ digits
    sign ++ toString (units / Nat.pow 10 places)
      ++ if places = 0 then "" else "." ++ String.ofList fraction

end Binary64

end NearNotes
