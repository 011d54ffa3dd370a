import NearNotes.Text.Digits
import NearNotes.Toml.Value

/-!
# Numbers, dates and truth values

Values that are written as one run of characters.

* `integer?`, `decimalNumber?`, `isWordNumber`, `isDatetime`: what a run may spell;
* `scalar`: the value of a run. An integer must fit 128 bits and a number with a fraction must not
  overflow.
-/

namespace NearNotes.Toml

open Text

/-- Digits up to the end, where an underscore may stand between two of them. -/
def digits? (base : Nat) : List Char → Option (List Nat)
  | [] => none
  | [c] => (digitValue? base c).map ([·])
  | c :: '_' :: rest => do return (← digitValue? base c) :: (← digits? base rest)
  | c :: rest => do return (← digitValue? base c) :: (← digits? base rest)

/-- A sign, if there is one: whether it is a minus, and what follows. -/
def splitSign : List Char → Option Bool × List Char
  | '+' :: rest => (some false, rest)
  | '-' :: rest => (some true, rest)
  | rest => (none, rest)

/-- Decimal digits without a needless zero in front. -/
def decimal? (cs : List Char) : Option (List Nat) := do
  match ← digits? 10 cs with
  | 0 :: _ :: _ => none
  | digits => return digits

/-- An integer: decimal with a sign, or in another base without one. -/
def integer? (cs : List Char) : Option Int :=
  match cs with
  | '0' :: 'x' :: rest => (digits? 16 rest).map fun ds => ofDigits 16 ds
  | '0' :: 'o' :: rest => (digits? 8 rest).map fun ds => ofDigits 8 ds
  | '0' :: 'b' :: rest => (digits? 2 rest).map fun ds => ofDigits 2 ds
  | cs =>
    let (sign, rest) := splitSign cs
    (decimal? rest).map fun ds =>
      let n : Int := ofDigits 10 ds
      if sign = some true then -n else n

/-- What stands before the first character of a kind, and what follows it if there is one. -/
def splitAtFirst (p : Char → Bool) (cs : List Char) : List Char × Option (List Char) :=
  (cs.takeWhile (!p ·), match cs.dropWhile (!p ·) with
    | [] => none
    | _ :: rest => some rest)

/-- A decimal number: significant digits and the power of ten that they are to be multiplied by. -/
structure DecimalNumber where
  significand : Nat
  exponent : Int

/-- The number rounds to no finite 64-bit float. Far from the limit the length alone decides. -/
def DecimalNumber.overflows (d : DecimalNumber) : Bool :=
  let magnitude : Int := (Nat.toDigits 10 d.significand).length + d.exponent
  if d.significand = 0 || magnitude < 300 then false
  else if magnitude > 320 then true
  else
    let limit := Nat.pow 2 1024 - Nat.pow 2 970
    if 0 ≤ d.exponent then d.significand * Nat.pow 10 d.exponent.toNat ≥ limit
    else d.significand ≥ limit * Nat.pow 10 (-d.exponent).toNat

/-- The integer fits 128 bits: with a sign if it is negative, and else without one. -/
def fitsWideWord (n : Int) : Bool := -(Nat.pow 2 127 : Nat) ≤ n && n < (Nat.pow 2 128 : Nat)

def decimalNumber? (cs : List Char) : Option DecimalNumber := do
  let (_, cs) := splitSign cs
  let (mantissa, exponentPart) := splitAtFirst (fun c => c == 'e' || c == 'E') cs
  let (whole, fractionPart) := splitAtFirst (· == '.') mantissa
  if exponentPart.isNone && fractionPart.isNone then none
  else
    let wholeDigits ← decimal? whole
    let fraction ← fractionPart.elim (some []) (digits? 10)
    let exponent ← exponentPart.elim (some 0) fun cs => do
      let (sign, rest) := splitSign cs
      let n : Int := ofDigits 10 (← digits? 10 rest)
      return if sign = some true then -n else n
    return ⟨ofDigits 10 (wholeDigits ++ fraction), exponent - fraction.length⟩

def isWordNumber (cs : List Char) : Bool :=
  let word := (splitSign cs).2
  word == "inf".toList || word == "nan".toList

/-! ## Dates and times -/

/-- A number of exactly so many digits, and what follows. -/
def fixedDigits? (count : Nat) (cs : List Char) : Option (Nat × List Char) := do
  let digits ← (cs.take count).mapM (digitValue? 10)
  if digits.length = count then return (ofDigits 10 digits, cs.drop count) else none

def daysIn (year month : Nat) : Nat :=
  if month = 2 then
    if year % 4 = 0 ∧ (year % 100 ≠ 0 ∨ year % 400 = 0) then 29 else 28
  else if month = 4 ∨ month = 6 ∨ month = 9 ∨ month = 11 then 30
  else 31

def after? (c : Char) : List Char → Option (List Char)
  | d :: rest => if d = c then some rest else none
  | [] => none

/-- A day of the calendar at the front, and what follows. -/
def date? (cs : List Char) : Option (List Char) := do
  let (year, cs) ← fixedDigits? 4 cs
  let (month, cs) ← fixedDigits? 2 (← after? '-' cs)
  let (day, cs) ← fixedDigits? 2 (← after? '-' cs)
  guard (1 ≤ month ∧ month ≤ 12 ∧ 1 ≤ day ∧ day ≤ daysIn year month)
  return cs

/-- What follows a fraction of a second, if there is one. -/
def fraction? : List Char → Option (List Char)
  | '.' :: c :: rest => do
    let _ ← digitValue? 10 c
    return rest.dropWhile (digitValue? 10 · |>.isSome)
  | '.' :: [] => none
  | cs => some cs

/-- A time of the day at the front, and what follows. Seconds may be left out. -/
def time? (cs : List Char) : Option (List Char) := do
  let (hour, cs) ← fixedDigits? 2 cs
  let (minute, cs) ← fixedDigits? 2 (← after? ':' cs)
  guard (hour ≤ 23 ∧ minute ≤ 59)
  match cs with
  | ':' :: cs =>
    let (second, cs) ← fixedDigits? 2 cs
    guard (second ≤ 60)
    fraction? cs
  | cs => return cs

/-- The distance to universal time, up to the end. -/
def isOffset : List Char → Bool
  | ['Z'] | ['z'] => true
  | sign :: cs =>
    (sign == '+' || sign == '-') && match fixedDigits? 2 cs with
      | some (hour, ':' :: cs) =>
        match fixedDigits? 2 cs with
        | some (minute, []) => hour ≤ 23 && minute ≤ 59
        | _ => false
      | _ => false
  | [] => false

def isDatetime (cs : List Char) : Bool :=
  match date? cs with
  | some [] => true
  | some (mark :: rest) =>
    (mark == 'T' || mark == 't' || mark == ' ') && match time? rest with
      | some cs => cs.isEmpty || isOffset cs
      | none => false
  | none => time? cs == some []

def scalar (cs : List Char) : Except Fault Value :=
  if cs = "true".toList then .ok (.boolean true)
  else if cs = "false".toList then .ok (.boolean false)
  else if isWordNumber cs then .ok .float
  else if isDatetime cs then .ok .datetime
  else
    match integer? cs with
    | some n => if fitsWideWord n then .ok (.integer n) else .error .numberOverflow
    | none =>
      match decimalNumber? cs with
      | some d => if d.overflows then .error .numberOverflow else .ok .float
      | none => .error .badValue

end NearNotes.Toml
