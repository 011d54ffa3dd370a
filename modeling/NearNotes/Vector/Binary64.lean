/-!
# 64-bit floats by their bits

Vectors are stored and compared bit by bit, so a number here is its bit pattern: two zeros are
told apart and every NaN keeps its payload.

* `Binary64`: a bit pattern; arithmetic rounds as the hardware does;
* `rank`: the place of a number in the order that ranks distances, all NaN equal and greatest and
  the two zeros equal; `rank_le_nan` says that nothing lies above NaN;
* `isZero`: either zero; `isZero_iff_rank` says that rank zero is exactly that;
* `Embedding`: a vector of such numbers.
-/

namespace NearNotes

/-- A 64-bit float, as its bit pattern. -/
structure Binary64 where
  bits : UInt64
deriving DecidableEq, Inhabited, Repr

abbrev Embedding := List Binary64

namespace Binary64

def toFloat (x : Binary64) : Float := Float.ofBits x.bits

def ofFloat (f : Float) : Binary64 := ⟨f.toBits⟩

def ofWord (w : UInt64) : Binary64 := ofFloat w.toFloat

def add (x y : Binary64) : Binary64 := ofFloat (x.toFloat + y.toFloat)

def sub (x y : Binary64) : Binary64 := ofFloat (x.toFloat - y.toFloat)

def mul (x y : Binary64) : Binary64 := ofFloat (x.toFloat * y.toFloat)

def div (x y : Binary64) : Binary64 := ofFloat (x.toFloat / y.toFloat)

def sqrt (x : Binary64) : Binary64 := ofFloat x.toFloat.sqrt

instance : Add Binary64 := ⟨add⟩
instance : Sub Binary64 := ⟨sub⟩
instance : Mul Binary64 := ⟨mul⟩
instance : Div Binary64 := ⟨div⟩

def negZero : Binary64 := ⟨0x8000000000000000⟩

/-- The number of the sign bit, 2^63. -/
def signBit : Nat := 0x8000000000000000

def isNegative (x : Binary64) : Bool := x.bits.toNat ≥ signBit

def magnitude (x : Binary64) : Nat := x.bits.toNat % signBit

/-- The magnitude bits of infinity; anything above is no number. -/
def infinityBits : Nat := 0x7FF0000000000000

def isNaN (x : Binary64) : Bool := x.magnitude > infinityBits

/-- The place of a number among all others: as the number line has it, the two zeros at one place
and every NaN at one place above infinity. -/
def rank (x : Binary64) : Int :=
  if x.isNaN then signBit
  else if x.isNegative then - (x.magnitude : Int)
  else x.magnitude

def isZero (x : Binary64) : Bool := x.magnitude == 0

theorem magnitude_lt (x : Binary64) : x.magnitude < signBit := Nat.mod_lt _ (by decide)

theorem rank_le_nan (x : Binary64) : x.rank ≤ signBit := by
  have := x.magnitude_lt
  unfold rank
  unfold signBit at *
  split
  · exact Int.le_refl _
  · split <;> omega

theorem isZero_iff_rank (x : Binary64) : x.isZero = true ↔ x.rank = 0 := by
  have h := x.magnitude_lt
  unfold signBit at h
  unfold isZero rank isNaN signBit
  simp only [beq_iff_eq, decide_eq_true_eq]
  unfold infinityBits
  split
  · constructor <;> intro <;> omega
  · split <;> omega

end Binary64

end NearNotes
