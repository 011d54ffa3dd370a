import Mathlib
import NearNotes.Vector.Binary64

/-!
# Floats and what their bits stand for

The operations take bits apart into a sign, an exponent and a mantissa, work on those and put the
outcome together again.

* `Binary64.unpacked` : what the bits stand for; `Binary64.Reads` : how that depends on their
  magnitude, and where it is ranked; `Binary64.reads` : all bits are read so;
* `Binary64.settled` : what an outcome stands for once it is packed: the same, but for finite numbers,
  which may come out as zero or infinity and keep their sign (`settled_finite`);
* `Binary64.unpacked_add`, `unpacked_sub`, `unpacked_mul` : the operations on what bits stand for;
* `Binary64.isFinite_operand` : operands are finite as their bits are.
-/

namespace NearNotes

open Float.Model (Format UnpackedFloat)
open Float.Model.UnpackedFloat

/-! ## Fields of packed floats -/

theorem unpackSign_packComponents {spec : Format} {sign exponent mantissa} :
    unpackSign (packComponents spec sign exponent mantissa) = sign.toBitVec := by
  apply BitVec.eq_of_getLsbD_eq
  intro i hi
  obtain rfl : i = 0 := Nat.lt_one_iff.mp hi
  simp [unpackSign, packComponents, BitVec.getLsbD_append, BitVec.getElem_append]

theorem ofBitVec_toBitVec_sign (s : Sign) : Sign.ofBitVec s.toBitVec = s := by cases s <;> rfl

theorem toNat_unpackExponent (b : BitVec 64) :
    (@unpackExponent .binary64 b).toNat = b.toNat / 2 ^ 52 % 2 ^ 11 := by
  simp [unpackExponent, Nat.shiftRight_eq_div_pow]

theorem toNat_unpackMantissa (b : BitVec 64) :
    (@unpackMantissa .binary64 b).toNat = b.toNat % 2 ^ 52 := by
  simp [unpackMantissa]

theorem toNat_unpackSign (b : BitVec 64) :
    (@unpackSign .binary64 b).toNat = b.toNat / 2 ^ 63 := by
  have := b.isLt
  simp [unpackSign, Nat.shiftRight_eq_div_pow]
  omega

namespace Binary64

def isFinite (x : Binary64) : Bool := x.magnitude < infinityBits

/-! ## Reading -/

def unpacked (x : Binary64) : UnpackedFloat := UnpackedFloat.unpack .binary64 x.bits.toBitVec

def sign (x : Binary64) : Sign := Sign.ofBitVec (@unpackSign .binary64 x.bits.toBitVec)

theorem sign_eq (x : Binary64) : x.sign = if x.isNegative then .negative else .positive := by
  have hlt := x.bits.toNat_lt
  have hpositive : @unpackSign .binary64 x.bits.toBitVec = 0#1 ↔ x.isNegative = false := by
    rw [← BitVec.toNat_inj, toNat_unpackSign, UInt64.toNat_toBitVec, isNegative,
      decide_eq_false_iff_not]
    change _ = 0 ↔ _
    unfold signBit
    omega
  simp only [sign, Sign.ofBitVec, hpositive]
  cases x.isNegative <;> rfl

theorem rank_eq_apply {x : Binary64} (h : x.magnitude ≤ infinityBits) :
    x.rank = x.sign.apply x.magnitude := by
  rw [sign_eq, rank, isNaN, if_neg (by simpa using h)]
  cases x.isNegative <;> rfl

theorem unpackExponent_full_iff (x : Binary64) :
    @unpackExponent .binary64 x.bits.toBitVec = -1#_ ↔ infinityBits ≤ x.magnitude := by
  rw [← BitVec.toNat_inj, toNat_unpackExponent, UInt64.toNat_toBitVec]
  change _ = 2047 ↔ _
  unfold magnitude infinityBits signBit
  omega

theorem unpackExponent_zero_iff (x : Binary64) :
    @unpackExponent .binary64 x.bits.toBitVec = 0#_ ↔ x.magnitude < 2 ^ 52 := by
  rw [← BitVec.toNat_inj, toNat_unpackExponent, UInt64.toNat_toBitVec]
  change _ = 0 ↔ _
  unfold magnitude signBit
  omega

theorem unpackMantissa_zero_iff (x : Binary64) :
    @unpackMantissa .binary64 x.bits.toBitVec = 0#_ ↔ x.magnitude % 2 ^ 52 = 0 := by
  rw [← BitVec.toNat_inj, toNat_unpackMantissa, UInt64.toNat_toBitVec]
  change _ = 0 ↔ _
  unfold magnitude signBit
  omega

/-- What bits stand for by their magnitude, and where that is ranked. The exponent of a finite number
is not beyond the greatest that is packed as such. -/
inductive Reads (x : Binary64) : UnpackedFloat → Prop
  | notANumber (h : infinityBits < x.magnitude) : Reads x .notANumber
  | infinity {s : Sign} (h : x.magnitude = infinityBits) (hrank : x.rank = s.apply infinityBits) :
      Reads x (.infinity s)
  | zero {s : Sign} (h : x.magnitude = 0) : Reads x (.zero s)
  | finite {s : Sign} {m : Nat} {e : Int} {hm : 0 < m} (h : x.magnitude < infinityBits)
      (hrank : x.rank = s.apply x.magnitude) (he : e ≤ 971) : Reads x (.finite s m e hm)

theorem reads (x : Binary64) : Reads x x.unpacked := by
  have hlt := x.magnitude_lt
  have hexponent := toNat_unpackExponent x.bits.toBitVec
  unfold unpacked UnpackedFloat.unpack
  dsimp only
  split
  · rename_i hfull
    -- The greatest exponent is that of infinity and NaN.
    have hfull := (unpackExponent_full_iff x).mp hfull
    split
    · rename_i hmantissa
      have hmantissa := (unpackMantissa_zero_iff x).mp hmantissa
      have hinfinity : x.magnitude = infinityBits := by
        unfold infinityBits signBit at *
        omega
      exact .infinity hinfinity (hinfinity ▸ rank_eq_apply hinfinity.le)
    · rename_i hmantissa
      have hmantissa := (unpackMantissa_zero_iff x).not.mp hmantissa
      refine .notANumber ?_
      unfold infinityBits signBit at *
      omega
  · rename_i hfull
    have hfinite := not_le.mp ((unpackExponent_full_iff x).not.mp hfull)
    have hrank := rank_eq_apply hfinite.le
    have hexponent : (@unpackExponent .binary64 x.bits.toBitVec).toNat ≤ 2046 := by
      have : (@unpackExponent .binary64 x.bits.toBitVec).toNat ≠ 2047 :=
        fun h => hfull (BitVec.eq_of_toNat_eq h)
      omega
    -- Among the others, the least exponent is that of zero and of numbers without a leading one.
    split
    · rename_i hsmall
      have hsmall' := (unpackExponent_zero_iff x).mp hsmall
      split
      · rename_i hmantissa
        have hmantissa := (unpackMantissa_zero_iff x).mp hmantissa
        exact .zero (by omega)
      · refine .finite hfinite hrank ?_
        rw [hsmall]
        decide
    · refine .finite hfinite hrank ?_
      change _ - (1023 + 52 : Int) ≤ _
      omega

/-! ## Packing -/

/-- What an outcome stands for once it is packed. -/
def settled (u : UnpackedFloat) : UnpackedFloat :=
  UnpackedFloat.unpack .binary64 (UnpackedFloat.pack .binary64 u)

@[simp] theorem settled_notANumber : settled .notANumber = .notANumber := rfl

@[simp] theorem settled_infinity (s : Sign) : settled (.infinity s) = .infinity s := by
  cases s <;> rfl

@[simp] theorem settled_zero (s : Sign) : settled (.zero s) = .zero s := by
  cases s <;> rfl

theorem settled_of_not_isFinite {u : UnpackedFloat} (h : UnpackedFloat.isFinite u = false) :
    settled u = u := by
  cases u with
  | notANumber => rfl
  | infinity s => exact settled_infinity s
  | zero | finite => cases h

/-- Zero or a finite number, with this sign. -/
inductive Signed (s : Sign) : UnpackedFloat → Prop
  | zero : Signed s (.zero s)
  | finite {m : Nat} {e : Int} {hm : 0 < m} : Signed s (.finite s m e hm)

theorem signed_unpack {s : Sign} {exponent : BitVec Format.binary64.exponentBits}
    {mantissa : BitVec Format.binary64.mantissaBitsWithoutImplicit} (h : exponent ≠ -1#_) :
    Signed s (UnpackedFloat.unpack .binary64 (packComponents .binary64 s exponent mantissa)) := by
  unfold UnpackedFloat.unpack
  dsimp only
  rw [unpackExponent_packComponents, if_neg h, unpackSign_packComponents, ofBitVec_toBitVec_sign]
  split
  · split
    · exact .zero
    · exact .finite
  · exact .finite

theorem signed_settled {s : Sign} {m : Nat} {e : Int} {hm : 0 < m} (he : e ≤ 971) :
    Signed s (settled (.finite s m e hm)) := by
  have hexponent : (e + Format.binary64.exponentBias +
      Format.binary64.mantissaBitsWithoutImplicit).toNat + 1 < 2 ^ Format.binary64.exponentBits := by
    change (e + 1023 + 52).toNat + 1 < 2048
    omega
  unfold settled UnpackedFloat.pack
  dsimp only
  rw [if_neg (not_le.mpr hexponent)]
  split
  · refine signed_unpack fun hfull => ?_
    have hfull := congrArg BitVec.toNat hfull
    rw [BitVec.toNat_ofNat, Nat.mod_eq_of_lt (Nat.lt_of_succ_lt hexponent)] at hfull
    change _ = 2047 at hfull
    change _ < 2048 at hexponent
    omega
  · exact signed_unpack (by decide)

theorem settled_finite (s : Sign) (m : Nat) (e : Int) (hm : 0 < m) :
    settled (.finite s m e hm) = .infinity s ∨ Signed s (settled (.finite s m e hm)) := by
  rcases le_or_gt e 971 with he | he
  · exact .inr (signed_settled he)
  · have hexponent : 2 ^ Format.binary64.exponentBits ≤ (e + Format.binary64.exponentBias +
        Format.binary64.mantissaBitsWithoutImplicit).toNat + 1 := by
      change 2048 ≤ (e + 1023 + 52).toNat + 1
      omega
    left
    rw [← settled_infinity, settled, UnpackedFloat.pack, if_pos hexponent]
    rfl

/-! ## Operands and outcomes -/

def operand (x : Binary64) : UnpackedFloat := settled x.unpacked

theorem unpacked_add (x y : Binary64) :
    (x + y).unpacked = settled (UnpackedFloat.add .binary64 x.operand y.operand) := rfl

theorem unpacked_sub (x y : Binary64) :
    (x - y).unpacked = settled (UnpackedFloat.sub .binary64 x.operand y.operand) := rfl

theorem unpacked_mul (x y : Binary64) :
    (x * y).unpacked = settled (UnpackedFloat.mul .binary64 x.operand y.operand) := rfl

theorem Signed.isFinite {s : Sign} {u : UnpackedFloat} (h : Signed s u) :
    UnpackedFloat.isFinite u = true := by
  cases h <;> rfl

theorem isFinite_operand (x : Binary64) : UnpackedFloat.isFinite x.operand = x.isFinite := by
  have hreads := x.reads
  unfold operand isFinite
  generalize x.unpacked = u at hreads
  cases hreads with
  | notANumber h => rw [settled_notANumber, decide_eq_false (by omega)]; rfl
  | infinity h => rw [settled_infinity, decide_eq_false (by omega)]; rfl
  | zero h => rw [settled_zero, h]; rfl
  | finite h _ he => rw [(signed_settled he).isFinite, decide_eq_true h]

end Binary64

end NearNotes
