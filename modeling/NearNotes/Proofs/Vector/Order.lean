import Mathlib
import NearNotes.Proofs.Vector.Distance

/-!
# The order of distances

Distances are ranked as floats are compared, but for NaN, for which a comparison of floats has no place.

* `Binary64.Below` : every NaN is above all numbers, and numbers are where comparing them puts them, so
  the two zeros are at one place;
* `magnitude_of_finite` : the magnitude of a finite number, told by its exponent and its mantissa;
* `Placed`, `Placed.compare` : what a number stands for, by its place among the ranks, which decides
  how it compares;
* `Binary64.rank_lt_iff` : a lower rank is exactly what lies below.
-/

namespace NearNotes

open Float.Model (Format UnpackedFloat)
open Float.Model.UnpackedFloat

namespace Binary64

variable {x y : Binary64}

/-- A number ranks below every NaN, and below the numbers that it is less than. -/
def Below (x y : Binary64) : Prop :=
  x.toFloat.isNaN = false ∧ (y.toFloat.isNaN = true ∨ x.toFloat < y.toFloat)

/-! ## Numbers -/

/-- The magnitude of a finite number is told by its exponent and its mantissa, which has a leading one
unless the exponent is the least. -/
theorem magnitude_of_finite {s : Sign} {m : Nat} {e : Int} {hm : 0 < m}
    (h : x.unpacked = .finite s m e hm) :
    (x.magnitude : Int) = (e + 1074) * 2 ^ 52 + m ∧ m < 2 ^ 53 ∧ -1074 ≤ e ∧
      (e = -1074 ∨ 2 ^ 52 ≤ m) := by
  have hexponent := toNat_unpackExponent x.bits.toBitVec
  have hmantissa := toNat_unpackMantissa x.bits.toBitVec
  have hmagnitude : x.magnitude = x.bits.toBitVec.toNat % 2 ^ 63 := rfl
  unfold unpacked UnpackedFloat.unpack at h
  dsimp only at h
  split at h
  · split at h <;> cases h
  · split at h
    · rename_i hleast
      split at h
      · cases h
      · cases h
        rw [hleast] at hexponent ⊢
        rw [hmantissa, hmagnitude]
        change 0 = _ at hexponent
        change (_ : Int) = ((0 : Nat) - (1023 + 52 : Int) + 1 + 1074) * 2 ^ 52 + _ ∧ _ ∧
          -1074 ≤ ((0 : Nat) - (1023 + 52 : Int) + 1) ∧ (((0 : Nat) - (1023 + 52 : Int) + 1) = -1074 ∨ _)
        omega
    · rename_i hleast
      cases h
      have hleading : (1#1 ++ @unpackMantissa .binary64 x.bits.toBitVec).toNat =
          2 ^ 52 + (@unpackMantissa .binary64 x.bits.toBitVec).toNat := by
        rw [BitVec.toNat_append, ← Nat.shiftLeft_add_eq_or_of_lt (BitVec.isLt _), Nat.shiftLeft_eq]
        rfl
      have hpos : (@unpackExponent .binary64 x.bits.toBitVec).toNat ≠ 0 :=
        fun hzero => hleast (BitVec.eq_of_toNat_eq hzero)
      rw [hleading, hmantissa, hmagnitude]
      rw [hexponent] at hpos ⊢
      change (_ : Int) = ((_ : Nat) - (1023 + 52 : Int) + 1074) * 2 ^ 52 + _ ∧ _ ∧
        -1074 ≤ ((_ : Nat) - (1023 + 52 : Int)) ∧ (((_ : Nat) - (1023 + 52 : Int)) = -1074 ∨ _)
      omega

inductive Placed : Int → UnpackedFloat → Prop
  | infinity {s : Sign} : Placed (s.apply infinityBits) (.infinity s)
  | zero {s : Sign} : Placed 0 (.zero s)
  | finite {s : Sign} {m : Nat} {e place : Int} {hm : 0 < m} (hplace : place = (e + 1074) * 2 ^ 52 + m)
      (hless : place < infinityBits) (hshort : m < 2 ^ 53) (hleast : -1074 ≤ e)
      (hleading : e = -1074 ∨ 2 ^ 52 ≤ m) : Placed (s.apply place) (.finite s m e hm)

theorem placed (h : x.isNaN = false) : Placed x.rank x.unpacked := by
  have hreads := x.reads
  generalize hu : x.unpacked = u at hreads
  cases hreads with
  | notANumber hnan =>
      rw [isNaN, decide_eq_true hnan] at h
      cases h
  | infinity _ hrank =>
      rw [hrank]
      exact .infinity
  | zero hzero =>
      rw [x.isZero_iff_rank.mp (beq_iff_eq.mpr hzero)]
      exact .zero
  | finite hless hrank _ =>
      obtain ⟨hplace, hshort, hleast, hleading⟩ := magnitude_of_finite hu
      rw [hrank]
      exact .finite hplace (Int.ofNat_lt.mpr hless) hshort hleast hleading

/-- Mantissas count only where exponents are equal, as a number with a greater one is greater. -/
theorem compare_place {m n : Nat} {e d : Int} (hm : m < 2 ^ 53) (hn : n < 2 ^ 53)
    (he : -1074 ≤ e) (hd : -1074 ≤ d) (hleading : e = -1074 ∨ 2 ^ 52 ≤ m)
    (hleading' : d = -1074 ∨ 2 ^ 52 ≤ n) :
    (compare e d).then (compare m n) =
      compare ((e + 1074) * 2 ^ 52 + m) ((d + 1074) * 2 ^ 52 + n) := by
  rcases lt_trichotomy e d with h | rfl | h
  · rw [compare_lt_iff_lt.mpr h]
    exact (compare_lt_iff_lt.mpr (by omega)).symm
  · rw [compare_eq_iff_eq.mpr rfl, Ordering.eq_then]
    rcases lt_trichotomy m n with h | rfl | h
    · rw [compare_lt_iff_lt.mpr h]
      exact (compare_lt_iff_lt.mpr (by omega)).symm
    · rw [compare_eq_iff_eq.mpr rfl, compare_eq_iff_eq.mpr rfl]
    · rw [compare_gt_iff_gt.mpr h]
      exact (compare_gt_iff_gt.mpr (by omega)).symm
  · rw [compare_gt_iff_gt.mpr h]
    exact (compare_gt_iff_gt.mpr (by omega)).symm

theorem some_lt {i j : Int} (h : i < j) : some Ordering.lt = some (compare i j) :=
  congrArg some (compare_lt_iff_lt.mpr h).symm

theorem some_gt {i j : Int} (h : j < i) : some Ordering.gt = some (compare i j) :=
  congrArg some (compare_gt_iff_gt.mpr h).symm

theorem swap_compare (i j : Int) : (compare i j).swap = compare (-i) (-j) := by
  rcases lt_trichotomy i j with h | rfl | h
  · rw [compare_lt_iff_lt.mpr h, compare_gt_iff_gt.mpr (neg_lt_neg h)]
    rfl
  · rw [compare_eq_iff_eq.mpr rfl, compare_eq_iff_eq.mpr rfl]
    rfl
  · rw [compare_gt_iff_gt.mpr h, compare_lt_iff_lt.mpr (neg_lt_neg h)]
    rfl

theorem Placed.compare {i j : Int} {u v : UnpackedFloat} (h : Placed i u) (h' : Placed j v) :
    UnpackedFloat.compare u v = some (Ord.compare i j) := by
  have hinfinity : (0 : Int) < infinityBits := by decide
  cases h with
  | @infinity s => cases h' with
    | @infinity t => cases s <;> cases t <;> rfl
    | zero => cases s <;> rfl
    | @finite t n d place hn hplace hless =>
        have hpos : 0 < place := by omega
        cases s with
        | negative => cases t <;> exact some_lt (by simp only [Sign.apply]; omega)
        | positive => cases t <;> exact some_gt (by simp only [Sign.apply]; omega)
  | @zero s => cases h' with
    | @infinity t => cases t <;> rfl
    | zero => rfl
    | @finite t n d place hn hplace =>
        have hpos : 0 < place := by omega
        cases t with
        | negative => exact some_gt (by simp only [Sign.apply]; omega)
        | positive => exact some_lt hpos
  | @finite s m e place hm hplace hless hshort hleast hleading =>
      have hpos : 0 < place := by omega
      cases h' with
      | @infinity t => cases t with
        | negative => cases s <;> exact some_gt (by simp only [Sign.apply]; omega)
        | positive => cases s <;> exact some_lt (by simp only [Sign.apply]; omega)
      | zero => cases s with
        | negative => exact some_lt (by simp only [Sign.apply]; omega)
        | positive => exact some_gt hpos
      | @finite t n d place' hn hplace' hless' hshort' hleast' hleading' =>
          have hpos' : 0 < place' := by omega
          have hcompare := compare_place hshort hshort' hleast hleast' hleading hleading'
          rw [← hplace, ← hplace'] at hcompare
          cases s with
          | negative => cases t with
            | negative =>
                simp only [UnpackedFloat.compare, hcompare, Sign.apply]
                exact congrArg some (swap_compare place place')
            | positive => exact some_lt (by simp only [Sign.apply]; omega)
          | positive => cases t with
            | negative => exact some_gt (by simp only [Sign.apply]; omega)
            | positive => exact congrArg some hcompare

/-! ## Comparisons -/

/-- A comparison works on what the bits of a number stand for. -/
theorem operand_of_number (h : x.isNaN = false) : x.operand = x.unpacked := by
  have hbits : @UnpackedFloat.isNaNBits .binary64 x.bits.toBitVec = false := by
    rw [Bool.eq_false_iff]
    intro hnan
    obtain ⟨hexponent, hmantissa⟩ := of_decide_eq_true hnan
    have hunpacked : x.unpacked = .notANumber := by
      simp only [unpacked, UnpackedFloat.unpack, hexponent, hmantissa, if_true, if_false]
    rw [isNaN_of_unpacked hunpacked] at h
    cases h
  have hpacked := @UnpackedFloat.pack_unpack .binary64 x.bits.toBitVec
  rw [hbits, if_neg (Bool.false_ne_true)] at hpacked
  exact congrArg (UnpackedFloat.unpack .binary64) hpacked

theorem unpacked_of_isNaN (h : x.isNaN = true) : x.unpacked = .notANumber := by
  have hnan : infinityBits < x.magnitude := of_decide_eq_true h
  have hreads := x.reads
  generalize x.unpacked = u at hreads
  cases hreads with
  | notANumber => rfl
  | infinity hinfinity => omega
  | zero hzero => omega
  | finite hless => omega

theorem isNaN_toFloat (x : Binary64) : x.toFloat.isNaN = x.isNaN := by
  change UnpackedFloat.isNaN x.operand = x.isNaN
  cases hnan : x.isNaN with
  | true =>
      rw [operand, unpacked_of_isNaN hnan]
      rfl
  | false =>
      rw [operand_of_number hnan]
      generalize hrank : x.rank = i
      have hplaced := hrank ▸ placed hnan
      generalize x.unpacked = u at hplaced
      cases hplaced <;> rfl

theorem lt_toFloat_iff (hx : x.isNaN = false) (hy : y.isNaN = false) :
    x.toFloat < y.toFloat ↔ x.rank < y.rank := by
  have hcompare := (placed hx).compare (placed hy)
  rw [← operand_of_number hx, ← operand_of_number hy] at hcompare
  have hlt : x.toFloat < y.toFloat ↔ UnpackedFloat.lt x.operand y.operand = true := by
    change decide _ = true ↔ _
    rw [decide_eq_true_iff]
    rfl
  rw [hlt, UnpackedFloat.lt, hcompare, beq_iff_eq, Option.some.injEq, compare_lt_iff_lt]

theorem rank_lt_of_number (h : x.isNaN = false) : x.rank < signBit :=
  lt_of_le_of_ne x.rank_le_nan fun heq => by
    rw [isNaN_of_rank heq] at h
    cases h

/-- **Ranks are the order of floats**: one float has a lower rank than another exactly if it is below. -/
theorem rank_lt_iff : x.rank < y.rank ↔ x.Below y := by
  rw [Below, isNaN_toFloat, isNaN_toFloat]
  cases hx : x.isNaN with
  | true => simp [rank_of_isNaN hx, y.rank_le_nan]
  | false => cases hy : y.isNaN with
    | true => simp [rank_of_isNaN hy, rank_lt_of_number hx]
    | false => simp [lt_toFloat_iff hx hy]

end Binary64

end NearNotes
