import Mathlib
import NearNotes.Proofs.Vector.Unpacked
import NearNotes.Vector.Distance

/-!
# Where distances are ranked

A distance is a sum of squares of differences. What holds of them whatever is rounded on the way:

* `AtLeastZero`, `Huge` : what stands for nothing below zero, and for infinity or NaN;
  `AtLeastZero.add`, `Huge.add_left`, `Huge.add_right` : sums keep this;
* `foldl_add_of_all`, `foldl_add_of_exists` : what all summands, or one of them, pass on to a sum;
* `rank_sumSquares` : no distance ranks below zero;
* `infinityBits_le_rank_sumSquares` : from a vector with an element that is infinite or NaN, none
  ranks below infinity;
* `isZero_sumSquares_self`, `isNaN_sumSquares_self` : the distance of a vector from itself is zero if
  all of its elements are finite, and NaN otherwise.
-/

namespace NearNotes

open Float.Model (Format UnpackedFloat)
open Float.Model.UnpackedFloat
open Binary64 (settled settled_finite Signed)

/-! ## Nothing below zero -/

/-- Not below zero, or NaN. -/
inductive AtLeastZero : UnpackedFloat → Prop
  | notANumber : AtLeastZero .notANumber
  | infinity : AtLeastZero (.infinity .positive)
  | zero (s : Sign) : AtLeastZero (.zero s)
  | finite {m : Nat} {e : Int} {hm : 0 < m} : AtLeastZero (.finite .positive m e hm)

/-- Infinity above all numbers, or NaN. -/
inductive Huge : UnpackedFloat → Prop
  | notANumber : Huge .notANumber
  | infinity : Huge (.infinity .positive)

namespace AtLeastZero

theorem of_signed {u : UnpackedFloat} (h : Signed .positive u) : AtLeastZero u := by
  cases h with
  | zero => exact .zero _
  | finite => exact .finite

theorem settled {u : UnpackedFloat} (h : AtLeastZero u) : AtLeastZero (settled u) := by
  cases h with
  | notANumber => exact .notANumber
  | infinity => exact .infinity
  | zero s => rw [Binary64.settled_zero]; exact .zero s
  | finite =>
      rcases settled_finite .positive _ _ ‹_› with h | h
      · rw [h]; exact .infinity
      · exact .of_signed h

theorem round (spec : Format) (m : Nat) (e : Int) (accuracy : Accuracy) :
    AtLeastZero (roundWithAccuracy spec .positive m e accuracy) := by
  unfold roundWithAccuracy
  dsimp only
  split
  · exact .zero _
  · exact .finite

theorem normalize (spec : Format) {m : Int} (hm : 0 ≤ m) (e : Int) :
    AtLeastZero (normalize spec m e .positive) := by
  unfold UnpackedFloat.normalize
  split
  · rename_i hlt
    exact absurd (Int.compare_eq_lt.mp hlt) (not_lt.mpr hm)
  · exact .zero _
  · exact round spec _ _ _

theorem add {spec : Format} {u v : UnpackedFloat} (hu : AtLeastZero u) (hv : AtLeastZero v) :
    AtLeastZero (UnpackedFloat.add spec u v) := by
  cases hu with
  | notANumber => exact .notANumber
  | infinity => cases hv with
    | notANumber => exact .notANumber
    | infinity | zero | finite => exact .infinity
  | zero s => cases hv with
    | notANumber => exact .notANumber
    | infinity => exact .infinity
    | zero t => cases s <;> cases t <;> exact .zero _
    | finite => exact .finite
  | finite => cases hv with
    | notANumber => exact .notANumber
    | infinity => exact .infinity
    | zero t => exact .finite
    | finite => exact normalize spec (Int.add_nonneg (Int.natCast_nonneg _) (Int.natCast_nonneg _)) _

theorem square (spec : Format) (u : UnpackedFloat) : AtLeastZero (UnpackedFloat.mul spec u u) := by
  cases u with
  | notANumber => exact .notANumber
  | infinity s => cases s <;> exact .infinity
  | zero s => exact .zero _
  | finite s => cases s <;> exact round spec _ _ _

end AtLeastZero

/-! ## Infinity and NaN -/

namespace Huge

theorem settled {u : UnpackedFloat} (h : Huge u) : Huge (settled u) := by
  cases h with
  | notANumber => exact .notANumber
  | infinity => exact .infinity

theorem add_left {spec : Format} {u v : UnpackedFloat} (hu : Huge u) (hv : AtLeastZero v) :
    Huge (UnpackedFloat.add spec u v) := by
  cases hu with
  | notANumber => exact .notANumber
  | infinity => cases hv with
    | notANumber => exact .notANumber
    | infinity | zero | finite => exact .infinity

theorem add_right {spec : Format} {u v : UnpackedFloat} (hu : AtLeastZero u) (hv : Huge v) :
    Huge (UnpackedFloat.add spec u v) := by
  cases hv with
  | notANumber => cases hu <;> exact .notANumber
  | infinity => cases hu with
    | notANumber => exact .notANumber
    | infinity | zero | finite => exact .infinity

theorem square (spec : Format) {u : UnpackedFloat} (h : UnpackedFloat.isFinite u = false) :
    Huge (UnpackedFloat.mul spec u u) := by
  cases u with
  | notANumber => exact .notANumber
  | infinity s => cases s <;> exact .infinity
  | zero | finite => cases h

end Huge

theorem notANumber_add (spec : Format) (u : UnpackedFloat) :
    UnpackedFloat.add spec .notANumber u = .notANumber := by
  cases u <;> rfl

theorem add_notANumber (spec : Format) (u : UnpackedFloat) :
    UnpackedFloat.add spec u .notANumber = .notANumber := by
  cases u <;> rfl

theorem isFinite_sub (spec : Format) {u : UnpackedFloat} (v : UnpackedFloat)
    (h : UnpackedFloat.isFinite u = false) :
    UnpackedFloat.isFinite (UnpackedFloat.sub spec u v) = false := by
  cases u with
  | notANumber => rfl
  | infinity s => cases v with
    | infinity t => cases s <;> cases t <;> rfl
    | notANumber | zero | finite => rfl
  | zero | finite => cases h

theorem sub_self_of_isFinite (spec : Format) {u : UnpackedFloat}
    (h : UnpackedFloat.isFinite u = true) : UnpackedFloat.sub spec u u = .zero .positive := by
  cases u with
  | notANumber | infinity => cases h
  | zero s => cases s <;> rfl
  | finite s m e hm =>
      simp only [UnpackedFloat.sub, Int.sub_self]
      rfl

theorem sub_self_of_not_isFinite (spec : Format) {u : UnpackedFloat}
    (h : UnpackedFloat.isFinite u = false) : UnpackedFloat.sub spec u u = .notANumber := by
  cases u with
  | notANumber => rfl
  | infinity s => cases s <;> rfl
  | zero | finite => cases h

/-! ## Ranks -/

namespace Binary64

variable {x y : Binary64}

theorem rank_of_isNaN (h : x.isNaN = true) : x.rank = signBit := if_pos h

theorem isNaN_of_rank (h : x.rank = signBit) : x.isNaN = true := by
  have hlt := x.magnitude_lt
  unfold rank at h
  split at h
  · assumption
  · split at h <;> omega

theorem isNaN_of_unpacked (h : x.unpacked = .notANumber) : x.isNaN = true := by
  have hreads := x.reads
  rw [h] at hreads
  cases hreads with
  | notANumber hlt => exact decide_eq_true hlt

theorem isZero_of_unpacked {s : Sign} (h : x.unpacked = .zero s) : x.isZero = true := by
  have hreads := x.reads
  rw [h] at hreads
  cases hreads with
  | zero hzero => exact beq_iff_eq.mpr hzero

theorem infinityBits_le_rank (h : Huge x.unpacked) : infinityBits ≤ x.rank := by
  generalize hu : x.unpacked = u at h
  cases h with
  | notANumber =>
      rw [rank_of_isNaN (isNaN_of_unpacked hu)]
      decide
  | infinity =>
      have hreads := x.reads
      rw [hu] at hreads
      cases hreads with
      | infinity _ hrank => exact hrank.ge

theorem rank_nonneg (h : AtLeastZero x.unpacked) : 0 ≤ x.rank := by
  have hreads := x.reads
  generalize hu : x.unpacked = u at h hreads
  cases h with
  | notANumber =>
      rw [rank_of_isNaN (isNaN_of_unpacked hu)]
      exact Int.natCast_nonneg _
  | infinity => cases hreads with
    | infinity _ hrank =>
        rw [hrank]
        exact Int.natCast_nonneg _
  | zero => exact (x.isZero_iff_rank.mp (isZero_of_unpacked hu)).ge
  | finite => cases hreads with
    | finite _ hrank =>
        rw [hrank]
        exact Int.natCast_nonneg _

end Binary64

/-! ## Sums -/

section Sums

variable {P Q : UnpackedFloat → Prop} {l : List Binary64} {start : Binary64}

/-- What two summands that have a property pass on to their sum, a sum of such summands has. -/
theorem foldl_add_of_all
    (hadd : ∀ x y : Binary64, P x.unpacked → P y.unpacked → P (x + y).unpacked)
    (hstart : P start.unpacked) (hall : ∀ x ∈ l, P x.unpacked) :
    P (l.foldl (· + ·) start).unpacked :=
  List.foldlRecOn (motive := fun sum : Binary64 => P sum.unpacked) l _ hstart
    fun sum hsum x hx => hadd sum x hsum (hall x hx)

/-- What one summand passes on to a sum with others, all sums with it have. -/
theorem foldl_add_of_exists
    (hadd : ∀ x y : Binary64, Q x.unpacked → Q y.unpacked → Q (x + y).unpacked)
    (hleft : ∀ x y : Binary64, P x.unpacked → Q y.unpacked → P (x + y).unpacked)
    (hright : ∀ x y : Binary64, Q x.unpacked → P y.unpacked → P (x + y).unpacked)
    (hall : ∀ x ∈ l, Q x.unpacked) (hstart : Q start.unpacked)
    (h : P start.unpacked ∨ ∃ x ∈ l, P x.unpacked) : P (l.foldl (· + ·) start).unpacked := by
  -- The summand in question may already be part of the sum so far, which is the start of the rest.
  induction l generalizing start with
  | nil => simpa using h
  | cons x l ih =>
      obtain ⟨hx, hl⟩ := List.forall_mem_cons.mp hall
      refine ih hl (hadd _ _ hstart hx) ?_
      rw [List.exists_mem_cons_iff] at h
      rcases h with h | h | h
      · exact .inl (hleft _ _ h hx)
      · exact .inl (hright _ _ hstart h)
      · exact .inr h

end Sums

/-! ## Squares of differences -/

namespace Binary64

variable {x y : Binary64}

theorem atLeastZero_square (x : Binary64) : AtLeastZero (x * x).unpacked := by
  rw [unpacked_mul]
  exact (AtLeastZero.square _ _).settled

theorem huge_square_sub (y : Binary64) (h : x.isFinite = false) :
    Huge ((x - y) * (x - y)).unpacked := by
  have hsub := isFinite_sub .binary64 y.operand (x.isFinite_operand.trans h)
  rw [unpacked_mul, operand, unpacked_sub, settled_of_not_isFinite hsub,
    settled_of_not_isFinite hsub]
  exact (Huge.square _ hsub).settled

theorem square_sub_self_of_isFinite (h : x.isFinite = true) :
    ((x - x) * (x - x)).unpacked = .zero .positive := by
  have hsub := sub_self_of_isFinite .binary64 (x.isFinite_operand.trans h)
  rw [unpacked_mul, operand, unpacked_sub, hsub]
  rfl

theorem square_sub_self_of_not_isFinite (h : x.isFinite = false) :
    ((x - x) * (x - x)).unpacked = .notANumber := by
  have hsub := sub_self_of_not_isFinite .binary64 (x.isFinite_operand.trans h)
  rw [unpacked_mul, operand, unpacked_sub, hsub]
  rfl

theorem atLeastZero_add (x y : Binary64) (hx : AtLeastZero x.unpacked)
    (hy : AtLeastZero y.unpacked) : AtLeastZero (x + y).unpacked := by
  rw [unpacked_add]
  exact (hx.settled.add hy.settled).settled

theorem huge_add_left (x y : Binary64) (hx : Huge x.unpacked) (hy : AtLeastZero y.unpacked) :
    Huge (x + y).unpacked := by
  rw [unpacked_add]
  exact (hx.settled.add_left hy.settled).settled

theorem huge_add_right (x y : Binary64) (hx : AtLeastZero x.unpacked) (hy : Huge y.unpacked) :
    Huge (x + y).unpacked := by
  rw [unpacked_add]
  exact (Huge.add_right hx.settled hy.settled).settled

theorem zero_add_zero (x y : Binary64) (hx : ∃ s, x.unpacked = .zero s)
    (hy : ∃ s, y.unpacked = .zero s) : ∃ s, (x + y).unpacked = .zero s := by
  obtain ⟨s, hs⟩ := hx
  obtain ⟨t, ht⟩ := hy
  rw [unpacked_add, operand, operand, hs, ht]
  cases s <;> cases t <;> exact ⟨_, rfl⟩

theorem unpacked_add_left (x y : Binary64) (hx : x.unpacked = .notANumber) :
    (x + y).unpacked = .notANumber := by
  rw [unpacked_add, operand, hx, settled_notANumber, notANumber_add, settled_notANumber]

theorem unpacked_add_right (x y : Binary64) (hy : y.unpacked = .notANumber) :
    (x + y).unpacked = .notANumber := by
  have hy : y.operand = .notANumber := congrArg settled hy
  rw [unpacked_add, hy, add_notANumber, settled_notANumber]

end Binary64

/-! ## Distances -/

section Distances

variable {v w : Embedding}

theorem sumSquares_eq (v w : Embedding) : sumSquares v w =
    ((v.zip w).map fun p => (p.1 - p.2) * (p.1 - p.2)).foldl (· + ·) .negZero := by
  rw [List.map_zip_eq_zipWith]
  rfl

theorem sumSquares_self (v : Embedding) :
    sumSquares v v = (v.map fun x => (x - x) * (x - x)).foldl (· + ·) .negZero := by
  rw [sumSquares, List.zipWith_self]

theorem atLeastZero_squares (v w : Embedding) :
    ∀ d ∈ (v.zip w).map fun p => (p.1 - p.2) * (p.1 - p.2), AtLeastZero d.unpacked := by
  intro d hd
  obtain ⟨p, -, rfl⟩ := List.mem_map.mp hd
  exact (p.1 - p.2).atLeastZero_square

/-- **No distance ranks below zero.** -/
theorem rank_sumSquares (v w : Embedding) : 0 ≤ (sumSquares v w).rank := by
  rw [sumSquares_eq]
  exact Binary64.rank_nonneg
    (foldl_add_of_all Binary64.atLeastZero_add (.zero .negative) (atLeastZero_squares v w))

/-- From a vector that has an infinite element or a NaN, no distance ranks below infinity. -/
theorem infinityBits_le_rank_sumSquares (hlength : v.length = w.length)
    (h : ∃ x ∈ v, x.isFinite = false) : Binary64.infinityBits ≤ (sumSquares v w).rank := by
  obtain ⟨x, hx, hfinite⟩ := h
  obtain ⟨i, hi, rfl⟩ := List.mem_iff_getElem.mp hx
  have hpair : (v[i], w[i]) ∈ v.zip w :=
    List.mem_iff_getElem.mpr ⟨i, by simpa [hlength] using hi, List.getElem_zip⟩
  rw [sumSquares_eq]
  refine Binary64.infinityBits_le_rank (foldl_add_of_exists Binary64.atLeastZero_add
    Binary64.huge_add_left Binary64.huge_add_right (atLeastZero_squares v w) (.zero .negative) ?_)
  exact .inr ⟨_, List.mem_map_of_mem hpair, Binary64.huge_square_sub _ hfinite⟩

theorem isZero_sumSquares_of_not_isFinite (hlength : v.length = w.length)
    (h : ∃ x ∈ v, x.isFinite = false) : (sumSquares v w).isZero = false := by
  have hrank := infinityBits_le_rank_sumSquares hlength h
  rw [Bool.eq_false_iff, Ne, Binary64.isZero_iff_rank]
  unfold Binary64.infinityBits at hrank
  omega

theorem isZero_sumSquares_self (h : ∀ x ∈ v, x.isFinite = true) :
    (sumSquares v v).isZero = true := by
  have hsum : ∃ s, (sumSquares v v).unpacked = .zero s := by
    rw [sumSquares_self]
    refine foldl_add_of_all (P := fun u => ∃ s, u = .zero s) Binary64.zero_add_zero
      ⟨.negative, rfl⟩ fun d hd => ?_
    obtain ⟨x, hx, rfl⟩ := List.mem_map.mp hd
    exact ⟨_, Binary64.square_sub_self_of_isFinite (h x hx)⟩
  exact Binary64.isZero_of_unpacked hsum.choose_spec

/-- A vector with an infinite element or a NaN is at no distance from itself. -/
theorem isNaN_sumSquares_self (h : ∃ x ∈ v, x.isFinite = false) :
    (sumSquares v v).isNaN = true := by
  obtain ⟨x, hx, hfinite⟩ := h
  refine Binary64.isNaN_of_unpacked ?_
  rw [sumSquares_self]
  exact foldl_add_of_exists (P := (· = .notANumber)) (Q := fun _ => True) (fun _ _ _ _ => trivial)
    (fun x y hx _ => x.unpacked_add_left y hx) (fun x y _ hy => x.unpacked_add_right y hy)
    (fun _ _ => trivial) trivial
    (.inr ⟨_, List.mem_map_of_mem hx, Binary64.square_sub_self_of_not_isFinite hfinite⟩)

end Distances

end NearNotes
