import Mathlib
import NearNotes.Provider.Retry

/-!
# Pauses in exact numbers

A pause is computed with numbers that stop at a largest one: powers of two in 32 bits, and spans as
whole seconds in 64 bits with a fraction of a second. The longest pause is a span too, so that spans
stop never shows: but for the power of two, the pause is what exact numbers make it.

* `Duration.fraction` : what a span is longer than its whole seconds; `Duration.Overflows` : the
  seconds of a product do not fit; `Duration.parts_times` : a product in seconds and a fraction;
* `RetryPlan.doublings_eq` : a power of two or the largest 32-bit number, whichever is less;
* `RetryPlan.askedNanos` : the wait that an error asks for, however long;
* `RetryPlan.nanos_pause` : a pause in exact numbers; `pause_of_overflows`, `pause_le`, `pause_mono`,
  `pause_mono_secs` and `pause_succ` follow from it;
* `RetryPlan.pause_is_exact` : all of this of one plan.
-/

namespace NearNotes

/-! ## Seconds and fractions -/

namespace Duration

/-- Nanoseconds past the last whole second. -/
def fraction (d : Duration) : Nat := d.nanos % 1000000000

/-- The whole seconds of a product do not fit into 64 bits, with those that the fraction carries. -/
def Overflows (d : Duration) (n : Nat) : Prop :=
  0xFFFFFFFFFFFFFFFF < d.secs * n + d.fraction * n / 1000000000

instance (d : Duration) (n : Nat) : Decidable (d.Overflows n) :=
  inferInstanceAs (Decidable (_ < _))

/-- A product in exact numbers: its seconds with those that are carried, and what the carry leaves. -/
theorem nanos_mul (d : Duration) (n : Nat) :
    d.nanos * n = (d.secs * n + d.fraction * n / 1000000000) * 1000000000 +
      d.fraction * n % 1000000000 := by
  have hparts : d.nanos = d.secs * 1000000000 + d.fraction := (Nat.div_add_mod' ..).symm
  have hcarry : d.fraction * n / 1000000000 * 1000000000 + d.fraction * n % 1000000000 =
      d.fraction * n := Nat.div_add_mod' ..
  calc d.nanos * n
      = d.secs * n * 1000000000 + d.fraction * n := by rw [hparts]; ring
    _ = _ := by rw [Nat.add_mul, Nat.add_assoc, hcarry]

theorem overflows_iff {d : Duration} {n : Nat} : d.Overflows n ↔ maxNanos < d.nanos * n := by
  have hrest : d.fraction * n % 1000000000 < 1000000000 := Nat.mod_lt _ (by decide)
  rw [nanos_mul, Overflows, maxNanos]
  omega

/-- **A product in parts.** Seconds and fraction are multiplied apart, and the whole seconds in the
product of the fraction are carried. Where the seconds do not fit, the product is the largest span. -/
theorem parts_times (d : Duration) (n : Nat) :
    if d.Overflows n then (d.times n).nanos = maxNanos
    else (d.times n).secs = d.secs * n + d.fraction * n / 1000000000 ∧
      (d.times n).fraction = d.fraction * n % 1000000000 := by
  have hnanos : (d.times n).nanos = min (d.nanos * n) maxNanos := rfl
  split
  · next hover => exact hnanos.trans (Nat.min_eq_right (overflows_iff.mp hover).le)
  · next hfits =>
      have hexact := hnanos.trans (Nat.min_eq_left (Nat.not_lt.mp (mt overflows_iff.mpr hfits)))
      have hrest : d.fraction * n % 1000000000 < 1000000000 := Nat.mod_lt _ (by decide)
      rw [nanos_mul] at hexact
      constructor
      · show (d.times n).nanos / 1000000000 = _
        omega
      · show (d.times n).nanos % 1000000000 = _
        omega

end Duration

/-! ## Pauses -/

namespace RetryPlan

theorem doublings_eq (retry : Nat) : doublings retry = min (2 ^ retry) (2 ^ 32 - 1) := by
  unfold doublings
  split
  · next hsmall =>
      have hpow : 2 ^ retry ≤ 2 ^ 31 := Nat.pow_le_pow_right (by decide) (by omega)
      have hle : 2 ^ retry ≤ 2 ^ 32 - 1 := by omega
      exact (Nat.min_eq_left hle).symm
  · next hlarge =>
      have hpow : 2 ^ 32 ≤ 2 ^ retry := Nat.pow_le_pow_right (by decide) (by omega)
      have hle : 2 ^ 32 - 1 ≤ 2 ^ retry := by omega
      exact (Nat.min_eq_right hle).symm

theorem doublings_succ {retry : Nat} (h : retry + 1 < 32) :
    doublings (retry + 1) = 2 * doublings retry := by
  rw [doublings, doublings, if_pos h, if_pos (by omega)]
  exact pow_succ' 2 retry

theorem doublings_mono : Monotone doublings := by
  intro retry later h
  rw [doublings_eq, doublings_eq]
  exact min_le_min_right _ (Nat.pow_le_pow_right (by decide) h)

def askedNanos : EmbedError → Nat
  | .rateLimited secs => secs * 1000000000
  | _ => 0

theorem nanos_requestedWait (e : EmbedError) :
    (requestedWait e).nanos = min (askedNanos e) Duration.maxNanos := by
  cases e <;> rfl

variable (plan : RetryPlan)

/-- A pause in exact numbers: what is cut off above the largest span is above the longest pause. -/
theorem nanos_pause (retry : Nat) (e : EmbedError) :
    (plan.pause retry e).nanos =
      min plan.longestPause.nanos (max (plan.firstPause.nanos * doublings retry) (askedNanos e)) := by
  have hcap : plan.longestPause.nanos ≤ Duration.maxNanos := plan.longestPause.nanos_le_max
  have htimes : (plan.firstPause.times (doublings retry)).nanos =
      min (plan.firstPause.nanos * doublings retry) Duration.maxNanos := rfl
  -- The product and the wait are both cut at the largest span, and the cap is no longer than that.
  rw [pause, Duration.nanos_shorter, Duration.nanos_longer, htimes, nanos_requestedWait,
    ← min_max_distrib_right, min_assoc, Nat.min_eq_right hcap, Nat.min_comm]

theorem pause_le (retry : Nat) (e : EmbedError) :
    (plan.pause retry e).nanos ≤ plan.longestPause.nanos := by
  rw [nanos_pause]
  exact Nat.min_le_left _ _

/-- Where the doubled pause is too long for a span, the pause is the longest one. -/
theorem pause_of_overflows {retry : Nat} (h : plan.firstPause.Overflows (doublings retry))
    (e : EmbedError) : (plan.pause retry e).nanos = plan.longestPause.nanos := by
  have hcap : plan.longestPause.nanos ≤ Duration.maxNanos := plan.longestPause.nanos_le_max
  have hproduct := plan.firstPause.parts_times (doublings retry)
  rw [if_pos h] at hproduct
  rw [pause, Duration.nanos_shorter, Duration.nanos_longer, hproduct]
  omega

theorem pause_mono (e : EmbedError) : Monotone fun retry => (plan.pause retry e).nanos := by
  intro retry later h
  have hproduct := Nat.mul_le_mul_left plan.firstPause.nanos (doublings_mono h)
  simp only [nanos_pause]
  omega

theorem pause_mono_secs (retry : Nat) :
    Monotone fun secs => (plan.pause retry (.rateLimited secs)).nanos := by
  intro secs more h
  simp only [nanos_pause, askedNanos]
  omega

theorem pause_succ {retry : Nat} {e : EmbedError} (hnone : askedNanos e = 0) (h : retry + 1 < 32) :
    (plan.pause (retry + 1) e).nanos =
      min plan.longestPause.nanos (2 * (plan.pause retry e).nanos) := by
  rw [nanos_pause, nanos_pause, hnone, doublings_succ h, Nat.mul_left_comm]
  omega

/-- **A pause is what exact numbers make it.** It is the first pause times a power of two, which stops
at the largest 32-bit number, or what the error asks for if this is longer, and the longest pause at
most. No other bound shows: where the product is too long for a span, the pause is the longest one
anyway. For one error a pause is never shorter than the one before it, nor is it shorter when a rate
limit asks for more seconds. Where the error asks for nothing, each pause is twice the one before it,
up to the longest one, as long as the power of two is below its bound. -/
theorem pause_is_exact :
    (∀ retry e, (plan.pause retry e).nanos =
      min plan.longestPause.nanos
        (max (plan.firstPause.nanos * min (2 ^ retry) (2 ^ 32 - 1)) (askedNanos e))) ∧
    (∀ retry e, plan.firstPause.Overflows (doublings retry) →
      (plan.pause retry e).nanos = plan.longestPause.nanos) ∧
    (∀ retry e, (plan.pause retry e).nanos ≤ plan.longestPause.nanos) ∧
    (∀ e, Monotone fun retry => (plan.pause retry e).nanos) ∧
    (∀ retry, Monotone fun secs => (plan.pause retry (.rateLimited secs)).nanos) ∧
    ∀ retry e, askedNanos e = 0 → retry + 1 < 32 →
      (plan.pause (retry + 1) e).nanos =
        min plan.longestPause.nanos (2 * (plan.pause retry e).nanos) := by
  refine ⟨fun retry e => ?_, fun retry e h => plan.pause_of_overflows h e, plan.pause_le,
    plan.pause_mono, plan.pause_mono_secs, fun retry e => plan.pause_succ⟩
  rw [nanos_pause, doublings_eq]

/-- The largest span cannot be doubled. From a tenth of a second, pauses double until they are capped. -/
theorem pause_is_exact_at_limits :
    let slow : RetryPlan :=
      { firstPause := .clamp Duration.maxNanos, longestPause := .clamp Duration.maxNanos }
    let brisk : RetryPlan := { firstPause := .ofMillis 100, longestPause := .ofMillis 350 }
    slow.firstPause.Overflows (doublings 1) ∧
      (slow.pause 1 (.rateLimited 0xFFFFFFFFFFFFFFFF)).nanos = Duration.maxNanos ∧
      askedNanos (.timeout 1) = 0 ∧
      (brisk.pause 1 (.timeout 1)).nanos = min 350000000 (2 * (brisk.pause 0 (.timeout 1)).nanos) ∧
      (brisk.pause 2 (.timeout 1)).nanos = min 350000000 (2 * (brisk.pause 1 (.timeout 1)).nanos) := by
  intro slow brisk
  obtain ⟨-, hoverflows, -⟩ := pause_is_exact slow
  obtain ⟨-, -, -, -, -, hdoubles⟩ := pause_is_exact brisk
  exact ⟨by decide, hoverflows 1 _ (by decide), rfl, hdoubles 0 _ rfl (by decide),
    hdoubles 1 _ rfl (by decide)⟩

end RetryPlan

end NearNotes
