/-!
# Durations

Spans of time in nanoseconds, up to the largest that a count of seconds in 64 bits and a fraction
can hold.

* `Duration`: a span within that bound; `Duration.clamp` cuts a longer one down to it;
* `ofSecs`, `ofMillis`: spans from counts; `times`: a span a number of times over;
* `secs`, `remainingMillis`, `millis`: counts from spans.
-/

namespace NearNotes

structure Duration where
  nanos : Nat
  bounded : nanos ≤ 0xFFFFFFFFFFFFFFFF * 1000000000 + 999999999
deriving DecidableEq, Repr

namespace Duration

def maxNanos : Nat := 0xFFFFFFFFFFFFFFFF * 1000000000 + 999999999

def clamp (nanos : Nat) : Duration := ⟨min nanos maxNanos, Nat.min_le_right ..⟩

theorem nanos_le_max (d : Duration) : d.nanos ≤ maxNanos := d.bounded

def zero : Duration := clamp 0

def ofSecs (n : Nat) : Duration := clamp (n * 1000000000)

def ofMillis (n : Nat) : Duration := clamp (n * 1000000)

def times (d : Duration) (n : Nat) : Duration := clamp (d.nanos * n)

def longer (a b : Duration) : Duration := if a.nanos ≤ b.nanos then b else a

def shorter (a b : Duration) : Duration := if a.nanos ≤ b.nanos then a else b

@[simp] theorem nanos_longer (a b : Duration) : (a.longer b).nanos = max a.nanos b.nanos := by
  unfold longer
  split <;> omega

@[simp] theorem nanos_shorter (a b : Duration) : (a.shorter b).nanos = min a.nanos b.nanos := by
  unfold shorter
  split <;> omega

def secs (d : Duration) : Nat := d.nanos / 1000000000

def remainingMillis (d : Duration) : Nat := d.nanos % 1000000000 / 1000000

def millis (d : Duration) : Nat := d.nanos / 1000000

end Duration

end NearNotes
