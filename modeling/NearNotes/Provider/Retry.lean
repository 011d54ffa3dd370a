import NearNotes.Error
import NearNotes.Provider.Duration

/-!
# Retrying

How long a call may take, how often it is tried again and how long to wait in between.

* `RetryPlan`: the settings;
* `RetryPlan.pause`: the wait after a failed attempt: it doubles from one attempt to the next,
  is at least as long as a rate limit asks for and never longer than the cap.
-/

namespace NearNotes

structure RetryPlan where
  /-- The longest that one attempt may take. -/
  timeout : Duration := .ofSecs 30
  /-- Attempts after the first one. -/
  maxRetries : Nat := 3
  /-- The wait before the second attempt. -/
  firstPause : Duration := .ofMillis 500
  /-- The longest wait. -/
  longestPause : Duration := .ofSecs 30
deriving DecidableEq, Repr

namespace RetryPlan

/-- Two to a power, held at the largest 32-bit number. -/
def doublings (retry : Nat) : Nat := if retry < 32 then Nat.pow 2 retry else 0xFFFFFFFF

/-- The wait that an error asks for by itself. -/
def requestedWait : EmbedError → Duration
  | .rateLimited secs => .ofSecs secs
  | _ => .zero

/-- The wait after attempt number `retry`, counted from zero, failed with an error. -/
def pause (plan : RetryPlan) (retry : Nat) (error : EmbedError) : Duration :=
  let exponential := plan.firstPause.times (doublings retry)
  (exponential.longer (requestedWait error)).shorter plan.longestPause

def timeoutError (plan : RetryPlan) : EmbedError :=
  .timeout (min plan.timeout.millis 0xFFFFFFFFFFFFFFFF)

end RetryPlan

end NearNotes
