import NearNotes.Population.Window
import NearNotes.Provider.Task

/-!
# Jobs on a note

A job fetches the vectors of a note's sections through a window and then makes something of them.

* `Job`: a window, and what is made of the vectors once all of them are there;
* `Job.poll`: the job goes on as far as it can. What it makes, it makes of the cache as it is at
  the moment at which the last vector is handed over;
* `Job.finish`: jobs that run beside each other, to their ends.
-/

namespace NearNotes

structure Job (α : Type) where
  window : Window
  /-- What is made of the vectors and the number of those computed, given the cache. -/
  conclude : (vectors : List Embedding) → (computed : Nat) → Cache → Except RunError α
  result : Option (Except RunError α) := none

namespace Job

variable {α : Type}

def resultOf (job : Job α) (w : Window) (cache : Cache) : Option (Except RunError α) :=
  match w.failure with
  | some e => some (.error (.embedding e))
  | none => if w.isOver then some (job.conclude w.handedOver w.computed cache) else none

def poll (job : Job α) (s : Session) : Session × Job α :=
  match job.result with
  | some _ => (s, job)
  | none =>
    let (window, s) := job.window.advance job.window.steps s
    (s, { job with window, result := job.resultOf window s.cache })

/-- The job can go on now. An empty note's job has only to conclude. -/
def isReady (job : Job α) (s : Session) : Bool :=
  job.result.isNone && (job.window.isOver || job.window.isReady s)

/-- The next moment at which the job can go on by itself. -/
def due? (job : Job α) : Option Moment := if job.result.isSome then none else job.window.due?

instance : Task (Job α) := ⟨poll, isReady, due?⟩

/-- Jobs beside each other. A result is missing only where a job waits for what never comes. -/
def finish (jobs : List (Job α)) (s : Session) :
    Session × List (Option (Except RunError α)) :=
  let fuel := 2 * (jobs.map (·.window.steps + 1)).foldr (· + ·) 0 + 1
  let (s, jobs) := Task.passes fuel jobs s
  (s, jobs.map Job.result)

end Job

end NearNotes
