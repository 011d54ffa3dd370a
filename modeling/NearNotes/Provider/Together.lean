import NearNotes.Provider.Task

/-!
# Calls made together

Several calls on providers that run beside each other, each from a moment of its own and with a
moment at which it is given up.

* `Request`: a call to be made; `Errand`: a call as far as it has come;
* `Errand.poll`: one call goes on as far as it can;
* `together`: all calls to their ends.

Where a call ends and is given up at one moment, its answer counts.
-/

namespace NearNotes

structure Request where
  provider : Provider
  text : String
  /-- How long it waits before it starts. -/
  startAfter : Duration := .zero
  /-- How long after its start it is given up. -/
  cancelAfter : Option Duration := none

inductive Ending
  | answered (answer : Answer)
  | cancelled
deriving Repr

inductive Errand.State
  | waiting (start : Moment)
  | running (deadline : Option Moment) (work : Work)
  | ended (moment : Moment) (ending : Ending)

structure Errand where
  request : Request
  state : Errand.State

namespace Errand

/-- What becomes of a call whose poll came to some progress. -/
def judge (deadline : Option Moment) (s : Session) : Progress → Session × State
  | .done answer => (s, .ended s.now (.answered answer))
  | .pending work =>
    if deadline.any (· ≤ s.now) then (work.cancel s, .ended s.now .cancelled)
    else (s, .running deadline work)

def poll (e : Errand) (s : Session) : Session × Errand :=
  let { provider, text, cancelAfter, .. } := e.request
  match e.state with
  | .waiting start =>
    if start ≤ s.now then
      let deadline := cancelAfter.map (s.now + ·.nanos)
      let (s, progress) := provider.start text s
      let (s, state) := judge deadline s progress
      (s, { e with state })
    else (s, e)
  | .running deadline work =>
    let (s, progress) := provider.resume text work s
    let (s, state) := judge deadline s progress
    (s, { e with state })
  | .ended .. => (s, e)

/-- The next moment at which the call can go on by itself. -/
def due? (e : Errand) : Option Moment :=
  match e.state with
  | .waiting start => some start
  | .running deadline work => earlier? deadline work.due?
  | .ended .. => none

def isReady (e : Errand) (s : Session) : Bool :=
  match e.state with
  | .waiting start => start ≤ s.now
  | .running deadline work => deadline.any (· ≤ s.now) || work.isReady s
  | .ended .. => false

/-- A bound on the number of polls that bring the call further. -/
def polls (e : Errand) : Nat := e.request.provider.waits + 3

end Errand

instance : Task Errand := ⟨Errand.poll, Errand.isReady, Errand.due?⟩

/-- Makes calls together. Each ends, unless it waits for a lock that it holds itself. -/
def together (requests : List Request) (s : Session) : Session × List Errand :=
  let errands := requests.map fun r =>
    { request := r, state := .waiting (s.now + r.startAfter.nanos) }
  Task.passes (2 * (errands.map Errand.polls).foldr (· + ·) 0 + 1) errands s

end NearNotes
