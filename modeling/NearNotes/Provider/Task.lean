import NearNotes.Provider.Work

/-!
# Tasks side by side

Tasks that share a session. Each goes on when it is polled, and says whether it can go on now and
when it can go on by itself.

* `Task`: what a kind of task must tell;
* `Task.pass`: every task is polled once, in order;
* `Task.passes`: passes as long as some task can go on; after that time passes up to the next
  moment that some task waits for.
-/

namespace NearNotes

class Task (τ : Type) where
  /-- The task goes on as far as it can. -/
  poll : τ → Session → Session × τ
  /-- The task can go on now. -/
  isReady : τ → Session → Bool
  /-- The next moment at which the task can go on by itself. -/
  due? : τ → Option Moment

namespace Task

variable {τ : Type} [Task τ]

def pass : List τ → Session → Session × List τ
  | [], s => (s, [])
  | task :: rest, s =>
    let (s, task) := poll task s
    let (s, rest) := pass rest s
    (s, task :: rest)

/-- The next moment at which some task can go on by itself. -/
def nextDue? (tasks : List τ) : Option Moment :=
  tasks.foldl (fun due task => earlier? due (due? task)) none

def passes : (fuel : Nat) → List τ → Session → Session × List τ
  | 0, tasks, s => (s, tasks)
  | fuel + 1, tasks, s =>
    if tasks.any (isReady · s) then
      let (s, tasks) := pass tasks s
      passes fuel tasks s
    else
      match nextDue? tasks with
      | some due => passes fuel tasks { s with now := max s.now due }
      | none => (s, tasks)

end Task

end NearNotes
