/-!
# Stages of a run

A run goes through its stages in order and never enters an earlier one again.

* `Stage`: the stages; `Stage.name` is how each is shown, `Stage.ofName?` reads it back
  (`ofName?_name`);
* `Stage.place`: the number of a stage in the order.
-/

namespace NearNotes

inductive Stage
  | idle | splitting | populating | loading | indexing | querying | reporting | done
deriving DecidableEq, Repr

namespace Stage

def name : Stage → String
  | idle => "idle"
  | splitting => "splitting"
  | populating => "populating"
  | loading => "loading"
  | indexing => "indexing"
  | querying => "querying"
  | reporting => "reporting"
  | done => "done"

def all : List Stage :=
  [idle, splitting, populating, loading, indexing, querying, reporting, done]

def ofName? (s : String) : Option Stage := all.find? (·.name == s)

theorem ofName?_name (stage : Stage) : ofName? stage.name = some stage := by
  cases stage <;> decide

def place (stage : Stage) : Nat := all.idxOf stage

instance : Ord Stage := ⟨fun a b => compare a.place b.place⟩

end Stage

end NearNotes
