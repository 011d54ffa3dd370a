import NearNotes.Error
import NearNotes.Vector.Binary64

/-!
# Distances

The squared Euclidean distance of two vectors and the ranking of candidates by it.

* `squaredL2`, `euclidean`: distances, refused for vectors of different lengths;
* `Scored`: a candidate with its distance; `Scored.before` is the ranking order: nearer first, by
  `Binary64.rank`, and of two at one distance the one with the smaller id;
* `topK`: the first `k` candidates in that order.
-/

namespace NearNotes

/-- The sum of the squared differences, from the left and starting at negative zero. -/
def sumSquares (a b : Embedding) : Binary64 :=
  (List.zipWith (fun x y => (x - y) * (x - y)) a b).foldl (· + ·) .negZero

def squaredL2 (a b : Embedding) : Except EmbedError Binary64 :=
  if a.length ≠ b.length then .error (.dimensionMismatch a.length b.length)
  else .ok (sumSquares a b)

def euclidean (a b : Embedding) : Except EmbedError Binary64 :=
  (squaredL2 a b).map Binary64.sqrt

structure Scored where
  id : Nat
  distance : Binary64
deriving DecidableEq, Inhabited, Repr

/-- Nearer candidates come first, and of two at one distance the one with the smaller id. -/
def Scored.before (x y : Scored) : Bool :=
  x.distance.rank < y.distance.rank || (x.distance.rank == y.distance.rank && x.id ≤ y.id)

/-- Every candidate with its distance, numbered from `first` on; the first candidate of another
length than the query is an error. -/
def scoreFrom (query : Embedding) : (first : Nat) → List Embedding → Except EmbedError (List Scored)
  | _, [] => .ok []
  | id, candidate :: rest => do
    let distance ← squaredL2 query candidate
    let scored ← scoreFrom query (id + 1) rest
    return ⟨id, distance⟩ :: scored

def topK (query : Embedding) (candidates : List Embedding) (k : Nat) :
    Except EmbedError (List Scored) :=
  (scoreFrom query 0 candidates).map fun scored => (scored.mergeSort Scored.before).take k

end NearNotes
