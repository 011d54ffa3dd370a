import NearNotes.Vector.Distance

/-!
# The corpus

A fixed batch of vectors of one length, searched by comparing a query with each of them.

* `Corpus`: the vectors; `Corpus.ofList` refuses a batch of mixed lengths;
* `nearest`, `nearestEach`: nearest vectors to given queries;
* `neighbors`: for every stored vector its nearest other one, where `SelfMatch` says which
  hits count as the vector itself.
-/

namespace NearNotes

inductive SelfMatch
  | sameId
  | zeroDistance
deriving DecidableEq, Repr

def SelfMatch.isSelf (policy : SelfMatch) (query : Nat) (hit : Scored) : Bool :=
  match policy with
  | .sameId => hit.id == query
  | .zeroDistance => hit.distance.isZero

/-- Vectors of one length. -/
structure Corpus where
  vectors : List Embedding
  dimension : Nat
  uniform : ∀ v ∈ vectors, v.length = dimension

structure Nearest where
  query : Nat
  neighbor : Nat
  distance : Binary64
deriving DecidableEq, Repr

namespace Corpus

/-- The length that a batch must have: that of its first vector. -/
def dimensionOf (vectors : List Embedding) : Nat := (vectors.head?.map List.length).getD 0

/-- The corpus of a batch. The first vector of another length than the batch's first one is an
error. -/
def ofList (vectors : List Embedding) : Except EmbedError Corpus :=
  let dimension := dimensionOf vectors
  match h : vectors.find? (fun v => v.length != dimension) with
  | some bad => .error (.dimensionMismatch dimension bad.length)
  | none => .ok {
      vectors, dimension
      uniform := fun v hv => by
        have := List.find?_eq_none.mp h v hv
        simpa using this }

def size (corpus : Corpus) : Nat := corpus.vectors.length

def isEmpty (corpus : Corpus) : Bool := corpus.vectors.isEmpty

def get? (corpus : Corpus) (id : Nat) : Option Embedding := corpus.vectors[id]?

/-- The `k` stored vectors nearest to a query; an empty corpus has none, whatever the query. -/
def nearest (corpus : Corpus) (query : Embedding) (k : Nat) :
    Except EmbedError (List Scored) :=
  if corpus.isEmpty then .ok []
  else if query.length ≠ corpus.dimension then
    .error (.dimensionMismatch corpus.dimension query.length)
  else topK query corpus.vectors k

/-- The nearest vectors of every query; the first failing query fails them all. -/
def nearestEach (corpus : Corpus) (queries : List Embedding) (k : Nat) :
    Except EmbedError (List (List Scored)) :=
  queries.mapM (corpus.nearest · k)

/-- The first hit of each row that is not the row's own vector, with rows that have none left
out. -/
def pickOthers (policy : SelfMatch) (rows : List (List Scored)) : List Nearest :=
  rows.zipIdx.filterMap fun (hits, query) =>
    (hits.find? fun hit => !policy.isSelf query hit).map fun hit =>
      ⟨query, hit.id, hit.distance⟩

def neighbors (corpus : Corpus) (k : Nat) (policy : SelfMatch) :
    Except EmbedError (List Nearest) :=
  (corpus.nearestEach corpus.vectors k).map (pickOthers policy)

end Corpus

end NearNotes
