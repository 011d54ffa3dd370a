import NearNotes.Note.Section
import NearNotes.Population.Job
import NearNotes.Vector.Corpus

/-!
# The pipeline

From a note to its nearest sections: the note is split, the vectors of its sections are fetched
through the cache, and then either the whole cache is searched or the note's own sections are
ranked.

* `QuerySettings`, `Pipeline`: how many neighbours, which of them count as the section itself, how
  many sections at once; `Blueprint.build` refuses what cannot work;
* `Pipeline.run`: for every cached text the nearest other cached text;
* `Pipeline.ranking`: the note's sections by their distance to one of them;
* `Pipeline.runAll`: several runs beside each other.
-/

namespace NearNotes

structure QuerySettings where
  neighbors : Nat := 10
  selfMatch : SelfMatch := .sameId
deriving DecidableEq, Repr

structure Pipeline where
  provider : Provider
  splitter : Splitter
  query : QuerySettings := {}
  /-- Sections fetched at once. -/
  concurrency : Nat := 1
  neighbors_pos : 1 ≤ query.neighbors := by decide
  concurrency_pos : 1 ≤ concurrency := by decide

structure Blueprint where
  hasCache : Bool := false
  provider : Option Provider := none
  splitter : Option Splitter := none
  query : QuerySettings := {}
  concurrency : Nat := 1

/-- The pipeline of a blueprint. Top-level headings are the default boundaries. -/
def Blueprint.build (b : Blueprint) : Except RunError Pipeline :=
  match b.hasCache, b.provider with
  | false, _ => .error (.config "pipeline needs an embedding cache")
  | true, none => .error (.config "pipeline needs an embedding provider")
  | true, some provider =>
    if h : 1 ≤ b.query.neighbors ∧ 1 ≤ b.concurrency then
      match b.splitter.elim (Splitter.ofPattern Splitter.headingPattern) .ok with
      | .error e => .error e
      | .ok splitter => .ok {
          provider, splitter
          query := b.query
          concurrency := b.concurrency
          neighbors_pos := h.1
          concurrency_pos := h.2 }
    else .error (.config "neighbors and concurrency must be at least 1")

/-- A cached text and its nearest other cached text. -/
structure SimilarRow where
  text : String
  neighborText : String
  nearest : Nearest
deriving DecidableEq, Repr

structure Report where
  sections : List Section
  /-- Vectors computed in this run. -/
  providerCalls : Nat
  /-- Cached texts that were searched. -/
  corpusSize : Nat
  rows : List SimilarRow
deriving DecidableEq, Repr

structure RankedSection where
  distance : Binary64
  part : Section
deriving DecidableEq, Repr

namespace Pipeline

/-- The rows of a report: what was found, with the texts. -/
def similarRows (entries : List Entry) (found : List Nearest) : List SimilarRow :=
  found.filterMap fun n => do
    let query ← entries[n.query]?
    let neighbor ← entries[n.neighbor]?
    return ⟨query.text, neighbor.text, n⟩

def report (p : Pipeline) (sections : List Section) (computed : Nat) (cache : Cache) :
    Except EmbedError Report := do
  let entries ← cache.contents
  let corpus ← Corpus.ofList (entries.map Entry.embedding)
  let found ← corpus.neighbors p.query.neighbors p.query.selfMatch
  return ⟨sections, computed, entries.length, similarRows entries found⟩

/-- The other sections, the nearest to the chosen one first. -/
def rank (sections : List Section) (vectors : List Embedding) (chosen k : Nat) :
    Except EmbedError (List RankedSection) := do
  let corpus ← Corpus.ofList vectors
  let ranked ← corpus.nearest (vectors.getD chosen []) corpus.size
  let others := (ranked.filter (·.id != chosen)).take k
  return others.filterMap fun hit => (sections[hit.id]?).map (⟨hit.distance, ·⟩)

/-- The last section that contains a byte. -/
def sectionAt? (sections : List Section) (offset : Nat) : Option Nat :=
  (sections.zipIdx.reverse.find? fun (part, _) => part.contains offset).map Prod.snd

def window (p : Pipeline) (sections : List Section) : Window where
  provider := p.provider
  width := p.concurrency
  texts := sections.map Section.text

def runJob (p : Pipeline) (document : String) : Job Report :=
  let sections := p.splitter.sections document
  { window := p.window sections
    conclude := fun _ computed cache =>
      (p.report sections computed cache).mapError .embedding }

def runAll (p : Pipeline) (documents : List String) (s : Session) :
    Session × List (Option (Except RunError Report)) :=
  Job.finish (documents.map p.runJob) s

def run (p : Pipeline) (document : String) (s : Session) :
    Session × Option (Except RunError Report) :=
  let (s, results) := p.runAll [document] s
  (s, results.head?.join)

/-- The ranking of a note's sections by their distance to the one that contains a byte. A byte
that no section contains is an error, and nothing is fetched for it. -/
def ranking (p : Pipeline) (document : String) (offset k : Nat) (s : Session) :
    Session × Option (Except RunError (List RankedSection)) :=
  let sections := p.splitter.sections document
  match sectionAt? sections offset with
  | none => (s, some (.error (.noSection offset)))
  | some chosen =>
    let job : Job (List RankedSection) := {
      window := p.window sections
      conclude := fun vectors _ _ => (rank sections vectors chosen k).mapError .embedding }
    let (s, results) := Job.finish [job] s
    (s, results.head?.join)

end Pipeline

end NearNotes
