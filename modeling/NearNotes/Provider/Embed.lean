import NearNotes.Provider.Work

/-!
# Whole calls

A call that nothing else runs beside, from its first poll to its answer: whenever it waits, time
passes until it can go on.

* `Provider.embed`: the vector of a text, or `none` for a call that never ends because it waits for
  a lock that it holds itself;
* `Provider.embedAll`: the vectors of several texts, one call after the other unless the source
  takes them together. The first failure ends it.
-/

namespace NearNotes

namespace Provider

/-- Polls a call until it is done, a limited number of times. -/
def await (p : Provider) (text : String) :
    (polls : Nat) → Progress → Session → Session × Option Answer
  | _, .done answer, s => (s, some answer)
  | 0, .pending _, s => (s, none)
  | polls + 1, .pending work, s =>
    match work.due? with
    | none => (s, none)
    | some due =>
      let (s, progress) := p.resume text work { s with now := max s.now due }
      p.await text polls progress s

def embed (p : Provider) (text : String) (s : Session) : Session × Option Answer :=
  let (s, progress) := p.start text s
  p.await text p.waits progress s

abbrev BatchAnswer := Except EmbedError (List Embedding)

/-- The vectors of several texts, one call after the other. -/
def embedEach (p : Provider) : List String → Session → Session × Option BatchAnswer
  | [], s => (s, some (.ok []))
  | text :: rest, s =>
    match p.embed text s with
    | (s, none) => (s, none)
    | (s, some (.error e)) => (s, some (.error e))
    | (s, some (.ok v)) =>
      let (s, answer) := p.embedEach rest s
      (s, answer.map (·.map (v :: ·)))

/-- The vectors of several texts. No text, no call. -/
def embedAll (p : Provider) (texts : List String) (s : Session) : Session × Option BatchAnswer :=
  match p, texts with
  | _, [] => (s, some (.ok []))
  | .source { replyAll := some replyAll, .. }, texts =>
    let s' := { s with log := s.log ++ [⟨.many texts, s.now, s.cache.textsInProgress⟩] }
    (s', some (replyAll s.log.length texts))
  | p, texts => p.embedEach texts s

end Provider

end NearNotes
