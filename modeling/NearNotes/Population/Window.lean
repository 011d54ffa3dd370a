import NearNotes.Provider.Work

/-!
# The window over a note's sections

The texts of a note are fetched through the cache, a limited number at a time and in order.

A position of the list *joins* the window, is polled until it is *finished* and is then *handed
over*. Positions join in order and are handed over in order, so a finished one waits for those
before it, and at most `width` of them are in the window at once. The first failure that is handed
over ends it all: nothing joins any more and unfinished work is dropped.

* `Window`: the positions in the window and what came of those before it;
* `Window.wake`: positions that can go on get in line, in the order in which that came about;
* `Window.fill`: positions join while there is room;
* `Window.step?`: one position is handed over or polled; `none` if there is nothing to do now;
* `Window.advance`: steps until there is nothing to do now.
-/

namespace NearNotes

/-- A position in the window: not polled yet, or with unfinished work. -/
structure Active where
  position : Nat
  work : Option Work := none

structure Window where
  /-- Where vectors come from on a miss. -/
  provider : Provider
  /-- How many positions may be in the window. -/
  width : Nat
  texts : List String
  /-- How many positions have joined. -/
  joined : Nat := 0
  /-- Unfinished positions, in the order of joining. -/
  active : List Active := []
  /-- Finished positions that wait for those before them. -/
  finished : List (Nat × Answer) := []
  /-- Positions that can go on, in the order in which they are polled. -/
  ready : List Nat := []
  /-- The vectors handed over so far, in order. -/
  handedOver : List Embedding := []
  /-- How many positions started to compute their vector. -/
  computed : Nat := 0
  /-- The failure that was handed over. -/
  failure : Option EmbedError := none

namespace Window

def next (w : Window) : Nat := w.handedOver.length

def occupied (w : Window) : Nat := w.active.length + w.finished.length

/-- Everything is handed over, or a failure is. -/
def isOver (w : Window) : Bool := w.failure.isSome || w.next == w.texts.length

/-- The position's work can go on because its moment has come. -/
def Active.isDue (a : Active) (now : Moment) : Bool := a.work.any (·.isDue now)

/-- The position that waits for its turn under a call's number. -/
def waiting? (w : Window) (id : CallId) : Option Nat :=
  (w.active.find? fun a => (a.work.bind Work.line?) == some id).map Active.position

/-- Positions get in line once each. -/
def enroll (ready : List Nat) (positions : List Nat) : List Nat :=
  positions.foldl (fun ready p => if ready.contains p then ready else ready ++ [p]) ready

/-- Positions that can go on get in line: first those whose moment has come, then those whose turn
at a lock it is, in the order in which the locks were given. -/
def wake (w : Window) (s : Session) : Window :=
  let due := (w.active.filter (Active.isDue · s.now)).map Active.position
  let granted := s.cache.granted.filterMap w.waiting?
  { w with ready := enroll (enroll w.ready due) granted }

def fill (w : Window) : Window :=
  let room := min (w.width - w.occupied) (w.texts.length - w.joined)
  let positions := List.range' w.joined room
  { w with
    joined := w.joined + room
    active := w.active ++ positions.map ({ position := · })
    ready := w.ready ++ positions }

/-- Drops all unfinished work, the latest to join first. -/
def cancelAll (w : Window) (s : Session) : Session :=
  w.active.foldr (fun a s => a.work.elim s (·.cancel s)) s

/-- The next position is handed over with its answer. -/
def handOver (w : Window) (s : Session) : Answer → Window × Session
  | .ok v => ({ w with handedOver := w.handedOver ++ [v] }, s)
  | .error e =>
    ({ w with active := [], finished := [], ready := [], failure := some e }, w.cancelAll s)

def poll (w : Window) (a : Active) (s : Session) : Window × Session :=
  let text := w.texts.getD a.position ""
  let ⟨s, progress, started⟩ := w.provider.fetch text a.work s
  let w := { w with computed := w.computed + started.toNat }
  match progress with
  | .pending work =>
    ({ w with
        active := w.active.map fun b =>
          if b.position == a.position then { b with work := some work } else b }, s)
  | .done answer =>
    ({ w with
        active := w.active.filter (·.position != a.position)
        finished := w.finished ++ [(a.position, answer)] }, s)

/-- One step: a finished position is handed over if it is the next one, and else the first in line
is polled. -/
def step? (w : Window) (s : Session) : Option (Window × Session) :=
  if w.isOver then none
  else
    let w := (w.wake s).fill
    match w.finished.find? (·.1 == w.next) with
    | some (position, answer) =>
      some ({ w with finished := w.finished.filter (·.1 != position) }.handOver s answer)
    | none =>
      match w.ready with
      | [] => none
      | position :: rest =>
        let w := { w with ready := rest }
        match w.active.find? (·.position == position) with
        | some a => some (w.poll a s)
        | none => some (w, s)

/-- Steps until there is nothing to do now. -/
def advance : (fuel : Nat) → Window → Session → Window × Session
  | 0, w, s => (w, s)
  | fuel + 1, w, s =>
    match w.step? s with
    | some (w, s) => advance fuel w s
    | none => (w, s)

def isReady (w : Window) (s : Session) : Bool :=
  !w.isOver && (w.joined < w.texts.length && w.occupied < w.width
    || w.finished.any (·.1 == w.next) || !(w.wake s).ready.isEmpty)

/-- The next moment at which some position can go on by itself. -/
def due? (w : Window) : Option Moment :=
  w.active.foldl (fun due a => earlier? due (a.work.bind Work.due?)) none

/-- A bound on the number of steps from the start to the end. -/
def steps (w : Window) : Nat := w.texts.length * (w.provider.waits + 4) + 1

end Window

end NearNotes
