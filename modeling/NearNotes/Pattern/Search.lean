import NearNotes.Pattern.Program

/-!
# Searching

Running a program over a text: all ways to match are followed side by side, in order of
preference, and the leftmost match wins, the most preferred one at its place.

* `Program.explore`: what a thread reaches without reading a character;
* `Program.scan`: the first match at or after a place;
* `Program.findAll`: all matches from left to right, which do not overlap; an empty match directly
  after another match is passed over.
-/

namespace NearNotes.Pattern

/-- The places noted on the way: start and end of the match, start and end of the first group. -/
abbrev Slots := List (Option Nat)

def Slots.empty : Slots := [none, none, none, none]

/-- A way to match: the node it stands at and the places it has noted. -/
structure Thread where
  node : Nat
  slots : Slots

/-- The ways to match at one place: nodes already reached, and the threads that wait there for a
character or accept, the least preferred first. -/
structure Active where
  seen : List Nat := []
  threads : List Thread := []

namespace Program

/-- Adds what the threads on a stack reach without reading a character. A node reached before is
not entered again, since the earlier way to it is preferred. Every node is entered once and leads
to at most two more, so twice the number of nodes and one more step suffice. -/
def explore (nodes : Nodes) (place : Place) : (steps : Nat) → List Thread → Active → Active
  | 0, _, active => active
  | _, [], active => active
  | steps + 1, thread :: stack, active =>
    if active.seen.contains thread.node then explore nodes place steps stack active
    else
      let active := { active with seen := thread.node :: active.seen }
      match nodes[thread.node]? with
      | some (.check condition next) =>
        if condition.holds place then
          explore nodes place steps (⟨next, thread.slots⟩ :: stack) active
        else explore nodes place steps stack active
      | some (.mark slot next) =>
        explore nodes place steps (⟨next, thread.slots.set slot (some place.offset)⟩ :: stack)
          active
      | some (.branch first second) =>
        explore nodes place steps (⟨first, thread.slots⟩ :: ⟨second, thread.slots⟩ :: stack) active
      | some (.read ..) | some .accept =>
        explore nodes place steps stack { active with threads := thread :: active.threads }
      | some .stuck | none => explore nodes place steps stack active

/-- Adds what one thread reaches without reading a character. -/
def enter (program : Program) (place : Place) (thread : Thread) (active : Active) : Active :=
  explore program.nodes place (2 * program.nodes.size + 1) [thread] active

/-- Lets every thread, the most preferred first, read a character and arrive at the next place. A
thread that accepts gives a match and ends all less preferred ones. -/
def advance (program : Program) (c : Char) (next : Place) :
    List Thread → Active → Active × Option Slots
  | [], arrived => (arrived, none)
  | thread :: rest, arrived =>
    match program.nodes[thread.node]? with
    | some .accept => (arrived, some thread.slots)
    | some (.read chars target) =>
      if chars.has c then
        advance program c next rest (program.enter next ⟨target, thread.slots⟩ arrived)
      else advance program c next rest arrived
    | _ => advance program c next rest arrived

def accepted (program : Program) (threads : List Thread) : Option Slots :=
  (threads.find? fun thread =>
    match program.nodes[thread.node]? with
    | some .accept => true
    | _ => false).map Thread.slots

/-- The slots of the first match at or after a place, given the threads that are on their way and
the best match so far. Until there is a match a new thread starts at every place. -/
def scan (program : Program) (before : Option Char) (offset : Nat) :
    List Char → Active → Option Slots → Option Slots
  | after, active, best =>
    let place : Place := ⟨before, after, offset⟩
    let active :=
      if best.isNone then program.enter place ⟨program.start, .empty⟩ active else active
    match after with
    | [] => (program.accepted active.threads.reverse).or best
    | c :: rest =>
      let offset := offset + c.utf8Size
      let (arrived, hit) :=
        program.advance c ⟨some c, rest, offset⟩ active.threads.reverse {}
      let best := hit.or best
      if arrived.threads.isEmpty && best.isSome then best
      else program.scan (some c) offset rest arrived best

/-- A match: its start and end, and those of the first group if that took part. -/
structure Match where
  start : Nat
  stop : Nat
  group : Option (Nat × Nat)
deriving DecidableEq, Repr

def Match.ofSlots : Slots → Option Match
  | [some start, some stop, some first, some last] => some ⟨start, stop, some (first, last)⟩
  | some start :: some stop :: _ => some ⟨start, stop, none⟩
  | _ => none

def find (program : Program) (place : Place) : Option Match :=
  (program.scan place.before place.offset place.after {} none).bind Match.ofSlots

/-- The first place at or after a byte offset. -/
def seek (offset : Nat) : (before : Option Char) → (here : Nat) → List Char → Place
  | before, here, [] => ⟨before, [], here⟩
  | before, here, c :: rest =>
    if offset ≤ here then ⟨before, c :: rest, here⟩
    else seek offset (some c) (here + c.utf8Size) rest

/-- The matches from a place on, where `last` is the end of the match before, if any. -/
def findFrom (program : Program) : (most : Nat) → Place → (last : Option Nat) → List Match
  | 0, _, _ => []
  | most + 1, place, last =>
    let found : Option Match :=
      match program.find place with
      | none => none
      | some m =>
        if m.stop ≤ m.start && some m.stop == last then
          place.next?.bind program.find
        else some m
    match found with
    | none => []
    | some m =>
      m :: findFrom program most (seek m.stop place.before place.offset place.after) (some m.stop)

/-- All matches in a text, from left to right. There is at most one for every place. -/
def findAll (program : Program) (text : List Char) : List Match :=
  program.findFrom (text.length + 1) (.start text) none

end Program

end NearNotes.Pattern
