import NearNotes.Cache.Basic

/-!
# Get or compute

A call for a text returns its row, or else computes a vector and stores it. Calls for one missing
text go one after the other: each takes the text's lock, looks again and only then computes.

A call is a sequence of uninterrupted steps, and other calls may come in between any two:

* `Cache.begin`: the first look; a miss takes a place in line for the text's lock;
* `Cache.takeUp`: once the lock is given, the second look; a miss lets the computation start;
* `Cache.computed`: what the computation gave; a vector of a refused length ends the call;
* `Cache.settle`: the vector is stored, and what the row then holds is the answer, unless this
  last look is refused;
* `Cache.abandon`: the call is dropped, wherever it stands.

Whenever a call ends it gives its lock to the next in line, and the last one for a text takes the
text off the list of keys. `Cache.Event` and `Cache.apply` put the steps of all calls, and what
else may happen to a cache, into one machine.
-/

namespace NearNotes

namespace Lock

/-- The lock after a call leaves: the holder hands it to the next in line, and a waiting call just
goes. -/
def leave (l : Lock) (id : CallId) : Lock :=
  if l.holder = some id then
    match l.waiters with
    | [] => { l with holder := none }
    | next :: rest => { l with holder := some next, waiters := rest }
  else { l with waiters := l.waiters.erase id }

/-- The lock after a call joins: it holds a free lock, and else waits at the end of the line. -/
def join (l : Lock) (id : CallId) : Lock :=
  match l.holder with
  | none => { l with holder := some id }
  | some _ => { l with waiters := l.waiters ++ [id] }

end Lock

namespace Cache

def call? (c : Cache) (id : CallId) : Option Call := c.calls.find? (·.id == id)

def lock? (c : Cache) (id : LockId) : Option Lock := c.locks.find? (·.id == id)

/-- The lock that the list of keys has for a text. -/
def key? (c : Cache) (text : String) : Option LockId := c.keys.lookup text

/-- The call has been given its lock and has not gone on. -/
def isGranted (c : Cache) (id : CallId) : Bool := c.granted.contains id

def setPhase (c : Cache) (id : CallId) (phase : Phase) : Cache :=
  { c with calls := c.calls.map fun call => if call.id == id then { call with phase } else call }

/-- The lock for a text, made if there is none. -/
def lockFor (c : Cache) (text : String) : Cache × LockId :=
  match c.key? text with
  | some id => (c, id)
  | none =>
    ({ c with
        keys := c.keys ++ [(text, c.nextLock)]
        locks := c.locks ++ [{ id := c.nextLock }]
        nextLock := c.nextLock + 1 }, c.nextLock)

def enqueue (c : Cache) (text : String) : Cache × CallId :=
  let (c, lock) := c.lockFor text
  let id := c.nextCall
  let free := (c.lock? lock).all (·.holder.isNone)
  ({ c with
      calls := c.calls ++ [{ id, text, lock }]
      locks := c.locks.map fun l => if l.id == lock then l.join id else l
      granted := if free then c.granted ++ [id] else c.granted
      nextCall := id + 1 }, id)

/-- Ends a call: its lock goes to the next in line, and if no call has a hold on the lock that the
list of keys has for the text, the text is taken off that list. -/
def finish (c : Cache) (id : CallId) : Cache :=
  match c.call? id with
  | none => c
  | some call =>
    let calls := c.calls.filter (·.id != id)
    let held (lock : LockId) : Bool := calls.any (·.lock == lock)
    let next? : Option CallId :=
      match c.lock? call.lock with
      | some l => if l.holder = some id then l.waiters.head? else none
      | none => none
    { c with
      calls
      locks := (c.locks.map fun l => if l.id == call.lock then l.leave id else l).filter
        fun l => held l.id
      granted := c.granted.erase id ++ next?.toList
      keys := c.keys.filter fun (text, lock) => text != call.text || held lock }

/-- What a step of a call comes to: an answer, or the call goes on. -/
abbrev Answer := Except EmbedError Embedding

/-- The first look: a row is the answer, and so is a failure to read it. A miss is a new call. -/
def begin (c : Cache) (text : String) : Cache × (Answer ⊕ CallId) :=
  match c.read text with
  | .error e => (c, .inl (.error e))
  | .ok (some v) => ({ c with hits := c.hits + 1 }, .inl (.ok v))
  | .ok none =>
    let (c, id) := c.enqueue text
    (c, .inr id)

/-- The second look, by a call that holds its lock. A miss is the start of its computation. -/
def takeUp (c : Cache) (id : CallId) : Cache × Option Answer :=
  match c.call? id with
  | none => (c, none)
  | some call =>
    let c := { c with granted := c.granted.erase id }
    match c.read call.text with
    | .error e => (c.finish id, some (.error e))
    | .ok (some v) => ({ c with hits := c.hits + 1 }.finish id, some (.ok v))
    | .ok none => ({ c with misses := c.misses + 1 }.setPhase id .computing, none)

/-- What the computation gave: an error and a vector of a refused length are answers. -/
def computed (c : Cache) (id : CallId) (outcome : Answer) : Cache × Option Answer :=
  match outcome with
  | .error e => (c.finish id, some (.error e))
  | .ok v =>
    match c.requireLength v with
    | .error e => (c.finish id, some (.error e))
    | .ok () => (c.setPhase id (.storing v), none)

/-- The look after an insert. It is a statement of its own, so that it can be refused although the
insert took effect: another program may have locked the database in between. -/
def readBack (c : Cache) (text : String) : Option String → Answer
  | some refusal => .error (.storage refusal)
  | none =>
    match c.read text with
    | .error e => .error e
    | .ok (some stored) => .ok stored
    | .ok none => .error (.corruptData "row vanished after insert")

/-- The row of a text after a vector was offered for it: whoever came first has it. -/
def offer (c : Cache) (text : String) (v : Embedding) (refusal : Option String := none) :
    Cache × Answer :=
  match c.database.insertNew (.text text) (.blob (Blob.encode v)) with
  | .error e => (c, .error e)
  | .ok (db, _) =>
    let c := { c with database := db }
    (c, c.readBack text refusal)

def settle (c : Cache) (id : CallId) (refusal : Option String := none) :
    Cache × Option Answer :=
  match c.call? id with
  | some { text, phase := .storing v, .. } =>
    let (c, answer) := c.offer text v refusal
    (c.finish id, some answer)
  | _ => (c, none)

def abandon (c : Cache) (id : CallId) : Cache := c.finish id

/-! ## All steps in one machine -/

/-- What may happen to a cache in use. -/
inductive Event
  | begin (text : String)
  | takeUp (id : CallId)
  | computed (id : CallId) (outcome : Answer)
  | settle (id : CallId) (refusal : Option String := none)
  | abandon (id : CallId)
  | write (text : String) (v : Embedding)
  /-- Another writer adds a row. -/
  | rival (text : String) (cell : Cell)
deriving Repr

/-- An event can happen: the lock must have been given for the second look, and a computation
must be running to end. -/
def enabled (c : Cache) : Event → Bool
  | .takeUp id => c.isGranted id
  | .computed id _ => (c.call? id).any (·.phase == .computing)
  | .settle id _ => (c.call? id).any fun call => call.phase != .queued && call.phase != .computing
  | .abandon id => (c.call? id).isSome
  | .begin _ | .write .. | .rival .. => true

/-- The cache after an event. One that cannot happen changes nothing. -/
def apply (c : Cache) (event : Event) : Cache :=
  if c.enabled event then
    match event with
    | .begin text => (c.begin text).1
    | .takeUp id => (c.takeUp id).1
    | .computed id outcome => (c.computed id outcome).1
    | .settle id refusal => (c.settle id refusal).1
    | .abandon id => c.abandon id
    | .write text v => (c.write text v).1
    | .rival text cell =>
      match c.database.insert (.text text) cell with
      | .ok db => { c with database := db }
      | .error _ => c
  else c

def run (c : Cache) (events : List Event) : Cache := events.foldl apply c

end Cache

end NearNotes
