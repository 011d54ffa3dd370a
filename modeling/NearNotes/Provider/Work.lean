import NearNotes.Cache.Flight
import NearNotes.Provider.Basic

/-!
# Work in progress

A call on a provider, as far as it has come. Work goes on when it is polled: as far as it can at
that moment, and no further.

* `Session`: the clock, the cache and the record of calls on the source;
* `Work`: what an unfinished call waits for; `Work.due?` is the moment at which it can go on by
  itself, `Work.isReady` says that it can go on now;
* `Provider.start`, `Provider.resume`: the first and every later poll; `Work.cancel`: the call is
  dropped;
* `Provider.fetch`: a poll of a call through the cache, which tells whether it started to compute.

Where a call and the time limit around it end at one moment, the call's own answer counts.
-/

namespace NearNotes

/-- A moment, in nanoseconds since the clock started. -/
abbrev Moment := Nat

inductive Input
  | one (text : String)
  | many (texts : List String)
deriving DecidableEq, Repr

/-- A call on a source: what for, when, and how many texts were in flight. -/
structure CallRecord where
  input : Input
  moment : Moment
  textsInProgress : Nat
deriving DecidableEq, Repr

/-- The clock, the cache and the calls on the source so far, the latest last. -/
structure Session where
  now : Moment := 0
  cache : Cache := {}
  log : List CallRecord := []
deriving DecidableEq, Repr

abbrev Answer := Except EmbedError Embedding

inductive Work
  /-- The source's answer, which comes at a moment. -/
  | answer (due : Moment) (outcome : Answer)
  /-- An attempt with a time limit. -/
  | attempt (limit : Moment) (retry : Nat) (work : Work)
  /-- The moment of the next attempt. -/
  | pause (due : Moment) (retry : Nat)
  /-- The lock of its text. -/
  | line (id : CallId)
  /-- A vector for the cache. -/
  | compute (id : CallId) (work : Work)

inductive Progress
  | done (answer : Answer)
  | pending (work : Work)

/-- The earlier of two moments, where there may be none. -/
def earlier? : Option Moment → Option Moment → Option Moment
  | some a, some b => some (min a b)
  | some a, none => some a
  | none, b => b

namespace Work

def due? : Work → Option Moment
  | answer due _ => some due
  | attempt limit _ work => earlier? (some limit) work.due?
  | pause due _ => some due
  | line _ => none
  | compute _ work => work.due?

/-- The call whose turn at its lock the work waits for. -/
def line? : Work → Option CallId
  | answer .. | pause .. => none
  | attempt _ _ work => work.line?
  | line id => some id
  | compute _ work => work.line?

def isDue (work : Work) (now : Moment) : Bool := work.due?.any (· ≤ now)

def isReady (work : Work) (s : Session) : Bool :=
  work.isDue s.now || work.line?.any s.cache.isGranted

/-- Drops the work: what is innermost goes first. -/
def cancel : Work → Session → Session
  | answer .., s | pause .., s => s
  | attempt _ _ work, s => work.cancel s
  | line id, s => { s with cache := s.cache.abandon id }
  | compute id work, s =>
    let s := work.cancel s
    { s with cache := s.cache.abandon id }

end Work

/-! ## Sources -/

/-- A call on a source starts: it is recorded, and another writer may come first. -/
def Source.start (source : Source) (text : String) (s : Session) : Session × Progress :=
  let reply := source.reply s.log.length text
  let s := { s with log := s.log ++ [⟨.one text, s.now, s.cache.textsInProgress⟩] }
  let s :=
    match reply.rival with
    | some cell => { s with cache := s.cache.apply (.rival text cell) }
    | none => s
  if reply.delay.nanos = 0 then (s, .done reply.outcome)
  else (s, .pending (.answer (s.now + reply.delay.nanos) reply.outcome))

/-! ## Attempts -/

/-- What follows an attempt: an answer, more waiting, or another attempt at a moment. -/
inductive Verdict
  | answer (a : Answer)
  | wait (work : Work)
  | again (due : Moment)

/-- The verdict on an attempt that came to some progress. Unfinished work past its limit is
dropped and counts as a timeout. -/
def RetryPlan.judge (plan : RetryPlan) (retry : Nat) (limit : Moment) (s : Session) :
    Progress → Session × Verdict
  | .pending work =>
    if limit ≤ s.now then (work.cancel s, afterFailure plan.timeoutError (work.cancel s))
    else (s, .wait work)
  | .done (.ok v) => (s, .answer (.ok v))
  | .done (.error e) => (s, afterFailure e s)
where
  /-- A failure is final unless another attempt may help and is left. -/
  afterFailure (e : EmbedError) (s : Session) : Verdict :=
    if e.isTransient && retry < plan.maxRetries then
      .again (s.now + (plan.pause retry e).nanos)
    else .answer (.error e)

/-- Attempts from number `retry` on, one after the other as long as there is nothing to wait for
in between. At most `left` of them follow. -/
def RetryPlan.attempts (plan : RetryPlan) (begin : Session → Session × Progress) :
    (left : Nat) → (retry : Nat) → Session → Session × Progress
  | left, retry, s =>
    let limit := s.now + plan.timeout.nanos
    let (s, progress) := begin s
    match plan.judge retry limit s progress with
    | (s, .answer a) => (s, .done a)
    | (s, .wait work) => (s, .pending (.attempt limit retry work))
    | (s, .again due) =>
      match left with
      | left + 1 =>
        if due ≤ s.now then plan.attempts begin left (retry + 1) s
        else (s, .pending (.pause due (retry + 1)))
      | 0 => (s, .pending (.pause due (retry + 1)))

/-! ## Calls through the cache -/

/-- A poll of a call through the cache, and whether it started to compute. -/
structure FlightPoll where
  session : Session
  progress : Progress
  started : Bool := false

/-- The computation of a call came to some progress. -/
def FlightPoll.onProgress (id : CallId) (s : Session) (started : Bool) : Progress → FlightPoll
  | .pending work => ⟨s, .pending (.compute id work), started⟩
  | .done outcome =>
    match s.cache.computed id outcome with
    | (c, some a) => ⟨{ s with cache := c }, .done a, started⟩
    | (c, none) =>
      match c.settle id with
      | (c, some a) => ⟨{ s with cache := c }, .done a, started⟩
      | (c, none) => ⟨{ s with cache := c }, .pending (.line id), started⟩

/-- A call in line: it goes on once its lock was given. -/
def FlightPoll.onTurn (compute : Session → Session × Progress) (id : CallId) (s : Session) :
    FlightPoll :=
  if s.cache.isGranted id then
    match s.cache.takeUp id with
    | (c, some a) => ⟨{ s with cache := c }, .done a, false⟩
    | (c, none) =>
      let (s, progress) := compute { s with cache := c }
      .onProgress id s true progress
  else ⟨s, .pending (.line id), false⟩

def FlightPoll.start (compute : Session → Session × Progress) (text : String) (s : Session) :
    FlightPoll :=
  match s.cache.begin text with
  | (c, .inl a) => ⟨{ s with cache := c }, .done a, false⟩
  | (c, .inr id) => .onTurn compute id { s with cache := c }

/-- A later poll of a call through the cache, with the two polls of the computation. -/
def FlightPoll.resume (compute : Session → Session × Progress)
    (goOn : Work → Session → Session × Progress) : Work → Session → FlightPoll
  | .line id, s => .onTurn compute id s
  | .compute id work, s =>
    let (s, progress) := goOn work s
    .onProgress id s false progress
  | work, s => ⟨s, .pending work, false⟩

/-! ## Providers -/

namespace Provider

def start : Provider → (text : String) → Session → Session × Progress
  | source src, text, s => src.start text s
  | resilient inner plan, text, s => plan.attempts (inner.start text) plan.maxRetries 0 s
  | cached inner, text, s =>
    let poll := FlightPoll.start (inner.start text) text s
    (poll.session, poll.progress)

/-- A later poll of a call. Work that is not of the provider's own kind never finishes. -/
def resume : Provider → (text : String) → Work → Session → Session × Progress
  | source _, _, work, s =>
    match work with
    | .answer due outcome =>
      if due ≤ s.now then (s, .done outcome) else (s, .pending (.answer due outcome))
    | work => (s, .pending work)
  | resilient inner plan, text, work, s =>
    match work with
    | .attempt limit retry work =>
      let (s, progress) := inner.resume text work s
      match plan.judge retry limit s progress with
      | (s, .answer a) => (s, .done a)
      | (s, .wait work) => (s, .pending (.attempt limit retry work))
      | (s, .again due) =>
        if due ≤ s.now then
          plan.attempts (inner.start text) (plan.maxRetries - (retry + 1)) (retry + 1) s
        else (s, .pending (.pause due (retry + 1)))
    | .pause due retry =>
      if due ≤ s.now then plan.attempts (inner.start text) (plan.maxRetries - retry) retry s
      else (s, .pending (.pause due retry))
    | work => (s, .pending work)
  | cached inner, text, work, s =>
    let poll := FlightPoll.resume (inner.start text) (inner.resume text) work s
    (poll.session, poll.progress)

/-- A poll of a call on a provider through the cache: the first one where no work is given. -/
def fetch (p : Provider) (text : String) : Option Work → Session → FlightPoll
  | none, s => .start (p.start text) text s
  | some work, s => .resume (p.start text) (p.resume text) work s

end Provider

end NearNotes
