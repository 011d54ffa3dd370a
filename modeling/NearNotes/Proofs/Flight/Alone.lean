import Mathlib
import NearNotes.Proofs.Flight.Step
import NearNotes.Provider.Embed

/-!
# A call that nothing runs beside

Where no call is in progress, a call is given its lock at once, and when it ends no call is in
progress again.

* `Cache.Idle` : no call is in progress; `Cache.alone` : one is; `Cache.vacated` : it has ended;
* `Cache.conclude` : what becomes of the outcome of a computation; `Cache.overtaken` : another writer
  has come first;
* `start_of_hit`, `start_of_miss`, `onProgress_done` : the polls of such a call;
* `Source.asked`, `Source.start_eq` : what a call on a source does, with another writer before it;
* `embed_of_error`, `embed_of_hit`, `embed_of_miss` : the whole call on a source, through the cache.
-/

namespace NearNotes

namespace Cache

/-- No call is in progress. -/
structure Idle (c : Cache) : Prop where
  calls : c.calls = []
  keys : c.keys = []
  locks : c.locks = []
  granted : c.granted = []

def alone (c : Cache) (text : String) (phase : Phase) : Cache :=
  { c with
    calls := [{ id := c.nextCall, text, lock := c.nextLock, phase }]
    keys := [(text, c.nextLock)]
    locks := [{ id := c.nextLock, holder := some c.nextCall }]
    granted := if phase = .queued then [c.nextCall] else []
    nextCall := c.nextCall + 1
    nextLock := c.nextLock + 1 }

def vacated (c : Cache) : Cache :=
  { c with
    calls := []
    keys := []
    locks := []
    granted := []
    nextCall := c.nextCall + 1
    nextLock := c.nextLock + 1 }

theorem idle_vacated (c : Cache) : Idle c.vacated := ⟨rfl, rfl, rfl, rfl⟩

theorem enqueue_idle {c : Cache} (h : Idle c) (text : String) :
    c.enqueue text = (c.alone text .queued, c.nextCall) := by
  have hlock : c.lockFor text =
      ({ c with
          keys := [(text, c.nextLock)]
          locks := [{ id := c.nextLock }]
          nextLock := c.nextLock + 1 }, c.nextLock) := by
    simp [lockFor, key?, h.keys, h.locks]
  simp [enqueue, hlock, lock?, alone, h.calls, h.granted, Lock.join]

theorem call?_alone (c : Cache) (text : String) (phase : Phase) :
    (c.alone text phase).call? c.nextCall =
      some { id := c.nextCall, text, lock := c.nextLock, phase } := by
  simp [call?, alone]

theorem finish_alone (c : Cache) (text : String) (phase : Phase) :
    (c.alone text phase).finish c.nextCall = c.vacated := by
  rw [finish, call?_alone]
  by_cases hphase : phase = .queued
  · simp [alone, vacated, lock?, hphase]
  · simp [alone, vacated, lock?, hphase]

theorem setPhase_alone (c : Cache) (text : String) (v : Embedding) :
    (c.alone text .computing).setPhase c.nextCall (.storing v) = c.alone text (.storing v) := by
  simp [setPhase, alone]

/-- The cache after a second look that found nothing. -/
def missed (c : Cache) : Cache := { c with misses := c.misses + 1 }

theorem takeUp_alone {c : Cache} {text : String} (h : c.read text = .ok none) :
    (c.alone text .queued).takeUp c.nextCall = (c.missed.alone text .computing, none) := by
  have hread : (c.alone text .queued).read text = .ok none := (read_congr rfl text).trans h
  rw [takeUp_eq (call?_alone c text .queued), hread]
  simp [setPhase, alone, missed]

/-- What becomes of the outcome of a computation: an error or a vector of a refused length is the
answer, and any other vector is offered to the database. -/
def conclude (c : Cache) (text : String) : Answer → Cache × Answer
  | .error e => (c, .error e)
  | .ok v =>
    match c.requireLength v with
    | .error e => (c, .error e)
    | .ok () => c.offer text v

theorem exists_conclude (c : Cache) (text : String) (outcome : Answer) :
    ∃ db, (c.conclude text outcome).1 = { c with database := db } := by
  cases outcome with
  | error e => exact ⟨c.database, rfl⟩
  | ok v =>
      obtain ⟨db, hdb, -⟩ := offer_grows c text v none
      simp only [conclude]
      split
      · exact ⟨c.database, rfl⟩
      · exact ⟨db, hdb⟩

theorem offer_alone (c : Cache) (text : String) (phase : Phase) (v : Embedding) :
    (c.alone text phase).offer text v =
      ((c.offer text v).1.alone text phase, (c.offer text v).2) := by
  unfold offer
  cases hinsert : c.database.insertNew (.text text) (.blob (Blob.encode v)) with
  | error e =>
      have hinsert' : (c.alone text phase).database.insertNew (.text text)
          (.blob (Blob.encode v)) = .error e := hinsert
      rw [hinsert']
  | ok result =>
      have hinsert' : (c.alone text phase).database.insertNew (.text text)
          (.blob (Blob.encode v)) = .ok result := hinsert
      rw [hinsert']
      simp only
      rw [readBack_congr (c := { c with database := result.1 }) rfl]
      rfl

/-- The cache after another writer came first, if one did. -/
def overtaken (c : Cache) (text : String) (rival : Option Cell) : Cache :=
  rival.elim c fun cell => c.apply (.rival text cell)

@[simp] theorem overtaken_none (c : Cache) (text : String) : c.overtaken text none = c := rfl

theorem overtaken_eq (c : Cache) (text : String) (rival : Option Cell) :
    ∃ db, c.overtaken text rival = { c with database := db } := by
  cases rival with
  | none => exact ⟨c.database, rfl⟩
  | some cell =>
      cases hinsert : c.database.insert (.text text) cell with
      | ok db => exact ⟨db, by simp [overtaken, apply, enabled, hinsert]⟩
      | error e => exact ⟨c.database, by simp [overtaken, apply, enabled, hinsert]⟩

theorem overtaken_alone (c : Cache) (text : String) (phase : Phase) (rival : Option Cell) :
    (c.alone text phase).overtaken text rival = (c.overtaken text rival).alone text phase := by
  cases rival with
  | none => rfl
  | some cell =>
      cases hinsert : c.database.insert (.text text) cell with
      | ok db => simp [overtaken, apply, enabled, hinsert, alone]
      | error e =>
          have hdatabase : (c.alone text phase).database = c.database := rfl
          simp [overtaken, apply, enabled, hdatabase, hinsert]

theorem settle_alone (c : Cache) (text : String) (v : Embedding) :
    (c.alone text (.storing v)).settle c.nextCall =
      ((c.offer text v).1.vacated, some (c.offer text v).2) := by
  have hnext : (c.offer text v).1.nextCall = c.nextCall := by
    obtain ⟨db, hdb, -⟩ := offer_grows c text v none
    rw [hdb]
  unfold settle
  rw [call?_alone]
  simp only [offer_alone]
  rw [← hnext, finish_alone]

end Cache

open Cache

/-! ## Polls -/

theorem FlightPoll.start_of_hit (compute : Session → Session × Progress) {text : String}
    {s : Session} {v : Embedding} (h : s.cache.read text = .ok (some v)) :
    FlightPoll.start compute text s =
      ⟨{ s with cache := { s.cache with hits := s.cache.hits + 1 } }, .done (.ok v), false⟩ := by
  simp only [FlightPoll.start, Cache.begin, h]

theorem FlightPoll.start_of_miss (compute : Session → Session × Progress) {text : String}
    {s : Session} (hidle : Idle s.cache) (h : s.cache.read text = .ok none) :
    FlightPoll.start compute text s =
      .onProgress s.cache.nextCall
        (compute { s with cache := s.cache.missed.alone text .computing }).1 true
        (compute { s with cache := s.cache.missed.alone text .computing }).2 := by
  have hgranted : (s.cache.alone text .queued).isGranted s.cache.nextCall = true := by
    simp [isGranted, alone]
  simp only [FlightPoll.start, Cache.begin, h, enqueue_idle hidle, FlightPoll.onTurn, hgranted,
    if_true, takeUp_alone h]

theorem FlightPoll.onProgress_pending (id : CallId) (s : Session) (started : Bool) (work : Work) :
    FlightPoll.onProgress id s started (.pending work) =
      ⟨s, .pending (.compute id work), started⟩ := rfl

theorem FlightPoll.onProgress_done (c : Cache) (text : String) (s : Session) (started : Bool)
    (outcome : Answer) :
    FlightPoll.onProgress c.nextCall { s with cache := c.alone text .computing } started
        (.done outcome) =
      ⟨{ s with cache := (c.conclude text outcome).1.vacated }, .done (c.conclude text outcome).2,
        started⟩ := by
  cases outcome with
  | error e => simp only [FlightPoll.onProgress, computed, finish_alone, conclude]
  | ok v =>
      have hlength : (c.alone text .computing).requireLength v = c.requireLength v := rfl
      cases hrequire : c.requireLength v with
      | error e =>
          simp only [FlightPoll.onProgress, computed, hlength, hrequire, finish_alone, conclude]
      | ok _ =>
          simp only [FlightPoll.onProgress, computed, hlength, hrequire, setPhase_alone,
            settle_alone, conclude]

/-! ## Whole calls -/

/-- A source that has one reply, to whatever it is asked. -/
def Source.always (reply : Reply) : Source :=
  { name := "", model := "", dimension := 0, reply := fun _ _ => reply }

/-- The session once a source was called for a text: the call is recorded, and another writer may
have come first. -/
def Source.asked (src : Source) (text : String) (s : Session) : Session :=
  { s with
    cache := s.cache.overtaken text (src.reply s.log.length text).rival
    log := s.log ++ [⟨.one text, s.now, s.cache.textsInProgress⟩] }

theorem Source.start_eq (src : Source) (text : String) (s : Session) :
    src.start text s =
      (src.asked text s,
        if (src.reply s.log.length text).delay.nanos = 0 then
          .done (src.reply s.log.length text).outcome
        else .pending (.answer (s.now + (src.reply s.log.length text).delay.nanos)
          (src.reply s.log.length text).outcome)) := by
  cases hrival : (src.reply s.log.length text).rival with
  | none =>
      simp only [start, asked, hrival]
      split <;> rfl
  | some cell =>
      simp only [start, asked, hrival]
      split <;> rfl

namespace Provider

theorem embed_of_hit (p : Provider) {text : String} {s : Session} {v : Embedding}
    (h : s.cache.read text = .ok (some v)) :
    (cached p).embed text s =
      ({ s with cache := { s.cache with hits := s.cache.hits + 1 } }, some (.ok v)) := by
  simp only [embed, start, FlightPoll.start_of_hit _ h, await]

/-- A miss asks the source once, waits for its reply and concludes with the outcome. -/
theorem embed_of_miss (src : Source) {text : String} {s : Session} (hidle : Idle s.cache)
    (h : s.cache.read text = .ok none) {reply : Reply}
    (hreply : src.reply s.log.length text = reply) :
    (cached (source src)).embed text s =
      ({ now := s.now + reply.delay.nanos
         cache := ((s.cache.missed.overtaken text reply.rival).conclude text reply.outcome).1.vacated
         log := s.log ++ [⟨.one text, s.now, 1⟩] },
        some ((s.cache.missed.overtaken text reply.rival).conclude text reply.outcome).2) := by
  have hnext : s.cache.nextCall = (s.cache.missed.overtaken text reply.rival).nextCall := by
    obtain ⟨db, hdb⟩ := s.cache.missed.overtaken_eq text reply.rival
    rw [hdb]
    rfl
  have hbusy : (s.cache.missed.alone text .computing).textsInProgress = 1 := rfl
  simp only [embed, start, FlightPoll.start_of_miss _ hidle h, Source.start_eq, Source.asked, hreply,
    hbusy, overtaken_alone]
  rw [hnext]
  by_cases hdelay : reply.delay.nanos = 0
  · rw [if_pos hdelay]
    have hdone := FlightPoll.onProgress_done (s.cache.missed.overtaken text reply.rival) text
      { s with log := s.log ++ [⟨.one text, s.now, 1⟩] } true reply.outcome
    simp only [hdone, await, hdelay, Nat.add_zero]
  · rw [if_neg hdelay]
    have hwake : max s.now (s.now + reply.delay.nanos) = s.now + reply.delay.nanos :=
      Nat.max_eq_right (Nat.le_add_right ..)
    have hdone := FlightPoll.onProgress_done (s.cache.missed.overtaken text reply.rival) text
      { s with now := s.now + reply.delay.nanos, log := s.log ++ [⟨.one text, s.now, 1⟩] } false
      reply.outcome
    simp only [FlightPoll.onProgress_pending, waits, await, Work.due?, hwake, resume,
      FlightPoll.resume, le_refl, if_true, hdone]

end Provider

end NearNotes
