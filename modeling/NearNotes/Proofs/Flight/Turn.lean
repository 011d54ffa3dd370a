import Mathlib
import NearNotes.Proofs.Flight.Crew
import NearNotes.Proofs.Provider.Quiet

/-!
# A poll of one call among others

Where all calls through a cache are on one provider that keeps to itself, a poll of one of them
answers it as if it were alone, or leaves less to do.

* `Work.Pursues` : work that is the rest of a call for a text; `Provider.weight` : how much there is
  left to do for it; `Work.computing` : whether it computes;
* `FlightPoll.Fetched` : what such a poll comes to;
* `onProgress_fetched`, `onTurn_fetched`, `start_fetched` : the parts of a poll;
* `Provider.fetch_fetched` : every poll of a call that can go on.
-/

namespace NearNotes

open Cache

/-- Unfinished work is the rest of a call for a text, in line or computing. -/
inductive Work.Pursues (p : Provider) (text : String) (s : Session) : Work → Prop
  | line {id : CallId} {lock : LockId} (known : ⟨id, text, lock, .queued⟩ ∈ s.cache.calls) :
      Pursues p text s (.line id)
  | compute {id : CallId} {lock : LockId} {work : Work} {moment : Moment}
      (known : ⟨id, text, lock, .computing⟩ ∈ s.cache.calls)
      (polled : p.Polled text (.pending work)) (due : work.due? = some moment)
      (late : s.now ≤ moment) : Pursues p text s (.compute id work)

def Provider.weight (p : Provider) : Option Work → Nat
  | none => p.waits + 4
  | some (.line _) => p.waits + 3
  | some (.compute _ work) => p.pollsLeft work + 2
  | some _ => 0

def Work.computing : Option Work → Nat
  | some (.compute _ _) => 1
  | _ => 0

def Progress.rest : Progress → Option Work
  | .pending work => some work
  | .done _ => none

def Progress.answer? : Progress → Option Answer
  | .pending _ => none
  | .done answer => some answer

namespace FlightPoll

/-- What a poll for a text comes to under a call's number: the answer is that of a call alone, as far
as there are numbers for the rows, or less than `budget` is left to do. The other calls are as they
were, and so is what is read for other texts. The rows and computations `held` before are there
afterwards, and a computation that was started comes on top. -/
structure Fetched (start : Cache) (f : String → Answer) (texts : List String) (p : Provider)
    (text : String) (id : CallId) (budget held : Nat) (s : Session) (poll : FlightPoll) : Prop where
  crew : Crew start f texts poll.session.cache
  apart : Apart id s.cache poll.session.cache
  now : poll.session.now = s.now
  log : ∃ records, poll.session.log = s.log ++ records ∧
    ∀ record ∈ records, record.input = .one text ∧ start.read text = .ok none
  done : ∀ a, poll.progress = .done a →
    start.Lands f texts text a ∧ ∀ call ∈ poll.session.cache.calls, call.id ≠ id
  pending : ∀ work, poll.progress = .pending work →
    work.ticket? = some id ∧ work.Pursues p text poll.session ∧ p.weight (some work) < budget
  tally : start.Yields f texts → poll.started.toNat + held =
    poll.session.cache.database.rows.length + Work.computing poll.progress.rest
  others : ∀ other, other ≠ text → poll.session.cache.read other = s.cache.read other

variable {start : Cache} {f : String → Answer} {texts : List String} {p : Provider} {text : String}
  {id : CallId} {budget held : Nat} {s s₁ : Session} {poll : FlightPoll}

theorem Fetched.mono (h : Fetched start f texts p text id budget held s poll) {budget' : Nat}
    (hle : budget ≤ budget') : Fetched start f texts p text id budget' held s poll := by
  refine ⟨h.crew, h.apart, h.now, h.log, h.done, fun work hwork => ?_, h.tally, h.others⟩
  obtain ⟨hticket, hpursues, hless⟩ := h.pending work hwork
  exact ⟨hticket, hpursues, hless.trans_le hle⟩

/-- What went before touched neither the clock nor the log nor the rows nor other calls. -/
theorem Fetched.of_apart (h : Fetched start f texts p text id budget held s₁ poll)
    (hapart : Apart id s.cache s₁.cache) (hnow : s₁.now = s.now) (hlog : s₁.log = s.log)
    (hdatabase : s₁.cache.database = s.cache.database) :
    Fetched start f texts p text id budget held s poll :=
  ⟨h.crew, hapart.trans h.apart, h.now.trans hnow, hlog ▸ h.log, h.done, h.pending, h.tally,
    fun other hne => (h.others other hne).trans (read_congr hdatabase other)⟩

end FlightPoll

/-! ## The end of a computation -/

theorem Cache.call?_setPhase {c : Cache} {id : CallId} {call : Call} (h : c.call? id = some call)
    (phase : Phase) : (c.setPhase id phase).call? id = some { call with phase } := by
  have hsame : (fun other : Call =>
      (if other.id == id then { other with phase } else other).id == id) = (·.id == id) := by
    funext other
    split <;> rfl
  have hid := (call?_eq_some h).2
  rw [call?, setPhase, List.find?_map]
  simp only [Function.comp_def, hsame]
  rw [show c.calls.find? (·.id == id) = some call from h, Option.map_some, if_pos (by simpa using hid)]

theorem Cache.finish_setPhase {c : Cache} {id : CallId} {call : Call} (h : c.call? id = some call)
    (phase : Phase) : (c.setPhase id phase).finish id = c.finish id := by
  have hsame : (fun other : Call =>
      (if other.id == id then { other with phase } else other).id != id) = (·.id != id) := by
    funext other
    split <;> rfl
  have hcalls : (c.setPhase id phase).calls.filter (·.id != id) = c.calls.filter (·.id != id) := by
    rw [setPhase, List.filter_map]
    simp only [Function.comp_def, hsame]
    refine (List.map_congr_left fun other hother => ?_).trans (List.map_id _)
    have hne : other.id ≠ id := by simpa using (List.mem_filter.mp hother).2
    exact if_neg (by simpa using hne)
  simp only [finish, h, call?_setPhase h phase, hcalls]
  rfl

theorem Cache.offer_of_database_eq {c c' : Cache} (h : c'.database = c.database) (text : String)
    (v : Embedding) : c'.offer text v =
      ({ c' with database := (c.offer text v).1.database }, (c.offer text v).2) := by
  unfold offer
  rw [h]
  cases c.database.insertNew (.text text) (.blob (Blob.encode v)) with
  | error e =>
      dsimp only
      rw [← h]
  | ok result =>
      exact congrArg (Prod.mk _) (readBack_congr rfl text none)

/-- A computation that ends: its outcome is concluded, and the call ends. -/
theorem FlightPoll.onProgress_of_done {s : Session} {call : Call}
    (h : s.cache.call? call.id = some call) (started : Bool) (outcome : Answer) :
    FlightPoll.onProgress call.id s started (.done outcome) =
      ⟨{ s with cache := (s.cache.conclude call.text outcome).1.finish call.id },
        .done (s.cache.conclude call.text outcome).2, started⟩ := by
  cases outcome with
  | error e => simp only [onProgress, computed, conclude]
  | ok v =>
      cases hlength : s.cache.requireLength v with
      | error e => simp only [onProgress, computed, conclude, hlength]
      | ok _ =>
          have hfound := call?_setPhase h (.storing v)
          have hoffer := offer_of_database_eq (database_setPhase s.cache call.id (.storing v))
            call.text v
          obtain ⟨db, hdb, -⟩ := offer_grows s.cache call.text v none
          simp only [onProgress, computed, conclude, hlength, settle, hfound, hoffer]
          rw [hdb]
          congr 2
          exact @finish_setPhase { s.cache with database := db } call.id call h (.storing v)

/-! ## Polls -/

namespace FlightPoll

variable {start : Cache} {f : String → Answer} {texts : List String} {p : Provider} {text : String}
  {id : CallId} {lock : LockId} {held : Nat} {s : Session}

/-- A poll of the computation of a call: it ends, or goes on with fewer polls left. -/
theorem onProgress_fetched (hcomputes : p.Computes f) (hcrew : Crew start f texts s.cache)
    (hcall : ⟨id, text, lock, .computing⟩ ∈ s.cache.calls) (htext : text ∈ texts)
    {after : Session × Progress} {calls polls tries : Nat} (hasked : s.Asked text calls after.1)
    (hleaves : p.Leaves s.now polls tries after.2) (hpolled : p.Polled text after.2)
    (started : Bool) (hheld : started.toNat + held = s.cache.database.rows.length + 1) :
    Fetched start f texts p text id (polls + 3) held s
      (onProgress id after.1 started after.2) := by
  obtain ⟨s₁, progress⟩ := after
  have hcrew₁ : Crew start f texts s₁.cache := by
    rw [hasked.cache]
    exact hcrew
  have hcall₁ : ⟨id, text, lock, .computing⟩ ∈ s₁.cache.calls := by
    rw [hasked.cache]
    exact hcall
  have hlog : ∃ records, s₁.log = s.log ++ records ∧
      ∀ record ∈ records, record.input = .one text ∧ start.read text = .ok none := by
    obtain ⟨records, hlog, -, hinputs⟩ := hasked.log
    have hread : s.cache.read text = .ok none := by
      rcases hcrew.working _ hcall with hqueued | ⟨-, hread⟩
      · cases hqueued
      · exact hread
    exact ⟨records, hlog, fun record hrecord =>
      ⟨hinputs record hrecord, hcrew.since.absent hread⟩⟩
  cases progress with
  | pending rest =>
      obtain ⟨-, hpolls, -, due, hdue, hlate⟩ := hleaves
      refine ⟨hcrew₁, ?_, hasked.now, hlog, fun a ha => ?_, fun work hwork => ?_, ?_,
        fun other _ => congrArg (Cache.read · other) hasked.cache⟩
      · show Apart id s.cache s₁.cache
        rw [hasked.cache]
        exact .refl _ _
      · cases ha
      · cases hwork
        refine ⟨rfl, .compute hcall₁ hpolled hdue (hasked.now ▸ hlate), ?_⟩
        show p.pollsLeft rest + 2 < polls + 3
        omega
      · intro _
        show started.toNat + held = s₁.cache.database.rows.length + 1
        rw [hasked.cache, hheld]
  | done a =>
      cases hcomputes.answers hpolled
      obtain ⟨hcrew', hapart, hgone, hanswer, hcount, hreads⟩ := hcrew₁.land hcall₁ rfl htext
      have hpoll := @onProgress_of_done s₁ ⟨id, text, lock, .computing⟩
        (hcrew₁.orderly.call? hcall₁) started (f text)
      dsimp only at hpoll ⊢
      rw [hpoll]
      refine ⟨hcrew', ?_, hasked.now, hlog, fun a ha => ?_, fun work hwork => ?_, ?_,
        fun other hne => (hreads other hne).trans (congrArg (Cache.read · other) hasked.cache)⟩
      · show Apart id s.cache _
        rw [← hasked.cache]
        exact hapart
      · cases ha
        exact ⟨hanswer, hgone⟩
      · cases hwork
      · intro hyields
        have hok := hyields.ok text htext
        rw [← hanswer.eq_of_room hyields.room] at hok
        show started.toNat + held = _ + 0
        rw [hheld, Nat.add_zero, ← hasked.cache]
        exact (hcount hok).symm

/-- A poll that answers from what is read, without a computation. -/
theorem fetched_of_read (hcrew : Crew start f texts s.cache) {c : Cache}
    (hcrew' : Crew start f texts c) (hdatabase : c.database = s.cache.database)
    (hapart : Apart id s.cache c) (hgone : ∀ call ∈ c.calls, call.id ≠ id) {a : Answer}
    (hread : s.cache.read text = a.map some) (budget : Nat) :
    Fetched start f texts p text id budget s.cache.database.rows.length s
      ⟨{ s with cache := c }, .done a, false⟩ := by
  refine ⟨hcrew', hapart, rfl, ⟨[], (List.append_nil _).symm, by simp⟩, fun b hb => ?_,
    fun work hwork => ?_, fun _ => ?_, fun other _ => read_congr hdatabase other⟩
  · cases hb
    exact ⟨Or.inl (hcrew.since.eq_answerFor hread), hgone⟩
  · cases hwork
  · show 0 + _ = c.database.rows.length + 0
    rw [hdatabase, Nat.zero_add, Nat.add_zero]

theorem onTurn_fetched (hcomputes : p.Computes f) (hcrew : Crew start f texts s.cache)
    (hcall : ⟨id, text, lock, .queued⟩ ∈ s.cache.calls) (htext : text ∈ texts)
    (hgranted : id ∈ s.cache.granted) :
    Fetched start f texts p text id (p.waits + 3) s.cache.database.rows.length s
      (onTurn (p.start text) id s) := by
  have hfound : s.cache.call? id = some ⟨id, text, lock, .queued⟩ :=
    hcrew.orderly.call? hcall
  obtain ⟨hcrew', hapart, hgone⟩ := hcrew.finish hcall
  have hsame := hcrew.orderly.sameFlight_finish_granted hcall
  -- A call that finds a row or fails to read one ends at once.
  have hends : ∀ c : Cache, SameFlight (s.cache.finish id) c → c.database = s.cache.database →
      c.dimension = s.cache.dimension → ∀ a : Answer, s.cache.read text = a.map some →
      Fetched start f texts p text id (p.waits + 3) s.cache.database.rows.length s
        ⟨{ s with cache := c }, .done a, false⟩ := by
    intro c hflight hdatabase hdimension a hread
    refine fetched_of_read hcrew ?_ hdatabase (hapart.congr hflight) ?_ hread _
    · refine hcrew'.congr hflight (hdatabase.trans (database_finish _ _).symm) ?_
      exact hdimension.trans (dimension_finish _ _).symm
    · rw [hflight.calls]
      exact hgone
  unfold onTurn
  rw [if_pos (show s.cache.isGranted id = true by simpa [isGranted] using hgranted),
    takeUp_eq hfound]
  cases hread : s.cache.read text with
  | error e =>
      simp only
      exact hends _ hsame (database_finish _ _) (dimension_finish _ _) (.error e) hread
  | ok found =>
      cases found with
      | some v =>
          simp only
          have hhits : SameFlight ({ s.cache with granted := s.cache.granted.erase id } : Cache)
              { s.cache with granted := s.cache.granted.erase id, hits := s.cache.hits + 1 } :=
            ⟨rfl, rfl, rfl, rfl, rfl, rfl⟩
          exact hends _ (hsame.trans (hhits.finish id)) (database_finish _ _)
            (dimension_finish _ _) (.ok v) hread
      | none =>
          simp only
          obtain ⟨hcrew₁, hapart₁, hcall₁⟩ := hcrew.takeUp hcall hgranted hread
          set c₂ := ({ s.cache with
            granted := s.cache.granted.erase id
            misses := s.cache.misses + 1 } : Cache).setPhase id .computing
          have hflight : SameFlight (({ s.cache with
              granted := s.cache.granted.erase id } : Cache).setPhase id .computing) c₂ :=
            ⟨rfl, rfl, rfl, rfl, rfl, rfl⟩
          obtain ⟨calls, hasked, -, -, hleaves⟩ :=
            Provider.start_comes hcomputes.quiet text { s with cache := c₂ }
          have hheld : true.toNat + s.cache.database.rows.length = c₂.database.rows.length + 1 :=
            Nat.add_comm _ _
          have hfetched := onProgress_fetched (s := { s with cache := c₂ }) hcomputes
            (hcrew₁.congr hflight rfl rfl) hcall₁ htext hasked hleaves (.start _) true hheld
          exact hfetched.of_apart (hapart₁.congr hflight) rfl rfl rfl

theorem start_fetched (hcomputes : p.Computes f) (hcrew : Crew start f texts s.cache)
    (htext : text ∈ texts) :
    Fetched start f texts p text s.cache.nextCall (p.waits + 4) s.cache.database.rows.length s
      (FlightPoll.start (p.start text) text s) := by
  have hgone : ∀ call ∈ s.cache.calls, call.id ≠ s.cache.nextCall :=
    fun call hcall => hcrew.orderly.id_ne_nextCall hcall
  unfold FlightPoll.start begin
  cases hread : s.cache.read text with
  | error e => exact fetched_of_read hcrew hcrew rfl (.refl _ _) hgone (a := .error e) hread _
  | ok found =>
      cases found with
      | some v =>
          simp only
          have hsame : SameFlight s.cache { s.cache with hits := s.cache.hits + 1 } :=
            ⟨rfl, rfl, rfl, rfl, rfl, rfl⟩
          exact fetched_of_read hcrew (hcrew.congr hsame rfl rfl) rfl (.congr (.refl _ _) hsame) hgone
            (a := .ok v) hread _
      | none =>
          simp only [enqueue_id]
          obtain ⟨hcrew₁, hapart, lock, hcall⟩ := hcrew.enqueue text
          have hrows : (s.cache.enqueue text).1.database.rows.length =
              s.cache.database.rows.length := by rw [database_enqueue]
          by_cases hgranted : s.cache.nextCall ∈ (s.cache.enqueue text).1.granted
          · have hturn := onTurn_fetched (s := { s with cache := (s.cache.enqueue text).1 }) hcomputes
              hcrew₁ hcall htext hgranted
            rw [← hrows]
            exact (hturn.mono (Nat.le_succ _)).of_apart hapart rfl rfl (database_enqueue _ _)
          · unfold onTurn
            rw [if_neg (by simpa [isGranted] using hgranted)]
            refine ⟨hcrew₁, hapart, rfl, ⟨[], (List.append_nil _).symm, by simp⟩, fun a ha => ?_,
              fun work hwork => ?_, fun _ => ?_, fun other _ => read_congr (database_enqueue _ _) other⟩
            · cases ha
            · cases hwork
              exact ⟨rfl, .line hcall, Nat.lt_succ_self _⟩
            · show 0 + _ = (s.cache.enqueue text).1.database.rows.length + 0
              rw [hrows, Nat.zero_add, Nat.add_zero]

end FlightPoll

/-- The number under which a position's work goes on: its call's, or that of the call to come. -/
def Cache.ticket (c : Cache) (work : Option Work) : CallId :=
  (work.bind Work.ticket?).getD c.nextCall

/-- The work can go on: it has not begun, was given its lock, or is due now. -/
def Work.CanGo (s : Session) : Option Work → Prop
  | none => True
  | some (.line id) => id ∈ s.cache.granted
  | some work => work.due? = some s.now

/-- **A poll of a call that can go on.** -/
theorem Provider.fetch_fetched {start : Cache} {f : String → Answer} {texts : List String}
    {p : Provider} {text : String} {work : Option Work} {s : Session} (hcomputes : p.Computes f)
    (hcrew : Crew start f texts s.cache) (htext : text ∈ texts)
    (hpursues : ∀ rest, work = some rest → rest.Pursues p text s) (hgo : Work.CanGo s work) :
    (p.fetch text work s).Fetched start f texts p text (s.cache.ticket work) (p.weight work)
      (s.cache.database.rows.length + Work.computing work) s := by
  cases work with
  | none => exact FlightPoll.start_fetched hcomputes hcrew htext
  | some rest =>
      cases hpursues rest rfl with
      | @line id lock known =>
          exact FlightPoll.onTurn_fetched hcomputes hcrew known htext hgo
      | @compute id lock work moment known polled due late =>
          have hfits := polled.fits hcomputes.quiet
          have hpos := pollsLeft_pos hfits
          obtain ⟨calls, hasked, -, -, hleaves⟩ := resume_comes hcomputes.quiet text hfits hgo
          have hheld : false.toNat + (s.cache.database.rows.length + 1) =
              s.cache.database.rows.length + 1 := Nat.zero_add _
          have hfetched := FlightPoll.onProgress_fetched hcomputes hcrew known htext hasked hleaves
            (polled.resume hgo) false hheld
          refine hfetched.mono ?_
          show p.pollsLeft work - 1 + 3 ≤ p.pollsLeft work + 2
          omega

end NearNotes
