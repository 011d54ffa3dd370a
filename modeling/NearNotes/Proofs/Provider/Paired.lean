import Mathlib
import NearNotes.Proofs.Flight.Alone

/-!
# Calls polled side by side

A call on a provider touches its session in a few ways only: the source is called, the steps of calls
through the cache are taken, calls are dropped. So a relation between two sessions that these respect
is respected by every poll, whatever layers the provider has, and the two calls come to the same. With
one session beside itself this is an invariant.

* `Work.All`, `Progress.All` : a condition on all answers that a call may come to;
* `Paired` : two polls lead to related sessions and to the same, with answers of some kind;
* `Respects`, `RespectsFlight`, `Provider.Respects` : what has to be shown of a relation;
* `Source.start_paired` : a call on a source;
* `Provider.start_paired`, `Provider.resume_paired`, `Provider.fetch_paired` : polls of a call.
-/

namespace NearNotes

/-! ## Answers -/

def Work.All (P : Answer → Prop) : Work → Prop
  | .answer _ outcome => P outcome
  | .attempt _ _ work => work.All P
  | .compute _ work => work.All P
  | .pause .. | .line _ => True

def Progress.All (P : Answer → Prop) : Progress → Prop
  | .done a => P a
  | .pending work => work.All P

def Verdict.All (P : Answer → Prop) : Verdict → Prop
  | .answer a => P a
  | .wait work => work.All P
  | .again _ => True

theorem Work.All.mono {P Q : Answer → Prop} (hPQ : ∀ a, P a → Q a) {work : Work}
    (h : work.All P) : work.All Q := by
  induction work with
  | answer due outcome => exact hPQ _ h
  | attempt limit retry work ih => exact ih h
  | compute id work ih => exact ih h
  | pause | line => trivial

theorem Work.all_true (work : Work) : work.All fun _ => True := by
  induction work with
  | answer => trivial
  | attempt limit retry work ih => exact ih
  | pause => trivial
  | line => trivial
  | compute id work ih => exact ih

theorem Work.log_cancel (work : Work) (s : Session) : (work.cancel s).log = s.log := by
  induction work generalizing s with
  | answer => rfl
  | attempt limit retry work ih => exact ih s
  | pause => rfl
  | line => rfl
  | compute id work ih => exact ih s

/-! ## Relations -/

section

variable (R : Session → Session → Prop) (A : List CallRecord → Answer → Prop)

/-- Two polls lead to related sessions and to the same. Nothing that was recorded is lost, and the
answers satisfy a condition, given what is recorded. -/
structure Paired (log : List CallRecord) (after after' : Session × Progress) : Prop where
  related : R after.1 after'.1
  same : after'.2 = after.2
  log : log <+: after.1.log
  answers : after.2.All (A after.1.log)

/-- A relation between sessions, and a condition on answers: related sessions are at the same moment,
dropped calls respect the relation, and a timeout may always be the answer. -/
structure Respects : Prop where
  now : ∀ {s s'}, R s s' → s'.now = s.now
  abandon : ∀ {s s'}, R s s' → ∀ id,
    R { s with cache := s.cache.abandon id } { s' with cache := s'.cache.abandon id }
  timeout : ∀ log ms, A log (.error (.timeout ms))

/-- The steps of calls through the cache for a text respect a relation, and come to the same. -/
structure RespectsFlight (text : String) : Prop where
  begin : ∀ {s s'}, R s s' →
    R { s with cache := (s.cache.begin text).1 } { s' with cache := (s'.cache.begin text).1 } ∧
      (s'.cache.begin text).2 = (s.cache.begin text).2 ∧
      ∀ a, (s.cache.begin text).2 = .inl a → A s.log a
  granted : ∀ {s s'}, R s s' → ∀ id, s'.cache.isGranted id = s.cache.isGranted id
  takeUp : ∀ {s s'}, R s s' → ∀ id,
    R { s with cache := (s.cache.takeUp id).1 } { s' with cache := (s'.cache.takeUp id).1 } ∧
      (s'.cache.takeUp id).2 = (s.cache.takeUp id).2 ∧
      ∀ a, (s.cache.takeUp id).2 = some a → A s.log a
  computed : ∀ {s s'}, R s s' → ∀ id outcome, A s.log outcome →
    R { s with cache := (s.cache.computed id outcome).1 }
        { s' with cache := (s'.cache.computed id outcome).1 } ∧
      (s'.cache.computed id outcome).2 = (s.cache.computed id outcome).2 ∧
      ∀ a, (s.cache.computed id outcome).2 = some a → A s.log a
  settle : ∀ {s s'}, R s s' → ∀ id,
    R { s with cache := (s.cache.settle id).1 } { s' with cache := (s'.cache.settle id).1 } ∧
      (s'.cache.settle id).2 = (s.cache.settle id).2 ∧
      ∀ a, (s.cache.settle id).2 = some a → A s.log a

/-- A provider's source respects a relation, and so do the steps through the cache if it has a layer
that takes them. -/
def Provider.Respects (text : String) : Provider → Prop
  | source src => ∀ {s s'}, R s s' → Paired R A s.log (src.start text s) (src.start text s')
  | resilient inner _ => inner.Respects text
  | cached inner => inner.Respects text ∧ RespectsFlight R A text

end

variable {R : Session → Session → Prop} {A : List CallRecord → Answer → Prop}
  {text : String} {s s' : Session} {log log₁ : List CallRecord}

theorem Paired.of_log {after after' : Session × Progress} (h : Paired R A log₁ after after')
    (hlog : log <+: log₁) : Paired R A log after after' :=
  ⟨h.related, h.same, hlog.trans h.log, h.answers⟩

theorem paired_of_all (h : R s s') {progress : Progress} (hall : progress.All (A s.log)) :
    Paired R A s.log (s, progress) (s', progress) :=
  ⟨h, rfl, List.prefix_refl _, hall⟩

theorem Respects.cancel (hR : Respects R A) (h : R s s') (work : Work) :
    R (work.cancel s) (work.cancel s') := by
  induction work generalizing s s' with
  | answer due outcome => exact h
  | attempt limit retry work ih => exact ih h
  | pause due retry => exact h
  | line id => exact hR.abandon h id
  | compute id work ih => exact hR.abandon (ih h) id

/-! ## Sources -/

theorem Source.start_paired {src : Source} (hnow : s'.now = s.now)
    (hlog : s'.log.length = s.log.length) (hasked : R (src.asked text s) (src.asked text s'))
    (hanswer : A (src.asked text s).log (src.reply s.log.length text).outcome) :
    Paired R A s.log (src.start text s) (src.start text s') := by
  rw [src.start_eq text s, src.start_eq text s', hlog, hnow]
  refine ⟨hasked, rfl, List.prefix_append _ _, ?_⟩
  simp only
  split
  · exact hanswer
  · exact hanswer

/-! ## Attempts -/

theorem RetryPlan.judge_paired (hR : Respects R A) (plan : RetryPlan) (retry : Nat)
    (limit : Moment) (h : R s s') {progress : Progress} (hall : progress.All (A s.log)) :
    R (plan.judge retry limit s progress).1 (plan.judge retry limit s' progress).1 ∧
      (plan.judge retry limit s' progress).2 = (plan.judge retry limit s progress).2 ∧
      (plan.judge retry limit s progress).1.log = s.log ∧
      (plan.judge retry limit s progress).2.All (A s.log) := by
  have hafter : ∀ {s s' : Session} {e : EmbedError} {log : List CallRecord}, R s s' →
      A log (.error e) →
      judge.afterFailure plan retry e s' = judge.afterFailure plan retry e s ∧
        (judge.afterFailure plan retry e s).All (A log) := by
    intro s s' e log h he
    unfold judge.afterFailure
    rw [hR.now h]
    split
    · exact ⟨rfl, trivial⟩
    · exact ⟨rfl, he⟩
  cases progress with
  | done a =>
      cases a with
      | ok v => exact ⟨h, rfl, rfl, hall⟩
      | error e =>
          obtain ⟨hsame, hverdict⟩ := hafter h hall
          exact ⟨h, hsame, rfl, hverdict⟩
  | pending work =>
      simp only [judge]
      rw [hR.now h]
      split
      · have hcancel := hR.cancel h work
        obtain ⟨hsame, hverdict⟩ := hafter hcancel (hR.timeout s.log _)
        exact ⟨hcancel, hsame, work.log_cancel s, hverdict⟩
      · exact ⟨h, rfl, rfl, hall⟩

/-- What a verdict on attempt number `retry` leads to, where `again` tells how another one goes. -/
def Verdict.follow (limit : Moment) (retry : Nat) (again : Moment → Session → Session × Progress) :
    Session × Verdict → Session × Progress
  | (s, .answer a) => (s, .done a)
  | (s, .wait work) => (s, .pending (.attempt limit retry work))
  | (s, .again due) => again due s

theorem Verdict.follow_paired (limit : Moment) (retry : Nat)
    {again again' : Moment → Session → Session × Progress}
    (hagain : ∀ {s s'} due, R s s' → Paired R A s.log (again due s) (again' due s'))
    {judged judged' : Session × Verdict} (hrelated : R judged.1 judged'.1)
    (hsame : judged'.2 = judged.2) (hall : judged.2.All (A judged.1.log)) :
    Paired R A judged.1.log (follow limit retry again judged) (follow limit retry again' judged') := by
  obtain ⟨s, verdict⟩ := judged
  obtain ⟨s', verdict'⟩ := judged'
  cases hsame
  cases verdict with
  | answer a => exact paired_of_all hrelated hall
  | wait work => exact paired_of_all hrelated hall
  | again due => exact hagain due hrelated

theorem RetryPlan.round_paired (hR : Respects R A) (plan : RetryPlan) (retry : Nat)
    (limit : Moment) {after after' : Session × Progress} (h : Paired R A log after after')
    {again again' : Moment → Session → Session × Progress}
    (hagain : ∀ {s s'} due, R s s' → Paired R A s.log (again due s) (again' due s')) :
    Paired R A log (Verdict.follow limit retry again (plan.judge retry limit after.1 after.2))
      (Verdict.follow limit retry again' (plan.judge retry limit after'.1 after'.2)) := by
  obtain ⟨hrelated, hsame, hlog, hverdict⟩ := plan.judge_paired hR retry limit h.related h.answers
  rw [h.same]
  refine (Verdict.follow_paired limit retry hagain hrelated hsame ?_).of_log ?_
  · rw [hlog]
    exact hverdict
  · rw [hlog]
    exact h.log

theorem paired_pause (h : R s s') (due : Moment) (retry : Nat) :
    Paired R A s.log (s, .pending (.pause due retry)) (s', .pending (.pause due retry)) :=
  paired_of_all h trivial

theorem RetryPlan.attempts_zero (plan : RetryPlan) (begin : Session → Session × Progress)
    (retry : Nat) (s : Session) :
    plan.attempts begin 0 retry s =
      Verdict.follow (s.now + plan.timeout.nanos) retry
        (fun due s => (s, .pending (.pause due (retry + 1))))
        (plan.judge retry (s.now + plan.timeout.nanos) (begin s).1 (begin s).2) := by
  unfold attempts
  simp only
  split <;> simp only [Verdict.follow, *]

theorem RetryPlan.attempts_succ (plan : RetryPlan) (begin : Session → Session × Progress)
    (left retry : Nat) (s : Session) :
    plan.attempts begin (left + 1) retry s =
      Verdict.follow (s.now + plan.timeout.nanos) retry
        (fun due s => if due ≤ s.now then plan.attempts begin left (retry + 1) s
          else (s, .pending (.pause due (retry + 1))))
        (plan.judge retry (s.now + plan.timeout.nanos) (begin s).1 (begin s).2) := by
  rw [attempts]
  simp only
  split <;> simp only [Verdict.follow, *]

theorem RetryPlan.attempts_paired (hR : Respects R A) (plan : RetryPlan)
    {begin : Session → Session × Progress}
    (hbegin : ∀ {s s'}, R s s' → Paired R A s.log (begin s) (begin s')) (left retry : Nat)
    (h : R s s') :
    Paired R A s.log (plan.attempts begin left retry s) (plan.attempts begin left retry s') := by
  induction left generalizing retry s s' with
  | zero =>
      rw [attempts_zero, attempts_zero, hR.now h]
      exact plan.round_paired hR retry _ (hbegin h) fun due h => paired_pause h due (retry + 1)
  | succ left ih =>
      rw [attempts_succ, attempts_succ, hR.now h]
      refine plan.round_paired hR retry _ (hbegin h) fun due h => ?_
      simp only [hR.now h]
      split
      · exact ih (retry + 1) h
      · exact paired_pause h due (retry + 1)

/-! ## Calls through the cache -/

namespace FlightPoll

def after (poll : FlightPoll) : Session × Progress := (poll.session, poll.progress)

/-- Two polls through the cache are paired, and both or neither of them started to compute. -/
structure Paired (R : Session → Session → Prop) (A : List CallRecord → Answer → Prop)
    (log : List CallRecord) (poll poll' : FlightPoll) : Prop where
  polls : NearNotes.Paired R A log poll.after poll'.after
  started : poll'.started = poll.started

theorem paired_of_done (h : R s s') {a : Answer} (ha : A s.log a) (started : Bool) :
    Paired R A s.log ⟨s, .done a, started⟩ ⟨s', .done a, started⟩ :=
  ⟨paired_of_all h ha, rfl⟩

theorem paired_of_pending (h : R s s') (work : Work) (hall : work.All (A s.log)) (started : Bool) :
    Paired R A s.log ⟨s, .pending work, started⟩ ⟨s', .pending work, started⟩ :=
  ⟨paired_of_all h hall, rfl⟩

theorem Paired.of_log {poll poll' : FlightPoll} (h : Paired R A log₁ poll poll')
    (hlog : log <+: log₁) : Paired R A log poll poll' :=
  ⟨h.polls.of_log hlog, h.started⟩

theorem onProgress_paired (hflight : RespectsFlight R A text) (id : CallId) (started : Bool)
    (h : R s s') {progress : Progress} (hall : progress.All (A s.log)) :
    Paired R A s.log (onProgress id s started progress) (onProgress id s' started progress) := by
  cases progress with
  | pending work => exact paired_of_pending h (.compute id work) hall started
  | done outcome =>
      obtain ⟨hrelated, hsame, hanswer⟩ := hflight.computed h id outcome hall
      simp only [onProgress]
      generalize s.cache.computed id outcome = landed at hrelated hsame hanswer ⊢
      generalize s'.cache.computed id outcome = landed' at hrelated hsame ⊢
      obtain ⟨c, answer⟩ := landed
      obtain ⟨c', answer'⟩ := landed'
      cases hsame
      cases answer with
      | some a => exact paired_of_done (s := { s with cache := c }) hrelated (hanswer a rfl) started
      | none =>
          obtain ⟨hrelated, hsame, hanswer⟩ := hflight.settle hrelated id
          simp only at hrelated hsame hanswer ⊢
          generalize c.settle id = settled at hrelated hsame hanswer ⊢
          generalize c'.settle id = settled' at hrelated hsame ⊢
          obtain ⟨c₁, answer⟩ := settled
          obtain ⟨c₁', answer'⟩ := settled'
          cases hsame
          cases answer with
          | some a =>
              exact paired_of_done (s := { s with cache := c₁ }) hrelated (hanswer a rfl) started
          | none =>
              exact paired_of_pending (s := { s with cache := c₁ }) hrelated (.line id) trivial started

variable {compute : Session → Session × Progress} {goOn : Work → Session → Session × Progress}

theorem onTurn_paired (hflight : RespectsFlight R A text)
    (hcompute : ∀ {s s'}, R s s' → NearNotes.Paired R A s.log (compute s) (compute s')) (id : CallId)
    (h : R s s') : Paired R A s.log (onTurn compute id s) (onTurn compute id s') := by
  unfold onTurn
  rw [hflight.granted h]
  split
  · obtain ⟨hrelated, hsame, hanswer⟩ := hflight.takeUp h id
    generalize s.cache.takeUp id = taken at hrelated hsame hanswer ⊢
    generalize s'.cache.takeUp id = taken' at hrelated hsame ⊢
    obtain ⟨c, answer⟩ := taken
    obtain ⟨c', answer'⟩ := taken'
    cases hsame
    cases answer with
    | some a => exact paired_of_done (s := { s with cache := c }) hrelated (hanswer a rfl) false
    | none =>
        have hcomputed := hcompute hrelated
        simp only
        rw [hcomputed.same]
        exact (onProgress_paired hflight id true hcomputed.related hcomputed.answers).of_log
          hcomputed.log
  · exact paired_of_pending h (.line id) trivial false

theorem start_paired (hflight : RespectsFlight R A text)
    (hcompute : ∀ {s s'}, R s s' → NearNotes.Paired R A s.log (compute s) (compute s')) (h : R s s') :
    Paired R A s.log (start compute text s) (start compute text s') := by
  obtain ⟨hrelated, hsame, hanswer⟩ := hflight.begin h
  unfold start
  generalize s.cache.begin text = begun at hrelated hsame hanswer ⊢
  generalize s'.cache.begin text = begun' at hrelated hsame ⊢
  obtain ⟨c, result⟩ := begun
  obtain ⟨c', result'⟩ := begun'
  cases hsame
  cases result with
  | inl a => exact paired_of_done (s := { s with cache := c }) hrelated (hanswer a rfl) false
  | inr id => exact onTurn_paired (s := { s with cache := c }) hflight hcompute id hrelated

theorem resume_paired (hflight : RespectsFlight R A text)
    (hcompute : ∀ {s s'}, R s s' → NearNotes.Paired R A s.log (compute s) (compute s'))
    (hgoOn : ∀ {s s'} work, R s s' → work.All (A s.log) →
      NearNotes.Paired R A s.log (goOn work s) (goOn work s')) {work : Work} (h : R s s')
    (hall : work.All (A s.log)) :
    Paired R A s.log (resume compute goOn work s) (resume compute goOn work s') := by
  cases work with
  | line id => exact onTurn_paired hflight hcompute id h
  | compute id work =>
      have hwent := hgoOn work h hall
      simp only [resume]
      rw [hwent.same]
      exact (onProgress_paired hflight id false hwent.related hwent.answers).of_log hwent.log
  | answer due outcome => exact paired_of_pending h _ hall false
  | attempt limit retry work => exact paired_of_pending h _ hall false
  | pause due retry => exact paired_of_pending h _ hall false

end FlightPoll

/-! ## Providers -/

namespace Provider

variable {p : Provider}

theorem start_paired (hR : NearNotes.Respects R A) (hp : p.Respects R A text) (h : R s s') :
    Paired R A s.log (p.start text s) (p.start text s') := by
  induction p generalizing s s' with
  | source src => exact hp h
  | resilient inner plan ih => exact plan.attempts_paired hR (fun h => ih hp h) plan.maxRetries 0 h
  | cached inner ih => exact (FlightPoll.start_paired hp.2 (fun h => ih hp.1 h) h).polls

/-- What comes of the poll of an attempt is judged, and more attempts may follow. -/
theorem resume_attempt (inner : Provider) (plan : RetryPlan) (text : String) (limit : Moment)
    (retry : Nat) (work : Work) (s : Session) :
    (resilient inner plan).resume text (.attempt limit retry work) s =
      Verdict.follow limit retry
        (fun due s =>
          if due ≤ s.now then
            plan.attempts (inner.start text) (plan.maxRetries - (retry + 1)) (retry + 1) s
          else (s, .pending (.pause due (retry + 1))))
        (plan.judge retry limit (inner.resume text work s).1 (inner.resume text work s).2) := by
  rw [resume]
  simp only
  split <;> simp only [Verdict.follow, *]

theorem resume_paired (hR : NearNotes.Respects R A) (hp : p.Respects R A text) (work : Work)
    (h : R s s') (hall : work.All (A s.log)) :
    Paired R A s.log (p.resume text work s) (p.resume text work s') := by
  induction p generalizing work s s' with
  | source src =>
      cases work with
      | answer due outcome =>
          simp only [resume, hR.now h]
          split
          · exact paired_of_all h hall
          · exact paired_of_all h hall
      | attempt => exact paired_of_all h hall
      | pause => exact paired_of_all h hall
      | line => exact paired_of_all h hall
      | compute => exact paired_of_all h hall
  | resilient inner plan ih =>
      have hattempts : ∀ {s s'} left retry, R s s' →
          Paired R A s.log (plan.attempts (inner.start text) left retry s)
            (plan.attempts (inner.start text) left retry s') :=
        fun left retry h => plan.attempts_paired hR (fun h => inner.start_paired hR hp h) left retry h
      cases work with
      | attempt limit retry work =>
          rw [resume_attempt, resume_attempt]
          refine plan.round_paired hR retry limit (ih hp work h hall) fun due h => ?_
          simp only [hR.now h]
          split
          · exact hattempts _ _ h
          · exact paired_pause h due (retry + 1)
      | pause due retry =>
          simp only [resume, hR.now h]
          split
          · exact hattempts _ _ h
          · exact paired_pause h due retry
      | answer => exact paired_of_all h hall
      | line => exact paired_of_all h hall
      | compute => exact paired_of_all h hall
  | cached inner ih =>
      exact (FlightPoll.resume_paired hp.2 (fun h => inner.start_paired hR hp.1 h)
        (fun work h hall => ih hp.1 work h hall) h hall).polls

theorem fetch_paired (hR : NearNotes.Respects R A) (hp : p.Respects R A text)
    (hflight : RespectsFlight R A text) {work : Option Work} (h : R s s')
    (hall : ∀ rest, work = some rest → rest.All (A s.log)) :
    FlightPoll.Paired R A s.log (p.fetch text work s) (p.fetch text work s') := by
  cases work with
  | none => exact FlightPoll.start_paired hflight (fun h => p.start_paired hR hp h) h
  | some rest =>
      exact FlightPoll.resume_paired hflight (fun h => p.start_paired hR hp h)
        (fun work h hall => p.resume_paired hR hp work h hall) h (hall rest rfl)

end Provider

end NearNotes
