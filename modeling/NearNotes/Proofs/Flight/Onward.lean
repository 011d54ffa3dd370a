import Mathlib
import NearNotes.Proofs.Flight.Agreement
import NearNotes.Proofs.Flight.Single
import NearNotes.Provider.Work

/-!
# What polls do to a cache

Whatever provider is polled, with its own layers, retries, time limits and other writers:

* `Cache.Onward` : rows come and stay, and every call is a new one or has the text it had;
* `Provider.start_onward`, `Provider.resume_onward`, `Work.cancel_onward` : polls and drops are
  such steps;
* `Cache.Tagged` : a call number that stands for one text for ever;
* `FlightPoll.Serves`, `Provider.fetch_serves` : a poll through the cache that ends with a vector
  leaves it in the row of the text.
-/

namespace NearNotes

namespace Cache

/-- From one cache to a later one: rows come and stay, and every call is a new one or has the text
that it had. -/
structure Onward (c c' : Cache) : Prop where
  grows : c.database.Grows c'.database
  later : c.nextCall ≤ c'.nextCall
  calls : ∀ call' ∈ c'.calls, (∃ call ∈ c.calls, call.id = call'.id ∧ call.text = call'.text) ∨
    (c.nextCall ≤ call'.id ∧ call'.id < c'.nextCall)

theorem Onward.refl (c : Cache) : Onward c c :=
  ⟨.refl _, Nat.le_refl _, fun call hcall => Or.inl ⟨call, hcall, rfl, rfl⟩⟩

theorem Onward.trans {c₁ c₂ c₃ : Cache} (h : Onward c₁ c₂) (h' : Onward c₂ c₃) :
    Onward c₁ c₃ := by
  refine ⟨h.grows.trans h'.grows, h.later.trans h'.later, fun call₃ hcall₃ => ?_⟩
  rcases h'.calls call₃ hcall₃ with ⟨call₂, hcall₂, hid, htext⟩ | ⟨hnew, hbound⟩
  · rcases h.calls call₂ hcall₂ with ⟨call₁, hcall₁, hid', htext'⟩ | ⟨hnew, hbound⟩
    · exact Or.inl ⟨call₁, hcall₁, hid'.trans hid, htext'.trans htext⟩
    · exact Or.inr ⟨hid ▸ hnew, (hid ▸ hbound).trans_le h'.later⟩
  · exact Or.inr ⟨h.later.trans hnew, hbound⟩

theorem Onward.of_calls_eq {c c' : Cache} (hgrows : c.database.Grows c'.database)
    (hnext : c'.nextCall = c.nextCall) (hcalls : c'.calls = c.calls) : Onward c c' :=
  ⟨hgrows, hnext.ge, fun call hcall => Or.inl ⟨call, hcalls ▸ hcall, rfl, rfl⟩⟩

theorem finish_onward (c : Cache) (id : CallId) : Onward c (c.finish id) := by
  unfold finish
  split
  · exact .refl c
  · exact ⟨.refl _, Nat.le_refl _, fun call hcall =>
      Or.inl ⟨call, (List.mem_filter.mp hcall).1, rfl, rfl⟩⟩

theorem setPhase_onward (c : Cache) (id : CallId) (phase : Phase) :
    Onward c (c.setPhase id phase) := by
  refine ⟨.refl _, Nat.le_refl _, fun call' hcall' => ?_⟩
  obtain ⟨call, hcall, rfl⟩ := List.mem_map.mp hcall'
  refine Or.inl ⟨call, hcall, ?_⟩
  split
  · exact ⟨rfl, rfl⟩
  · exact ⟨rfl, rfl⟩

theorem nextCall_lockFor (c : Cache) (text : String) :
    (c.lockFor text).1.nextCall = c.nextCall := by
  unfold lockFor
  split <;> rfl

theorem enqueue_id (c : Cache) (text : String) : (c.enqueue text).2 = c.nextCall :=
  nextCall_lockFor c text

theorem nextCall_enqueue (c : Cache) (text : String) :
    (c.enqueue text).1.nextCall = c.nextCall + 1 :=
  congrArg (· + 1) (nextCall_lockFor c text)

theorem granted_lockFor (c : Cache) (text : String) : (c.lockFor text).1.granted = c.granted := by
  unfold lockFor
  split <;> rfl

theorem granted_enqueue (c : Cache) (text : String) :
    c.granted <+: (c.enqueue text).1.granted := by
  rw [← granted_lockFor c text]
  simp only [enqueue]
  split
  · exact List.prefix_append _ _
  · exact List.prefix_refl _

theorem enqueue_onward (c : Cache) (text : String) : Onward c (c.enqueue text).1 := by
  refine ⟨database_enqueue c text ▸ .refl _, ?_, fun call hcall => ?_⟩
  · rw [nextCall_enqueue]
    exact Nat.le_succ _
  · rw [calls_enqueue] at hcall
    rcases List.mem_append.mp hcall with hold | hlast
    · exact Or.inl ⟨call, hold, rfl, rfl⟩
    · right
      rw [List.mem_singleton.mp hlast, nextCall_enqueue, nextCall_lockFor]
      exact ⟨Nat.le_refl _, Nat.lt_succ_self _⟩

theorem begin_onward (c : Cache) (text : String) : Onward c (c.begin text).1 := by
  unfold begin
  split
  · exact .refl c
  · exact .of_calls_eq (.refl _) rfl rfl
  · exact enqueue_onward c text

theorem takeUp_onward (c : Cache) (id : CallId) : Onward c (c.takeUp id).1 := by
  cases hcall : c.call? id with
  | none =>
      unfold takeUp
      rw [hcall]
      exact .refl c
  | some call =>
      rw [takeUp_eq hcall]
      split
      · refine Onward.trans ?_ (finish_onward _ id)
        exact .of_calls_eq (.refl _) rfl rfl
      · refine Onward.trans ?_ (finish_onward _ id)
        exact .of_calls_eq (.refl _) rfl rfl
      · refine Onward.trans ?_ (setPhase_onward _ id .computing)
        exact .of_calls_eq (.refl _) rfl rfl

theorem computed_onward (c : Cache) (id : CallId) (outcome : Answer) :
    Onward c (c.computed id outcome).1 := by
  unfold computed
  split
  · exact finish_onward c id
  · split
    · exact finish_onward c id
    · exact setPhase_onward c id _

theorem settle_onward (c : Cache) (id : CallId) (refusal : Option String) :
    Onward c (c.settle id refusal).1 := by
  unfold settle
  split
  · rename_i text lock v _
    obtain ⟨db, hdb, hgrows⟩ := offer_grows c text v refusal
    simp only [hdb]
    have hstored : Onward c { c with database := db } := .of_calls_eq hgrows rfl rfl
    exact hstored.trans (finish_onward _ _)
  · exact .refl c

theorem rival_onward (c : Cache) (text : String) (cell : Cell) :
    Onward c (c.apply (.rival text cell)) := by
  unfold apply
  rw [if_pos (show c.enabled (.rival text cell) = true from rfl)]
  simp only
  split
  · rename_i hinsert
    exact .of_calls_eq (Database.insert_grows hinsert) rfl rfl
  · exact .refl c

end Cache

open Cache

/-! ## Polls -/

theorem Work.cancel_onward (work : Work) (s : Session) : s.cache.Onward (work.cancel s).cache := by
  induction work generalizing s with
  | answer due outcome => exact .refl _
  | attempt limit retry work ih => exact ih s
  | pause due retry => exact .refl _
  | line id => exact finish_onward _ id
  | compute id work ih => exact (ih s).trans (finish_onward _ id)

theorem Source.start_onward (source : Source) (text : String) (s : Session) :
    s.cache.Onward (source.start text s).1.cache := by
  unfold Source.start
  simp only
  cases (source.reply s.log.length text).rival with
  | none =>
      split
      · exact .refl _
      · exact .refl _
  | some cell =>
      split
      · exact rival_onward _ text cell
      · exact rival_onward _ text cell

theorem RetryPlan.judge_onward (plan : RetryPlan) (retry : Nat) (limit : Moment) (s : Session)
    (progress : Progress) : s.cache.Onward (plan.judge retry limit s progress).1.cache := by
  unfold judge
  split
  · split
    · exact Work.cancel_onward _ s
    · exact .refl _
  · exact .refl _
  · exact .refl _

theorem RetryPlan.attempts_onward (plan : RetryPlan) {begin : Session → Session × Progress}
    (hbegin : ∀ s : Session, s.cache.Onward (begin s).1.cache) (left retry : Nat) (s : Session) :
    s.cache.Onward (plan.attempts begin left retry s).1.cache := by
  induction left generalizing retry s with
  | zero =>
      have hjudge := (hbegin s).trans
        (plan.judge_onward retry (s.now + plan.timeout.nanos) (begin s).1 (begin s).2)
      unfold attempts
      simp only
      generalize plan.judge retry (s.now + plan.timeout.nanos) (begin s).1 (begin s).2 = judged
        at hjudge ⊢
      obtain ⟨s₁, a | work | due⟩ := judged <;> exact hjudge
  | succ left ih =>
      have hjudge := (hbegin s).trans
        (plan.judge_onward retry (s.now + plan.timeout.nanos) (begin s).1 (begin s).2)
      unfold attempts
      simp only
      generalize plan.judge retry (s.now + plan.timeout.nanos) (begin s).1 (begin s).2 = judged
        at hjudge ⊢
      obtain ⟨s₁, a | work | due⟩ := judged
      · exact hjudge
      · exact hjudge
      · simp only
        split
        · exact hjudge.trans (ih (retry + 1) s₁)
        · exact hjudge

namespace FlightPoll

variable {compute : Session → Session × Progress} {goOn : Work → Session → Session × Progress}

theorem onProgress_onward (id : CallId) (s : Session) (started : Bool) (progress : Progress) :
    s.cache.Onward (onProgress id s started progress).session.cache := by
  cases progress with
  | pending work => exact .refl _
  | done outcome =>
      have hcomputed := computed_onward s.cache id outcome
      simp only [onProgress]
      generalize s.cache.computed id outcome = landed at hcomputed ⊢
      obtain ⟨c, _ | a⟩ := landed
      · have hsettle := settle_onward c id none
        simp only
        generalize c.settle id = settled at hsettle ⊢
        obtain ⟨c', _ | a⟩ := settled <;> exact hcomputed.trans hsettle
      · exact hcomputed

theorem onTurn_onward (hcompute : ∀ s : Session, s.cache.Onward (compute s).1.cache) (id : CallId)
    (s : Session) : s.cache.Onward (onTurn compute id s).session.cache := by
  unfold onTurn
  split
  · have htakeUp := takeUp_onward s.cache id
    generalize s.cache.takeUp id = taken at htakeUp ⊢
    obtain ⟨c, _ | a⟩ := taken
    · exact htakeUp.trans ((hcompute { s with cache := c }).trans (onProgress_onward id _ true _))
    · exact htakeUp
  · exact .refl _

theorem start_onward (hcompute : ∀ s : Session, s.cache.Onward (compute s).1.cache) (text : String)
    (s : Session) : s.cache.Onward (start compute text s).session.cache := by
  have hbegin := begin_onward s.cache text
  unfold start
  generalize s.cache.begin text = begun at hbegin ⊢
  obtain ⟨c, a | id⟩ := begun
  · exact hbegin
  · exact hbegin.trans (onTurn_onward hcompute id { s with cache := c })

theorem resume_onward (hcompute : ∀ s : Session, s.cache.Onward (compute s).1.cache)
    (hgoOn : ∀ (work : Work) (s : Session), s.cache.Onward (goOn work s).1.cache) (work : Work)
    (s : Session) : s.cache.Onward (resume compute goOn work s).session.cache := by
  unfold resume
  split
  · exact onTurn_onward hcompute _ s
  · exact (hgoOn _ s).trans (onProgress_onward _ _ false _)
  · exact .refl _

end FlightPoll

namespace Provider

theorem start_onward (p : Provider) (text : String) (s : Session) :
    s.cache.Onward (p.start text s).1.cache := by
  induction p generalizing s with
  | source source => exact source.start_onward text s
  | resilient inner plan ih => exact plan.attempts_onward ih plan.maxRetries 0 s
  | cached inner ih => exact FlightPoll.start_onward ih text s

theorem resume_onward (p : Provider) (text : String) (work : Work) (s : Session) :
    s.cache.Onward (p.resume text work s).1.cache := by
  induction p generalizing work s with
  | source source =>
      cases work with
      | answer due outcome =>
          simp only [resume]
          split <;> exact .refl _
      | _ => exact .refl _
  | resilient inner plan ih =>
      have hattempts := plan.attempts_onward (inner.start_onward text)
      cases work with
      | attempt limit retry work =>
          have hjudge := (ih work s).trans (plan.judge_onward retry limit
            (inner.resume text work s).1 (inner.resume text work s).2)
          simp only [resume]
          generalize plan.judge retry limit (inner.resume text work s).1
            (inner.resume text work s).2 = judged at hjudge ⊢
          obtain ⟨s₁, a | work | due⟩ := judged
          · exact hjudge
          · exact hjudge
          · simp only
            split
            · exact hjudge.trans (hattempts _ _ s₁)
            · exact hjudge
      | pause due retry =>
          simp only [resume]
          split
          · exact hattempts _ _ s
          · exact .refl _
      | answer due outcome => exact .refl _
      | line id => exact .refl _
      | compute id work => exact .refl _
  | cached inner ih => exact FlightPoll.resume_onward (inner.start_onward text) ih work s

theorem fetch_onward (p : Provider) (text : String) (work : Option Work) (s : Session) :
    s.cache.Onward (p.fetch text work s).session.cache := by
  cases work with
  | none => exact FlightPoll.start_onward (p.start_onward text) text s
  | some work =>
      exact FlightPoll.resume_onward (p.start_onward text) (p.resume_onward text) work s

end Provider

/-! ## Answers -/

/-- A call number stands for a text: whatever call has it is for this text, now and later. -/
def Cache.Tagged (c : Cache) (id : CallId) (text : String) : Prop :=
  id < c.nextCall ∧ ∀ call ∈ c.calls, call.id = id → call.text = text

theorem Cache.Tagged.onward {c c' : Cache} {id : CallId} {text : String} (h : c.Tagged id text)
    (honward : c.Onward c') : c'.Tagged id text := by
  refine ⟨h.1.trans_le honward.later, fun call' hcall' hid => ?_⟩
  rcases honward.calls call' hcall' with ⟨call, hcall, hsame, htext⟩ | ⟨hnew, -⟩
  · rw [← htext]
    exact h.2 call hcall (hsame.trans hid)
  · exact absurd (hid ▸ hnew) (Nat.not_le.mpr h.1)

theorem Cache.Tagged.text_eq {c : Cache} {id : CallId} {text : String} (h : c.Tagged id text)
    {call : Call} (hcall : c.call? id = some call) : call.text = text := by
  obtain ⟨hmem, hid⟩ := call?_eq_some hcall
  exact h.2 call hmem hid

theorem Cache.tagged_enqueue {c : Cache} (hbound : ∀ call ∈ c.calls, call.id < c.nextCall)
    (text : String) : (c.enqueue text).1.Tagged (c.enqueue text).2 text := by
  refine ⟨?_, fun call hcall hid => ?_⟩
  · rw [enqueue_id, nextCall_enqueue]
    exact Nat.lt_succ_self _
  · rw [calls_enqueue] at hcall
    rcases List.mem_append.mp hcall with hold | hlast
    · rw [enqueue_id] at hid
      exact absurd hid (Nat.ne_of_lt (hbound call hold))
    · rw [List.mem_singleton.mp hlast]

/-- The number of the call through the cache that work is the rest of. -/
def Work.ticket? : Work → Option CallId
  | .line id => some id
  | .compute id _ => some id
  | .answer .. | .attempt .. | .pause .. => none

/-- What a poll through the cache for a text comes to: a vector is in the row of the text, and
unfinished work goes on under the number of a call for this text. -/
structure FlightPoll.Serves (poll : FlightPoll) (text : String) : Prop where
  stored : ∀ v, poll.progress = .done (.ok v) → poll.session.cache.read text = .ok (some v)
  tagged : ∀ work, poll.progress = .pending work → ∀ id, work.ticket? = some id →
    poll.session.cache.Tagged id text

namespace FlightPoll

variable {compute : Session → Session × Progress} {goOn : Work → Session → Session × Progress}
  {text : String}

theorem serves_of_pending {s : Session} {work : Work} {started : Bool}
    (h : ∀ id, work.ticket? = some id → s.cache.Tagged id text) :
    Serves ⟨s, .pending work, started⟩ text := by
  constructor
  · intro v hv
    cases hv
  · intro work' heq
    cases heq
    exact h

theorem serves_of_ticket {s : Session} {id : CallId} {work : Work} {started : Bool}
    (h : s.cache.Tagged id text) (hwork : work.ticket? = some id) :
    Serves ⟨s, .pending work, started⟩ text := by
  refine serves_of_pending fun id' hid' => ?_
  rw [hwork] at hid'
  cases hid'
  exact h

theorem serves_of_done {s : Session} {a : Answer} {started : Bool}
    (h : ∀ v, a = .ok v → s.cache.read text = .ok (some v)) :
    Serves ⟨s, .done a, started⟩ text :=
  ⟨fun v hv => h v (Progress.done.inj hv), fun work heq => by cases heq⟩

theorem onProgress_serves {id : CallId} {s : Session} (h : s.cache.Tagged id text)
    (started : Bool) (progress : Progress) : Serves (onProgress id s started progress) text := by
  cases progress with
  | pending work => exact serves_of_ticket h rfl
  | done outcome =>
      have hcomputed := computed_onward s.cache id outcome
      have hanswer := computed_answer s.cache id outcome
      simp only [onProgress]
      generalize s.cache.computed id outcome = landed at hcomputed hanswer ⊢
      obtain ⟨c, _ | a⟩ := landed
      · have htag : c.Tagged id text := h.onward hcomputed
        have hsettle := settle_onward c id none
        have hsettled : ∀ v, (c.settle id).2 = some (.ok v) →
            (c.settle id).1.read text = .ok (some v) := by
          intro v hv
          cases hcall : c.call? id with
          | none => simp [settle, hcall] at hv
          | some call =>
              rw [← htag.text_eq hcall]
              exact settle_answer hcall hv
        simp only
        generalize c.settle id = settled at hsettle hsettled ⊢
        obtain ⟨c', _ | a⟩ := settled
        · exact serves_of_ticket (htag.onward hsettle) rfl
        · exact serves_of_done fun v hv => hsettled v (congrArg some hv)
      · exact serves_of_done fun v hv => absurd (congrArg some hv) (hanswer v)

theorem onTurn_serves (hcompute : ∀ s : Session, s.cache.Onward (compute s).1.cache)
    {id : CallId} {s : Session} (h : s.cache.Tagged id text) :
    Serves (onTurn compute id s) text := by
  unfold onTurn
  split
  · have htakeUp := takeUp_onward s.cache id
    have hanswer : ∀ v, (s.cache.takeUp id).2 = some (.ok v) →
        (s.cache.takeUp id).1.read text = .ok (some v) := by
      intro v hv
      rw [read_congr (database_takeUp s.cache id)]
      cases hcall : s.cache.call? id with
      | none => simp [takeUp, hcall] at hv
      | some call =>
          rw [← h.text_eq hcall]
          exact takeUp_answer hcall hv
    generalize s.cache.takeUp id = taken at htakeUp hanswer ⊢
    obtain ⟨c, _ | a⟩ := taken
    · exact onProgress_serves (h.onward (htakeUp.trans (hcompute { s with cache := c }))) true _
    · exact serves_of_done fun v hv => hanswer v (congrArg some hv)
  · exact serves_of_ticket h rfl

theorem start_serves (hcompute : ∀ s : Session, s.cache.Onward (compute s).1.cache) {s : Session}
    (hbound : ∀ call ∈ s.cache.calls, call.id < s.cache.nextCall) :
    Serves (start compute text s) text := by
  unfold start begin
  cases hread : s.cache.read text with
  | error e => exact serves_of_done fun v hv => by cases hv
  | ok found =>
      cases found with
      | some v =>
          refine serves_of_done fun w hw => ?_
          cases hw
          exact hread
      | none => exact onTurn_serves hcompute (tagged_enqueue hbound text)

theorem resume_serves (hcompute : ∀ s : Session, s.cache.Onward (compute s).1.cache)
    (hgoOn : ∀ (work : Work) (s : Session), s.cache.Onward (goOn work s).1.cache) {work : Work}
    {s : Session} (h : ∀ id, work.ticket? = some id → s.cache.Tagged id text) :
    Serves (resume compute goOn work s) text := by
  unfold resume
  split
  · exact onTurn_serves hcompute (h _ rfl)
  · exact onProgress_serves ((h _ rfl).onward (hgoOn _ s)) false _
  · exact serves_of_pending h

end FlightPoll

theorem Provider.fetch_serves (p : Provider) {text : String} {work : Option Work} {s : Session}
    (hbound : ∀ call ∈ s.cache.calls, call.id < s.cache.nextCall)
    (h : ∀ rest, work = some rest → ∀ id, rest.ticket? = some id → s.cache.Tagged id text) :
    (p.fetch text work s).Serves text := by
  cases work with
  | none => exact FlightPoll.start_serves (p.start_onward text) hbound
  | some rest =>
      exact FlightPoll.resume_serves (p.start_onward text) (p.resume_onward text) (h rest rfl)

end NearNotes
