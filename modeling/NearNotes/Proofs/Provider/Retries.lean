import Mathlib
import NearNotes.Proofs.Provider.Parked
import NearNotes.Proofs.Provider.Pauses

/-!
# The retry loop

What a call comes to that is tried again, told by what the call without retries and without a time
limit comes to. This is so for every stack of layers under the retries, every plan and every session,
also where other calls are in progress and the inner call waits for a lock for ever.

* `Provider.Awaits` : what a call left alone comes to, and after how many polls;
  `Provider.bounded` : every call ends, or waits for ever, after as many polls as are allowed for;
* `Provider.AwaitsUntil` : the same under a time limit; `Awaits.until`, `AwaitsUntil.goOn` : how it
  follows from the call without a limit, and how a retried call goes on after it;
* `Attempt`, `Provider.unlimited`, `RetryPlan.limited` : an attempt without and with the time limit;
* `RetryPlan.begins`, `RetryPlan.attempt` : the session in which an attempt begins, and what it comes
  to; `exists_tries`, `once_of_inTime` : a single attempt;
* `Provider.retries_in_full` : which attempts there are, when each begins, and what the call comes to.
-/

namespace NearNotes

namespace Provider

variable {p inner : Provider} {plan : RetryPlan} {text : String} {work : Work} {s : Session}
  {polls : Nat} {after : Session × Progress} {result : Session × Option Answer} {limit : Moment}

/-! ## Calls left alone -/

/-- What a call that has come to some progress comes to if it is left alone, and after how many polls.
It is polled whenever it can go on by itself, and never ends where it cannot. -/
inductive Awaits (p : Provider) (text : String) :
    Nat → Session × Progress → Session × Option Answer → Prop
  | done {s : Session} {a : Answer} : Awaits p text 0 (s, .done a) (s, some a)
  | stuck {s : Session} {work : Work} (never : work.due? = none) :
      Awaits p text 0 (s, .pending work) (s, none)
  | poll {s : Session} {work : Work} {due : Moment} {polls : Nat} {result : Session × Option Answer}
      (next : work.due? = some due)
      (rest : Awaits p text polls (p.resume text work { s with now := max s.now due }) result) :
      Awaits p text (polls + 1) (s, .pending work) result

/-- The same under a time limit: a call that does not go on until then is dropped at the limit. -/
inductive AwaitsUntil (p : Provider) (text : String) (limit : Moment) :
    Nat → Session × Progress → Session × Option Answer → Prop
  | done {s : Session} {a : Answer} : AwaitsUntil p text limit 0 (s, .done a) (s, some a)
  | dropped {s : Session} {work : Work} (before : s.now ≤ limit)
      (late : ∀ due, work.due? = some due → limit < due)
      (idle : p.resume text work { s with now := limit } =
        ({ s with now := limit }, .pending work)) :
      AwaitsUntil p text limit 1 (s, .pending work) (work.cancel { s with now := limit }, none)
  | poll {s : Session} {work : Work} {due : Moment} {polls : Nat} {result : Session × Option Answer}
      (next : work.due? = some due) (ahead : s.now < due) (inTime : due ≤ limit)
      (rest : AwaitsUntil p text limit polls (p.resume text work { s with now := due }) result) :
      AwaitsUntil p text limit (polls + 1) (s, .pending work) result

theorem Awaits.await_eq (h : p.Awaits text polls after result) {most : Nat} (hmost : polls ≤ most) :
    p.await text most after.2 after.1 = result := by
  induction h generalizing most with
  | done => simp only [await]
  | stuck never =>
      cases most with
      | zero => simp only [await]
      | succ most => simp only [await, never]
  | poll next rest ih =>
      obtain ⟨most, rfl⟩ := Nat.exists_eq_add_of_le' (Nat.one_le_of_lt hmost)
      simp only [await, next]
      exact ih (Nat.le_of_succ_le_succ hmost)

theorem Settles.self {least : CallId} (h : p.Settles least s after) :
    p.Settles least after.1 after :=
  ⟨rfl, .refl _ _, h.parked, h.since, h.now.symm ▸ h.early⟩

theorem Settles.resume (h : p.Settles 0 s (s, .pending work)) (moment : Moment) :
    p.Settles 0 { s with now := moment } (p.resume text work { s with now := moment }) := by
  have hparked : p.Parked s.cache work := h.parked work rfl
  exact @resume_settles p work { s with now := moment } 0 hparked (h.since work rfl) text
    (Nat.zero_le _)

theorem Awaits.now_le (h : p.Awaits text polls after result) (hsettles : p.Settles 0 after.1 after) :
    after.1.now ≤ result.1.now := by
  induction h with
  | done => exact Nat.le_refl _
  | stuck never => exact Nat.le_refl _
  | @poll s work due _ _ next rest ih =>
      have hresumed := @Settles.resume p text work s hsettles (max s.now due)
      calc s.now ≤ max s.now due := Nat.le_max_left ..
        _ = (p.resume text work { s with now := max s.now due }).1.now := hresumed.now.symm
        _ ≤ _ := ih hresumed.self

/-- A call with a time limit ends as it would without if this is in time, and else it is dropped when
the time is over. It takes one more poll at most. -/
theorem Awaits.until (h : p.Awaits text polls after result) (hsettles : p.Settles 0 after.1 after)
    (hnow : after.1.now ≤ limit) :
    ∃ polls' ≤ polls + 1, ∃ result', p.AwaitsUntil text limit polls' after result' ∧
      (result.2.isSome ∧ result.1.now ≤ limit ∧ result' = result ∨
        (result.2 = none ∨ limit < result.1.now) ∧ result'.1.now = limit ∧ result'.2 = none) := by
  -- the call is dropped: it has nothing to do before the limit, nor at the limit itself
  have hdropped : ∀ {s : Session} {work : Work}, p.Settles 0 s (s, .pending work) →
      s.now ≤ limit → (∀ due, work.due? = some due → limit < due) →
      p.AwaitsUntil text limit 1 (s, .pending work)
        (work.cancel { s with now := limit }, none) := by
    intro s work hsettles hnow hlate
    refine .dropped hnow hlate (Parked.resume_early ?_ (Work.isDue_eq_false.mpr hlate))
    exact hsettles.parked work rfl
  induction h with
  | done => exact ⟨0, Nat.zero_le _, _, .done, Or.inl ⟨rfl, hnow, rfl⟩⟩
  | @stuck s work never =>
      have hlate : ∀ due, work.due? = some due → limit < due := by simp [never]
      exact ⟨1, Nat.le_refl _, _, hdropped hsettles hnow hlate,
        Or.inr ⟨Or.inl rfl, work.now_cancel _, rfl⟩⟩
  | @poll s work due polls result next rest ih =>
      have hahead := Work.isDue_eq_false.mp (hsettles.early work rfl) due next
      rw [Nat.max_eq_right hahead.le] at rest ih
      have hresumed := @Settles.resume p text work s hsettles due
      rcases Nat.lt_or_ge limit due with hlate | hinTime
      · have hend : limit < result.1.now := by
          refine hlate.trans_le ((rest.now_le hresumed.self).trans' ?_)
          exact hresumed.now.ge
        have hlater : ∀ moment, work.due? = some moment → limit < moment := by
          intro moment hmoment
          rwa [← Option.some.inj (next.symm.trans hmoment)]
        exact ⟨1, by omega, _, hdropped hsettles hnow hlater,
          Or.inr ⟨Or.inr hend, work.now_cancel _, rfl⟩⟩
      · obtain ⟨polls', hpolls, result', huntil, hresult⟩ :=
          ih hresumed.self (hresumed.now.le.trans hinTime)
        exact ⟨polls' + 1, by omega, result', .poll next hahead hinTime huntil, hresult⟩

/-! ## Attempts -/

/-- A call goes on after an attempt: when the inner call has come to its answer, or else when the
time is over. -/
theorem AwaitsUntil.goOn {polls' : Nat} {result' : Session × Option Answer} {retry : Nat}
    (h : inner.AwaitsUntil text limit polls after result)
    (hrest : (resilient inner plan).Awaits text polls'
      (plan.goOn (inner.start text) limit retry
        (result.1, .done (result.2.getD (.error plan.timeoutError)))) result') :
    ∃ total ≤ polls + polls', (resilient inner plan).Awaits text total
      (plan.goOn (inner.start text) limit retry after) result' := by
  induction h with
  | done => exact ⟨polls', by omega, hrest⟩
  | @dropped s work before late idle =>
      rcases before.lt_or_eq with hearly | rfl
      · have hnext : (Work.attempt limit retry work).due? = some limit := by
          cases hdue : work.due? with
          | none => simp only [Work.due?, hdue, earlier?]
          | some due => simp only [Work.due?, hdue, earlier?, Nat.min_eq_left (late due hdue).le]
        refine ⟨polls' + 1, by omega, ?_⟩
        rw [RetryPlan.goOn_of_early hearly]
        refine .poll hnext ?_
        rw [Nat.max_eq_right hearly.le, resume_attempt_eq_goOn, idle,
          RetryPlan.goOn_of_late (Nat.le_refl limit)]
        exact hrest
      · refine ⟨polls', by omega, ?_⟩
        rw [RetryPlan.goOn_of_late (Nat.le_refl _)]
        exact hrest
  | @poll s work due polls result next ahead inTime rest ih =>
      have hnext : (Work.attempt limit retry work).due? = some due := by
        simp only [Work.due?, next, earlier?, Nat.min_eq_right inTime]
      obtain ⟨total, htotal, hawaits⟩ := ih hrest
      refine ⟨total + 1, by omega, ?_⟩
      rw [RetryPlan.goOn_of_early (ahead.trans_le inTime)]
      refine .poll hnext ?_
      rw [Nat.max_eq_right ahead.le, resume_attempt_eq_goOn]
      exact hawaits

/-- After an attempt that was not the last one the next begins when the pause is over. -/
theorem awaits_of_not_final {retry : Nat} {e : EmbedError} (hretry : retry ≤ plan.maxRetries)
    (hfinal : ¬plan.Final retry (.error e))
    (hrest : (resilient inner plan).Awaits text polls
      (plan.attempts (inner.start text) (plan.maxRetries - (retry + 1)) (retry + 1)
        { s with now := s.now + (plan.pause retry e).nanos }) result) :
    ∃ total ≤ polls + 1, (resilient inner plan).Awaits text total
      (plan.goOn (inner.start text) limit retry (s, .done (.error e))) result := by
  rcases @RetryPlan.goOn_of_not_final plan retry limit s (inner.start text) e hretry hfinal with
    ⟨hzero, hgoOn⟩ | ⟨hpos, hgoOn⟩
  · rw [hzero] at hrest
    exact ⟨polls, Nat.le_succ _, hgoOn ▸ hrest⟩
  · refine ⟨polls + 1, Nat.le_refl _, hgoOn ▸ .poll rfl ?_⟩
    simp only [resume, Nat.max_eq_right (Nat.le_add_right _ _), Nat.le_refl, if_true]
    exact hrest

end Provider

/-! ## What attempts come to -/

structure Attempt where
  answer : Answer
  took : Nat

/-- A call with nothing beside it as an attempt without a time limit: there is none if the call waits
for ever. -/
def Provider.unlimited (p : Provider) (text : String) (s : Session) : Option Attempt :=
  (p.embed text s).2.map fun a => ⟨a, (p.embed text s).1.now - s.now⟩

namespace RetryPlan

/-- An attempt that takes too long is over when the time is, and has failed. -/
def limited (plan : RetryPlan) : Option Attempt → Attempt
  | some attempt => if attempt.took ≤ plan.timeout.nanos then attempt else tooLong
  | none => tooLong
where
  tooLong : Attempt := ⟨.error plan.timeoutError, plan.timeout.nanos⟩

def single (plan : RetryPlan) (inner : Provider) (text : String) (s : Session) : Attempt :=
  plan.limited (inner.unlimited text s)

/-- The plan with the same time limit for a single attempt. -/
def once (plan : RetryPlan) : RetryPlan := { plan with maxRetries := 0 }

/-- The session in which attempt number `j` begins: what a call with a single attempt leaves where the
one before begins, once the pause is over. -/
def begins (plan : RetryPlan) (inner : Provider) (text : String) (s : Session) : Nat → Session
  | 0 => s
  | j + 1 =>
    match (Provider.resilient inner plan.once).embed text (plan.begins inner text s j) with
    | (t, some (.error e)) => { t with now := t.now + (plan.pause j e).nanos }
    | (t, _) => t

def attempt (plan : RetryPlan) (inner : Provider) (text : String) (s : Session) (j : Nat) : Attempt :=
  plan.single inner text (plan.begins inner text s j)

variable (plan : RetryPlan)

theorem took_limited_le (attempt : Option Attempt) :
    (plan.limited attempt).took ≤ plan.timeout.nanos := by
  cases attempt with
  | none => exact Nat.le_refl _
  | some attempt =>
      simp only [limited]
      split
      · assumption
      · exact Nat.le_refl _

end RetryPlan

namespace Provider

variable {p inner : Provider} {plan : RetryPlan} {text : String} {s : Session}

/-- Every call for the text ends, or waits for ever, after as many polls as are allowed for. -/
def Bounded (p : Provider) (text : String) : Prop :=
  ∀ s, ∃ polls ≤ p.waits, ∃ result, p.Awaits text polls (p.start text s) result

theorem Bounded.embed (h : p.Bounded text) (s : Session) :
    ∃ polls ≤ p.waits, p.Awaits text polls (p.start text s) (p.embed text s) := by
  obtain ⟨polls, hpolls, result, hawaits⟩ := h s
  have hembed : p.embed text s = result := hawaits.await_eq hpolls
  exact ⟨polls, hpolls, hembed ▸ hawaits⟩

/-- How an attempt is polled, and what it leaves: in time, what the inner call does. As the only one of
a call it is all there is. -/
structure Tries (inner : Provider) (plan : RetryPlan) (text : String) (s : Session)
    (result : Session × Option Answer) : Prop where
  polled : ∃ polls ≤ inner.waits + 1,
    inner.AwaitsUntil text (s.now + plan.timeout.nanos) polls (inner.start text s) result
  answer : result.2.getD (.error plan.timeoutError) = (plan.single inner text s).answer
  now : result.1.now = s.now + (plan.single inner text s).took
  inTime : ∀ own, inner.unlimited text s = some own → own.took ≤ plan.timeout.nanos →
    result = inner.embed text s
  embed : (resilient inner plan.once).embed text s =
    (result.1, some (plan.single inner text s).answer)

/-- The result of a single attempt, if it is polled like this. -/
theorem embed_once {polls : Nat} (hpolls : polls ≤ inner.waits + 1)
    {result : Session × Option Answer}
    (h : inner.AwaitsUntil text (s.now + plan.timeout.nanos) polls (inner.start text s) result) :
    (resilient inner plan.once).embed text s =
      (result.1, some (result.2.getD (.error plan.timeoutError))) := by
  have hfinal : ∀ a, plan.once.Final 0 a := plan.once.final_maxRetries
  have hdone : (resilient inner plan.once).Awaits text 0
      (plan.once.goOn (inner.start text) (s.now + plan.timeout.nanos) 0
        (result.1, .done (result.2.getD (.error plan.timeoutError))))
      (result.1, some (result.2.getD (.error plan.timeoutError))) := by
    rw [RetryPlan.goOn_of_final (hfinal _)]
    exact .done
  obtain ⟨total, htotal, hawaits⟩ := @AwaitsUntil.goOn inner plan.once _ _ _ _ _ _ _ 0 h hdone
  have hwaits : (resilient inner plan.once).waits = inner.waits + 2 := by
    simp only [waits, RetryPlan.once, Nat.zero_add, Nat.one_mul]
  have hfirst := plan.once.attempts_eq_goOn (Nat.zero_le _) (inner.start text) s
  exact (hfirst ▸ hawaits).await_eq (by omega)

/-- An attempt comes to the same as the inner call if this ends in time, and else it fails when the
time is over. -/
theorem exists_tries (h : inner.Bounded text) (plan : RetryPlan) (s : Session) :
    ∃ result, Tries inner plan text s result := by
  obtain ⟨polls, hpolls, hawaits⟩ := h.embed s
  have hsettles := inner.start_settles text s (Nat.zero_le s.cache.nextCall)
  have hstart : (inner.start text s).1.now ≤ s.now + plan.timeout.nanos :=
    hsettles.now.le.trans (Nat.le_add_right _ _)
  have hback : s.now ≤ (inner.embed text s).1.now :=
    hsettles.now.ge.trans (hawaits.now_le hsettles.self)
  obtain ⟨polls', hpolls', result, huntil, hresult⟩ := hawaits.until hsettles.self hstart
  have hembed := embed_once (hpolls'.trans (Nat.succ_le_succ hpolls)) huntil
  have hcomes : result.2.getD (.error plan.timeoutError) = (plan.single inner text s).answer ∧
      result.1.now = s.now + (plan.single inner text s).took ∧
      ∀ own, inner.unlimited text s = some own → own.took ≤ plan.timeout.nanos →
        result = inner.embed text s := by
    unfold RetryPlan.single unlimited
    rcases hresult with ⟨hsome, hinTime, rfl⟩ | ⟨hlate, hnow, hnone⟩
    · obtain ⟨a, ha⟩ := Option.isSome_iff_exists.mp hsome
      rw [ha, Option.map_some, RetryPlan.limited, if_pos (Nat.sub_le_iff_le_add'.mpr hinTime)]
      exact ⟨rfl, (Nat.add_sub_of_le hback).symm, fun _ _ _ => rfl⟩
    · rw [hnone, hnow]
      cases hanswer : (inner.embed text s).2 with
      | none => exact ⟨rfl, rfl, fun own hown => nomatch hown⟩
      | some a =>
          have hlimit := hlate.resolve_left (by simp [hanswer])
          have hover := Nat.not_le.mpr (Nat.lt_sub_iff_add_lt'.mpr hlimit)
          rw [Option.map_some, RetryPlan.limited, if_neg hover]
          refine ⟨rfl, rfl, fun own hown htook => absurd htook ?_⟩
          rwa [← Option.some.inj hown]
  obtain ⟨hanswer, hnow, hown⟩ := hcomes
  exact ⟨result, ⟨polls', by omega, huntil⟩, hanswer, hnow, hown, hanswer ▸ hembed⟩

/-! ## The loop -/

/-- After a failed attempt the next one begins when the pause is over, in what the attempt leaves. -/
theorem Tries.begins_succ {j : Nat} {result : Session × Option Answer}
    (h : Tries inner plan text (plan.begins inner text s j) result) {e : EmbedError}
    (he : (plan.single inner text (plan.begins inner text s j)).answer = .error e) :
    plan.begins inner text s (j + 1) =
      { result.1 with now := result.1.now + (plan.pause j e).nanos } := by
  simp only [RetryPlan.begins, h.embed, he]

theorem awaits_of_last (h : inner.Bounded text) {j : Nat} (hj : j ≤ plan.maxRetries)
    (hfinal : plan.Final j (plan.single inner text s).answer) :
    ∃ polls ≤ inner.waits + 1, (resilient inner plan).Awaits text polls
      (plan.attempts (inner.start text) (plan.maxRetries - j) j s)
      ((resilient inner plan.once).embed text s) := by
  obtain ⟨result, htries⟩ := exists_tries h plan s
  obtain ⟨polls, hpolls, huntil⟩ := htries.polled
  have hdone : (resilient inner plan).Awaits text 0
      (plan.goOn (inner.start text) (s.now + plan.timeout.nanos) j
        (result.1, .done (result.2.getD (.error plan.timeoutError))))
      ((resilient inner plan.once).embed text s) := by
    rw [htries.answer, htries.embed, RetryPlan.goOn_of_final hfinal]
    exact .done
  obtain ⟨total, htotal, hawaits⟩ := huntil.goOn hdone
  rw [plan.attempts_eq_goOn hj]
  exact ⟨total, by omega, hawaits⟩

theorem awaits_of_failed (h : inner.Bounded text) {j : Nat} (hj : j ≤ plan.maxRetries)
    (hfinal : ¬plan.Final j (plan.single inner text (plan.begins inner text s j)).answer)
    {polls : Nat} {result : Session × Option Answer}
    (hrest : (resilient inner plan).Awaits text polls
      (plan.attempts (inner.start text) (plan.maxRetries - (j + 1)) (j + 1)
        (plan.begins inner text s (j + 1))) result) :
    ∃ total ≤ polls + (inner.waits + 2), (resilient inner plan).Awaits text total
      (plan.attempts (inner.start text) (plan.maxRetries - j) j (plan.begins inner text s j))
      result := by
  obtain ⟨tried, htries⟩ := exists_tries h plan (plan.begins inner text s j)
  obtain ⟨polls', hpolls', huntil⟩ := htries.polled
  obtain ⟨e, he, -⟩ := RetryPlan.exists_error_of_not_final hfinal
  rw [htries.begins_succ he] at hrest
  rw [he] at hfinal
  obtain ⟨after, hafter, hpaused⟩ := @awaits_of_not_final inner plan text tried.1 polls result
    ((plan.begins inner text s j).now + plan.timeout.nanos) j e hj hfinal hrest
  rw [← he, ← htries.answer] at hpaused
  obtain ⟨total, htotal, hawaits⟩ := huntil.goOn hpaused
  rw [plan.attempts_eq_goOn hj]
  exact ⟨total, by omega, hawaits⟩

/-- From some attempt on: if a later one is the first to be the last, the call comes to what this one
comes to, after polls for each attempt in between. -/
theorem awaits_of_isLeast (h : inner.Bounded text) {last : Nat} (hmost : last ≤ plan.maxRetries)
    (hlast : IsLeast {j | plan.Final j (plan.single inner text (plan.begins inner text s j)).answer}
      last) (gap : Nat) {j : Nat} (hj : j + gap = last) :
    ∃ polls ≤ (gap + 1) * (inner.waits + 2), (resilient inner plan).Awaits text polls
      (plan.attempts (inner.start text) (plan.maxRetries - j) j (plan.begins inner text s j))
      ((resilient inner plan.once).embed text (plan.begins inner text s last)) := by
  induction gap generalizing j with
  | zero =>
      obtain rfl : j = last := hj
      obtain ⟨polls, hpolls, hawaits⟩ := awaits_of_last h hmost hlast.1
      exact ⟨polls, by omega, hawaits⟩
  | succ gap ih =>
      have hfinal : ¬plan.Final j (plan.single inner text (plan.begins inner text s j)).answer :=
        fun hfinal => absurd (hlast.2 hfinal) (by omega)
      obtain ⟨polls, hpolls, hrest⟩ := @ih (j + 1) (by omega)
      obtain ⟨total, htotal, hawaits⟩ := awaits_of_failed h (by omega) hfinal hrest
      refine ⟨total, htotal.trans ?_, hawaits⟩
      rw [Nat.succ_mul (gap + 1)]
      exact Nat.add_le_add_right hpolls _

theorem exists_isLeast_final (plan : RetryPlan) (inner : Provider) (text : String) (s : Session) :
    ∃ last ≤ plan.maxRetries, IsLeast
      {j | plan.Final j (plan.single inner text (plan.begins inner text s j)).answer} last := by
  classical
  have hsome : ∃ j, plan.Final j (plan.single inner text (plan.begins inner text s j)).answer :=
    ⟨_, plan.final_maxRetries _⟩
  exact ⟨Nat.find hsome, Nat.find_min' hsome (plan.final_maxRetries _), Nat.find_spec hsome,
    fun j hj => Nat.find_min' hsome hj⟩

/-- A call with retries comes to what its last attempt comes to. -/
theorem awaits_resilient (h : inner.Bounded text) (plan : RetryPlan) (s : Session) {last : Nat}
    (hmost : last ≤ plan.maxRetries)
    (hlast : IsLeast {j | plan.Final j (plan.single inner text (plan.begins inner text s j)).answer}
      last) :
    ∃ polls ≤ (resilient inner plan).waits, (resilient inner plan).Awaits text polls
      ((resilient inner plan).start text s)
      ((resilient inner plan.once).embed text (plan.begins inner text s last)) := by
  obtain ⟨polls, hpolls, hawaits⟩ := @awaits_of_isLeast inner plan text s h last hmost hlast last 0
    (Nat.zero_add _)
  refine ⟨polls, hpolls.trans ?_, hawaits⟩
  exact Nat.mul_le_mul_right _ (Nat.succ_le_succ hmost)

/-- A computation for the cache is polled as it would be by itself. -/
theorem Awaits.cached {polls : Nat} {after : Session × Progress} {result : Session × Option Answer}
    (h : inner.Awaits text polls after result) (id : CallId) (started : Bool) :
    ∃ polls' ≤ polls, ∃ result', (cached inner).Awaits text polls'
      (FlightPoll.onProgress id after.1 started after.2).after result' := by
  induction h generalizing started with
  | @done s a =>
      simp only [FlightPoll.onProgress]
      generalize s.cache.computed id a = landed
      obtain ⟨c, _ | a⟩ := landed
      · simp only
        generalize c.settle id = settled
        obtain ⟨c', _ | a⟩ := settled
        · exact ⟨0, Nat.le_refl _, _, .stuck rfl⟩
        · exact ⟨0, Nat.le_refl _, _, .done⟩
      · exact ⟨0, Nat.le_refl _, _, .done⟩
  | @stuck s work never => exact ⟨0, Nat.le_refl _, _, .stuck never⟩
  | @poll s work due polls result next rest ih =>
      obtain ⟨polls', hpolls, result', hawaits⟩ := ih false
      exact ⟨polls' + 1, by omega, result', .poll next hawaits⟩

theorem Bounded.onTurn (h : inner.Bounded text) (id : CallId) (s : Session) :
    ∃ polls ≤ inner.waits, ∃ result, (cached inner).Awaits text polls
      (FlightPoll.onTurn (inner.start text) id s).after result := by
  unfold FlightPoll.onTurn
  split
  · generalize s.cache.takeUp id = taken
    obtain ⟨c, _ | a⟩ := taken
    · obtain ⟨polls, hpolls, result, hawaits⟩ := h { s with cache := c }
      obtain ⟨polls', hpolls', result', hcached⟩ := hawaits.cached id true
      exact ⟨polls', hpolls'.trans hpolls, result', hcached⟩
    · exact ⟨0, Nat.zero_le _, _, .done⟩
  · exact ⟨0, Nat.zero_le _, _, .stuck rfl⟩

theorem Bounded.cached (h : inner.Bounded text) : (cached inner).Bounded text := by
  intro s
  show ∃ polls ≤ inner.waits + 1, ∃ result, (Provider.cached inner).Awaits text polls
    (FlightPoll.start (inner.start text) text s).after result
  unfold FlightPoll.start
  generalize s.cache.begin text = begun
  obtain ⟨c, a | id⟩ := begun
  · exact ⟨0, Nat.zero_le _, _, .done⟩
  · obtain ⟨polls, hpolls, result, hawaits⟩ := h.onTurn id { s with cache := c }
    exact ⟨polls, hpolls.trans (Nat.le_succ _), result, hawaits⟩

theorem awaits_source (src : Source) (text : String) (s : Session) :
    ∃ polls ≤ 1, (source src).Awaits text polls ((source src).start text s)
      ({ src.asked text s with now := s.now + (src.reply s.log.length text).delay.nanos },
        some (src.reply s.log.length text).outcome) := by
  simp only [start, src.start_eq text s]
  by_cases hdelay : (src.reply s.log.length text).delay.nanos = 0
  · rw [if_pos hdelay, hdelay]
    exact ⟨0, Nat.zero_le _, .done⟩
  · rw [if_neg hdelay]
    refine ⟨1, Nat.le_refl _, .poll rfl ?_⟩
    have hnow : (src.asked text s).now = s.now := rfl
    rw [hnow, Nat.max_eq_right (Nat.le_add_right s.now _)]
    simp only [resume, Nat.le_refl, if_true]
    exact .done

/-- Every call on every provider ends, or waits for ever, after as many polls as are allowed for. -/
theorem bounded (p : Provider) (text : String) : p.Bounded text := by
  induction p with
  | source src =>
      intro s
      obtain ⟨polls, hpolls, hawaits⟩ := awaits_source src text s
      exact ⟨polls, hpolls, _, hawaits⟩
  | resilient inner plan ih =>
      intro s
      obtain ⟨last, hmost, hlast⟩ := exists_isLeast_final plan inner text s
      obtain ⟨polls, hpolls, hawaits⟩ := awaits_resilient ih plan s hmost hlast
      exact ⟨polls, hpolls, _, hawaits⟩
  | cached inner ih => exact ih.cached

theorem once_of_inTime (inner : Provider) (plan : RetryPlan) (text : String) (s : Session)
    {own : Attempt} (h : inner.unlimited text s = some own) (htook : own.took ≤ plan.timeout.nanos) :
    (resilient inner plan.once).embed text s = inner.embed text s := by
  obtain ⟨result, htries⟩ := exists_tries (inner.bounded text) plan s
  rw [htries.embed, htries.inTime own h htook, RetryPlan.single, h, RetryPlan.limited, if_pos htook]
  obtain ⟨a, ha, rfl⟩ := Option.map_eq_some_iff.mp h
  exact Prod.ext rfl ha.symm

/-! ## Moments -/

theorem now_begins_succ (plan : RetryPlan) (inner : Provider) (text : String) (s : Session) {j : Nat}
    {e : EmbedError} (he : (plan.attempt inner text s j).answer = .error e) :
    (plan.begins inner text s (j + 1)).now =
      (plan.begins inner text s j).now + (plan.attempt inner text s j).took +
        (plan.pause j e).nanos := by
  obtain ⟨result, htries⟩ := exists_tries (inner.bounded text) plan (plan.begins inner text s j)
  rw [htries.begins_succ he, htries.now]
  rfl

/-- Attempts that fail, and the pauses after them, take only so long. -/
theorem now_begins_le (plan : RetryPlan) (inner : Provider) (text : String) (s : Session) {j : Nat}
    (hfailed : ∀ i < j, ¬plan.Final i (plan.attempt inner text s i).answer) :
    (plan.begins inner text s j).now ≤
      s.now + j * (plan.timeout.nanos + plan.longestPause.nanos) := by
  induction j with
  | zero => simp [RetryPlan.begins]
  | succ j ih =>
      obtain ⟨e, he, -⟩ := RetryPlan.exists_error_of_not_final (hfailed j (Nat.lt_succ_self j))
      have hbefore := ih fun i hi => hfailed i (hi.trans (Nat.lt_succ_self j))
      have htook : (plan.attempt inner text s j).took ≤ plan.timeout.nanos :=
        plan.took_limited_le _
      rw [now_begins_succ plan inner text s he, Nat.succ_mul]
      calc _ ≤ s.now + j * (plan.timeout.nanos + plan.longestPause.nanos) + plan.timeout.nanos +
            plan.longestPause.nanos :=
          Nat.add_le_add (Nat.add_le_add hbefore htook) (plan.pause_le j e)
        _ = _ := by ring

/-! ## Calls on a source -/

/-- A source is asked, and the call ends when the reply comes. -/
theorem embed_source (src : Source) (text : String) (s : Session) :
    (source src).embed text s =
      ({ src.asked text s with now := s.now + (src.reply s.log.length text).delay.nanos },
        some (src.reply s.log.length text).outcome) := by
  obtain ⟨polls, hpolls, hawaits⟩ := awaits_source src text s
  exact hawaits.await_eq hpolls

theorem unlimited_source (src : Source) (text : String) (s : Session) :
    (source src).unlimited text s = some
      ⟨(src.reply s.log.length text).outcome, (src.reply s.log.length text).delay.nanos⟩ := by
  rw [unlimited, embed_source, Option.map_some, Nat.add_sub_cancel_left]

theorem resume_source (src : Source) (text : String) (work : Work) (s : Session) :
    ((source src).resume text work s).1 = s := by
  cases work with
  | answer due outcome =>
      simp only [resume]
      split <;> rfl
  | _ => rfl

theorem AwaitsUntil.log_source {src : Source} {limit : Moment} {polls : Nat}
    {after : Session × Progress} {result : Session × Option Answer}
    (h : (source src).AwaitsUntil text limit polls after result) : result.1.log = after.1.log := by
  induction h with
  | done => rfl
  | @dropped s work before late idle => exact work.log_cancel _
  | @poll s work due polls result next ahead inTime rest ih =>
      rw [ih, resume_source]

theorem Tries.log_source {src : Source} {result : Session × Option Answer}
    (h : Tries (source src) plan text s result) :
    result.1.log = s.log ++ [⟨.one text, s.now, s.cache.textsInProgress⟩] := by
  obtain ⟨polls, -, huntil⟩ := h.polled
  rw [huntil.log_source]
  simp only [start, src.start_eq text s]
  rfl

theorem log_begins (plan : RetryPlan) (src : Source) (text : String) (s : Session) (j : Nat) :
    (plan.begins (source src) text s j).log = s.log ++ (List.range j).map fun i =>
      ⟨.one text, (plan.begins (source src) text s i).now,
        (plan.begins (source src) text s i).cache.textsInProgress⟩ := by
  induction j with
  | zero => simp [RetryPlan.begins]
  | succ j ih =>
      obtain ⟨result, htries⟩ := exists_tries ((source src).bounded text) plan
        (plan.begins (source src) text s j)
      have hsucc : (plan.begins (source src) text s (j + 1)).log = result.1.log := by
        simp only [RetryPlan.begins, htries.embed]
        cases (plan.single (source src) text (plan.begins (source src) text s j)).answer <;> rfl
      rw [hsucc, htries.log_source, ih, List.range_succ, List.map_append, List.append_assoc]
      rfl

/-! ## The whole call -/

/-- The retry loop in full. A call with retries makes the attempts up to the first one that is the
last: with a vector, with an error that another attempt does not help with, or the last there may be.
It comes to what this attempt comes to, when it does. An attempt is the inner call, or a time-out if
this takes longer than the limit; one in time leaves what the inner call leaves. The next one begins
when the pause after it is over. So there are no more attempts than one and the retries, and the call
takes no longer than these and the longest pauses between them. A source is called once when each
attempt begins and not again, and its replies decide what the attempts come to. -/
theorem retries_in_full (inner : Provider) (plan : RetryPlan) (text : String) (s : Session) :
    ∃ last final,
      IsLeast {j | plan.Final j (plan.attempt inner text s j).answer} last ∧
      last ≤ plan.maxRetries ∧
      (resilient inner plan).embed text s =
        (final, some (plan.attempt inner text s last).answer) ∧
      final.now = (plan.begins inner text s last).now + (plan.attempt inner text s last).took ∧
      (∀ j own, inner.unlimited text (plan.begins inner text s j) = some own →
        own.took ≤ plan.timeout.nanos →
        (resilient inner plan.once).embed text (plan.begins inner text s j) =
          inner.embed text (plan.begins inner text s j)) ∧
      (∀ j < last, ∃ e, (plan.attempt inner text s j).answer = .error e ∧
        (plan.begins inner text s (j + 1)).now =
          (plan.begins inner text s j).now + (plan.attempt inner text s j).took +
            (plan.pause j e).nanos) ∧
      final.now ≤ s.now + (plan.maxRetries + 1) * plan.timeout.nanos +
        plan.maxRetries * plan.longestPause.nanos ∧
      ∀ src, inner = source src →
        (∀ j, plan.attempt inner text s j = plan.limited (some
          ⟨(src.reply (s.log.length + j) text).outcome,
            (src.reply (s.log.length + j) text).delay.nanos⟩)) ∧
        final.log = s.log ++ (List.range (last + 1)).map fun j =>
          ⟨.one text, (plan.begins inner text s j).now,
            (plan.begins inner text s j).cache.textsInProgress⟩ := by
  obtain ⟨last, hmost, hlast⟩ := exists_isLeast_final plan inner text s
  obtain ⟨polls, hpolls, hawaits⟩ := awaits_resilient (inner.bounded text) plan s hmost hlast
  obtain ⟨result, htries⟩ := exists_tries (inner.bounded text) plan (plan.begins inner text s last)
  have hfailed : ∀ j < last, ¬plan.Final j (plan.attempt inner text s j).answer :=
    fun j hj hfinal => absurd (hlast.2 hfinal) (Nat.not_le.mpr hj)
  refine ⟨last, result.1, hlast, hmost, (hawaits.await_eq hpolls).trans htries.embed, htries.now,
    fun j own => once_of_inTime inner plan text _, fun j hj => ?_, ?_, ?_⟩
  · obtain ⟨e, he, -⟩ := RetryPlan.exists_error_of_not_final (hfailed j hj)
    exact ⟨e, he, now_begins_succ plan inner text s he⟩
  · have htook : (plan.attempt inner text s last).took ≤ plan.timeout.nanos :=
      plan.took_limited_le _
    calc result.1.now
        = (plan.begins inner text s last).now + (plan.attempt inner text s last).took := htries.now
      _ ≤ s.now + last * (plan.timeout.nanos + plan.longestPause.nanos) + plan.timeout.nanos :=
          Nat.add_le_add (now_begins_le plan inner text s hfailed) htook
      _ ≤ s.now + plan.maxRetries * (plan.timeout.nanos + plan.longestPause.nanos) +
            plan.timeout.nanos := by gcongr
      _ = _ := by ring
  · rintro src rfl
    refine ⟨fun j => ?_, ?_⟩
    · rw [RetryPlan.attempt, RetryPlan.single, unlimited_source, log_begins, List.length_append,
        List.length_map, List.length_range]
    · rw [htries.log_source, log_begins, List.range_succ, List.map_append, List.append_assoc]
      rfl

/-- A source that fails, then takes too long for a limit of 200 milliseconds, and then just does not. -/
def faltering : Source where
  name := "faltering"
  model := "none"
  dimension := 0
  reply := fun earlier _ =>
    match earlier with
    | 0 => { delay := .ofMillis 10, outcome := .error (.apiRequest 503 "unavailable") }
    | 1 => { delay := .ofMillis 201, outcome := .ok [] }
    | _ => { delay := .ofMillis 200, outcome := .ok [] }

def hasty : RetryPlan :=
  { timeout := .ofMillis 200, firstPause := .ofMillis 1, longestPause := .ofMillis 5 }

example :
    let (s, answer) := (resilient (source faltering) hasty).embed "note" {}
    s.now = 413000000 ∧ s.log.map CallRecord.moment = [0, 11000000, 213000000] ∧
      answer = some (.ok []) := by
  cbv

end Provider

end NearNotes
