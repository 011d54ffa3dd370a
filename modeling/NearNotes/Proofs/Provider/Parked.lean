import Mathlib
import NearNotes.Proofs.Flight.Turn
import NearNotes.Proofs.Provider.Paired

/-!
# What an unfinished call waits for

A poll goes as far as it can at its moment. So what it leaves waits for a later moment or for a lock,
and to poll it before does nothing. This is so for every stack of layers and every session, also one
where other calls are in progress.

* `Cache.Knows`, `Cache.Keeps` : a call in progress, and steps that leave those below a number there;
* `Work.Since` : the calls through the cache that the work is made of have numbers from some one on,
  and the inner ones are the later ones;
* `RetryPlan.Final`, `RetryPlan.goOn` : the last attempt, and how a call goes on after an attempt;
* `Provider.Parked` : work that a poll may leave; `Parked.resume_early` : to poll it too early does
  nothing;
* `Provider.Settles` : a poll takes no time and leaves such work, which is not due yet;
  `Provider.start_settles`, `Provider.resume_settles` : so it is for every poll of a call.
-/

namespace NearNotes

/-! ## Calls that stay -/

namespace Cache

variable {c c' : Cache} {id least : CallId}

/-- The number is that of a call in progress. -/
def Knows (c : Cache) (id : CallId) : Prop := ∃ call ∈ c.calls, call.id = id

/-- From one cache to a later one, where the calls in progress below a number have not ended. -/
structure Keeps (least : CallId) (c c' : Cache) : Prop where
  later : c.nextCall ≤ c'.nextCall
  known : ∀ id < least, c.Knows id → c'.Knows id

theorem Keeps.refl (least : CallId) (c : Cache) : Keeps least c c := ⟨Nat.le_refl _, fun _ _ h => h⟩

theorem Keeps.trans {c₁ c₂ c₃ : Cache} (h : Keeps least c₁ c₂) (h' : Keeps least c₂ c₃) :
    Keeps least c₁ c₃ :=
  ⟨h.later.trans h'.later, fun id hless hid => h'.known id hless (h.known id hless hid)⟩

theorem Keeps.mono {more : CallId} (h : Keeps more c c') (hle : least ≤ more) : Keeps least c c' :=
  ⟨h.later, fun id hless hid => h.known id (hless.trans_le hle) hid⟩

theorem Keeps.of_calls_eq (hlater : c.nextCall ≤ c'.nextCall) (hcalls : c'.calls = c.calls) :
    Keeps least c c' :=
  ⟨hlater, fun id _ h => by rwa [Knows, hcalls]⟩

theorem Knows.call? (h : c.Knows id) : ∃ call, c.call? id = some call ∧ call.id = id := by
  obtain ⟨known, hmem, hid⟩ := h
  have hfound : (c.call? id).isSome := List.find?_isSome.mpr ⟨known, hmem, by simpa using hid⟩
  obtain ⟨call, hcall⟩ := Option.isSome_iff_exists.mp hfound
  exact ⟨call, hcall, (call?_eq_some hcall).2⟩

theorem keeps_finish (c : Cache) (h : least ≤ id) : Keeps least c (c.finish id) := by
  refine ⟨(finish_onward c id).later, fun other hless ⟨call, hcall, hother⟩ => ⟨call, ?_, hother⟩⟩
  unfold finish
  split
  · exact hcall
  · have hne : call.id ≠ id := by
      rw [hother]
      exact (hless.trans_le h).ne
    exact List.mem_filter.mpr ⟨hcall, by simpa using hne⟩

theorem keeps_setPhase (least : CallId) (c : Cache) (id : CallId) (phase : Phase) :
    Keeps least c (c.setPhase id phase) := by
  refine ⟨Nat.le_refl _, fun other _ ⟨call, hcall, hother⟩ =>
    ⟨_, List.mem_map.mpr ⟨call, hcall, rfl⟩, ?_⟩⟩
  split
  · exact hother
  · exact hother

theorem keeps_enqueue (least : CallId) (c : Cache) (text : String) :
    Keeps least c (c.enqueue text).1 := by
  refine ⟨(enqueue_onward c text).later, fun other _ ⟨call, hcall, hother⟩ => ⟨call, ?_, hother⟩⟩
  rw [calls_enqueue]
  exact List.mem_append_left _ hcall

theorem knows_enqueue (c : Cache) (text : String) :
    (c.enqueue text).1.Knows (c.enqueue text).2 := by
  rw [Knows, calls_enqueue]
  exact ⟨_, List.mem_append_right _ (List.mem_singleton_self _), rfl⟩

theorem keeps_finish_of_calls_eq (hlater : c.nextCall ≤ c'.nextCall) (hcalls : c'.calls = c.calls)
    (h : least ≤ id) : Keeps least c (c'.finish id) :=
  (Keeps.of_calls_eq hlater hcalls).trans (keeps_finish c' h)

/-- The second look of a call in progress: it is answered, or still in progress. -/
theorem keeps_takeUp (hknows : c.Knows id) (h : least ≤ id) :
    Keeps least c (c.takeUp id).1 ∧ ((c.takeUp id).2 = none → (c.takeUp id).1.Knows id) := by
  have hsame : c.nextCall ≤ c.nextCall := Nat.le_refl _
  obtain ⟨call, hcall, -⟩ := hknows.call?
  rw [takeUp_eq hcall]
  split
  · exact ⟨keeps_finish_of_calls_eq hsame rfl h, fun hnone => nomatch hnone⟩
  · exact ⟨keeps_finish_of_calls_eq hsame rfl h, fun hnone => nomatch hnone⟩
  · have hphase : Keeps (max least (id + 1)) c
        (({ c with granted := c.granted.erase id, misses := c.misses + 1 } : Cache).setPhase id
          .computing) := by
      refine Keeps.trans (.of_calls_eq ?_ ?_) (keeps_setPhase _ _ id .computing)
      · exact hsame
      · rfl
    exact ⟨hphase.mono (Nat.le_max_left ..), fun _ =>
      hphase.known id ((Nat.lt_succ_self id).trans_le (Nat.le_max_right ..)) hknows⟩

theorem keeps_rival (least : CallId) (c : Cache) (text : String) (cell : Cell) :
    Keeps least c (c.apply (.rival text cell)) := by
  refine .of_calls_eq (rival_onward c text cell).later ?_
  unfold apply
  rw [if_pos (show c.enabled (.rival text cell) = true from rfl)]
  simp only
  split <;> rfl

end Cache

open Cache

namespace Work

/-- The work's calls through the cache have numbers from `least` on, inner ones later ones. -/
def Since (least : CallId) : Work → Prop
  | answer .. | pause .. => True
  | attempt _ _ work => work.Since least
  | line id => least ≤ id
  | compute id work => least ≤ id ∧ work.Since (id + 1)

theorem Since.mono {least more : CallId} {work : Work} (h : work.Since more) (hle : least ≤ more) :
    work.Since least := by
  induction work generalizing least more with
  | answer => trivial
  | attempt limit retry work ih => exact ih h hle
  | pause => trivial
  | line id => exact hle.trans h
  | compute id work => exact ⟨hle.trans h.1, h.2⟩

theorem Since.cancel {least : CallId} {work : Work} (h : work.Since least) (s : Session) :
    Keeps least s.cache (work.cancel s).cache := by
  induction work generalizing s with
  | answer => exact .refl _ _
  | attempt limit retry work ih => exact ih h s
  | pause => exact .refl _ _
  | line id => exact keeps_finish _ h
  | compute id work ih =>
      exact (ih (h.2.mono (h.1.trans (Nat.le_succ id))) s).trans (keeps_finish _ h.1)

theorem now_cancel (work : Work) (s : Session) : (work.cancel s).now = s.now := by
  induction work generalizing s with
  | answer => rfl
  | attempt limit retry work ih => exact ih s
  | pause => rfl
  | line id => rfl
  | compute id work ih => exact ih s

theorem isDue_eq_false {work : Work} {now : Moment} :
    work.isDue now = false ↔ ∀ due, work.due? = some due → now < due := by
  cases hdue : work.due? with
  | none => simp [isDue, hdue]
  | some due => simp [isDue, hdue]

theorem isDue_of_lt {work : Work} {now due : Moment} (hdue : work.due? = some due) (h : now < due) :
    work.isDue now = false := by
  refine isDue_eq_false.mpr fun moment hmoment => ?_
  rwa [← Option.some.inj (hdue.symm.trans hmoment)]

/-- An attempt goes on when its work does, and at its limit. -/
theorem isDue_attempt {limit : Moment} {retry : Nat} {work : Work} {now : Moment} :
    (attempt limit retry work).isDue now = false ↔ now < limit ∧ work.isDue now = false := by
  cases hdue : work.due? with
  | none => simp [isDue, due?, hdue, earlier?]
  | some due => simp [isDue, due?, hdue, earlier?]

end Work

/-! ## After an attempt -/

namespace RetryPlan

variable {plan : RetryPlan} {retry : Nat} {limit : Moment} {s : Session} {a : Answer} {work : Work}
  {begin : Session → Session × Progress}

/-- No attempt follows on number `retry` once it has come to an answer: this is a vector or an error
that another attempt does not help with, or there have been as many attempts as there may be. -/
def Final (plan : RetryPlan) (retry : Nat) : Answer → Prop
  | .ok _ => True
  | .error e => e.isTransient = false ∨ retry = plan.maxRetries

theorem judge_of_early (h : s.now < limit) (work : Work) :
    plan.judge retry limit s (.pending work) = (s, .wait work) := by
  simp only [judge, if_neg (Nat.not_le.mpr h)]

/-- Work that is not finished at the limit is dropped, and the attempt has failed. -/
theorem judge_of_late (h : limit ≤ s.now) (work : Work) :
    plan.judge retry limit s (.pending work) =
      plan.judge retry limit (work.cancel s) (.done (.error plan.timeoutError)) := by
  simp only [judge, if_pos h]

theorem judge_of_final (h : plan.Final retry a) :
    plan.judge retry limit s (.done a) = (s, .answer a) := by
  cases a with
  | ok v => rfl
  | error e =>
      have hno : ¬(e.isTransient && decide (retry < plan.maxRetries)) = true := by
        rcases h with hpermanent | rfl
        · simp [hpermanent]
        · simp
      simp only [judge, judge.afterFailure, if_neg hno]

theorem final_maxRetries (plan : RetryPlan) (a : Answer) : plan.Final plan.maxRetries a := by
  cases a with
  | ok v => trivial
  | error e => exact Or.inr rfl

theorem not_final_error {e : EmbedError} :
    ¬plan.Final retry (.error e) ↔ e.isTransient = true ∧ retry ≠ plan.maxRetries := by
  simp [Final]

/-- Only after a transient error another attempt may follow, and only if one is left. -/
theorem exists_error_of_not_final (h : ¬plan.Final retry a) :
    ∃ e, a = .error e ∧ e.isTransient = true ∧ retry ≠ plan.maxRetries := by
  cases a with
  | ok v => exact absurd trivial h
  | error e => exact ⟨e, rfl, not_final_error.mp h⟩

theorem judge_of_not_final {e : EmbedError} (hretry : retry ≤ plan.maxRetries)
    (h : ¬plan.Final retry (.error e)) :
    plan.judge retry limit s (.done (.error e)) =
      (s, .again (s.now + (plan.pause retry e).nanos)) := by
  obtain ⟨htransient, hne⟩ := not_final_error.mp h
  have hyes : (e.isTransient && decide (retry < plan.maxRetries)) = true := by
    simp [htransient, lt_of_le_of_ne hretry hne]
  simp only [judge, judge.afterFailure, if_pos hyes]

/-- How a call goes on once attempt number `retry` has come to some progress. -/
def goOn (plan : RetryPlan) (begin : Session → Session × Progress) (limit : Moment) (retry : Nat)
    (after : Session × Progress) : Session × Progress :=
  Verdict.follow limit retry
    (fun due s =>
      if due ≤ s.now then plan.attempts begin (plan.maxRetries - (retry + 1)) (retry + 1) s
      else (s, .pending (.pause due (retry + 1))))
    (plan.judge retry limit after.1 after.2)

theorem goOn_of_early (h : s.now < limit) (work : Work) :
    plan.goOn begin limit retry (s, .pending work) = (s, .pending (.attempt limit retry work)) := by
  rw [goOn, judge_of_early h]
  rfl

theorem goOn_of_late (h : limit ≤ s.now) (work : Work) :
    plan.goOn begin limit retry (s, .pending work) =
      plan.goOn begin limit retry (work.cancel s, .done (.error plan.timeoutError)) := by
  rw [goOn, judge_of_late h]
  rfl

theorem goOn_of_final (h : plan.Final retry a) :
    plan.goOn begin limit retry (s, .done a) = (s, .done a) := by
  rw [goOn, judge_of_final h]
  rfl

/-- After any other answer the next attempt begins, at once or after a pause. -/
theorem goOn_of_not_final {e : EmbedError} (hretry : retry ≤ plan.maxRetries)
    (h : ¬plan.Final retry (.error e)) :
    (plan.pause retry e).nanos = 0 ∧ plan.goOn begin limit retry (s, .done (.error e)) =
        plan.attempts begin (plan.maxRetries - (retry + 1)) (retry + 1) s ∨
      0 < (plan.pause retry e).nanos ∧ plan.goOn begin limit retry (s, .done (.error e)) =
        (s, .pending (.pause (s.now + (plan.pause retry e).nanos) (retry + 1))) := by
  rw [goOn, judge_of_not_final hretry h]
  simp only [Verdict.follow]
  rcases Nat.eq_zero_or_pos (plan.pause retry e).nanos with hzero | hpos
  · exact Or.inl ⟨hzero, if_pos (by rw [hzero, Nat.add_zero])⟩
  · exact Or.inr ⟨hpos, if_neg (Nat.not_le.mpr (Nat.lt_add_of_pos_right hpos))⟩

/-- The last attempt that there may be is not followed by another one. -/
theorem follow_of_last (again again' : Moment → Session → Session × Progress) (s : Session)
    (progress : Progress) :
    Verdict.follow limit plan.maxRetries again (plan.judge plan.maxRetries limit s progress) =
      Verdict.follow limit plan.maxRetries again' (plan.judge plan.maxRetries limit s progress) := by
  cases progress with
  | done a =>
      rw [judge_of_final (plan.final_maxRetries a)]
      rfl
  | pending work =>
      rcases Nat.lt_or_ge s.now limit with hearly | hlate
      · rw [judge_of_early hearly]
        rfl
      · rw [judge_of_late hlate, judge_of_final (plan.final_maxRetries _)]
        rfl

/-- The attempts from some number on are the first of them and what it goes on to. -/
theorem attempts_eq_goOn (hretry : retry ≤ plan.maxRetries) (begin : Session → Session × Progress)
    (s : Session) : plan.attempts begin (plan.maxRetries - retry) retry s =
      plan.goOn begin (s.now + plan.timeout.nanos) retry (begin s) := by
  rcases hretry.lt_or_eq with hless | hlast
  · rw [show plan.maxRetries - retry = plan.maxRetries - (retry + 1) + 1 by omega, attempts_succ]
    rfl
  · rw [hlast, Nat.sub_self, attempts_zero]
    exact follow_of_last _ _ _ _

end RetryPlan

/-! ## Parked work -/

namespace Provider

variable {p inner : Provider} {plan : RetryPlan} {text : String} {work : Work} {s s₁ : Session}
  {least id : CallId}

/-- Work as a poll of a call may leave it: its calls through the cache are in progress, a call in
line has not been given its lock, and there are not more attempts than there may be. -/
def Parked : Provider → Cache → Work → Prop
  | source _, _, .answer .. => True
  | resilient inner plan, c, .attempt _ retry work => retry ≤ plan.maxRetries ∧ inner.Parked c work
  | resilient _ plan, _, .pause _ retry => retry ≤ plan.maxRetries
  | cached _, c, .line id => c.isGranted id = false
  | cached inner, c, .compute id work => id < c.nextCall ∧ c.Knows id ∧ inner.Parked c work
  | _, _, _ => False

theorem resume_attempt_eq_goOn (inner : Provider) (plan : RetryPlan) (text : String) (limit : Moment)
    (retry : Nat) (work : Work) (s : Session) :
    (resilient inner plan).resume text (.attempt limit retry work) s =
      plan.goOn (inner.start text) limit retry (inner.resume text work s) :=
  resume_attempt inner plan text limit retry work s

theorem Parked.resume_early (h : p.Parked s.cache work) (hearly : work.isDue s.now = false) :
    p.resume text work s = (s, .pending work) := by
  induction p generalizing work with
  | source src =>
      cases work with
      | answer due outcome =>
          simp only [resume, if_neg (Nat.not_le.mpr (Work.isDue_eq_false.mp hearly due rfl))]
      | _ => exact h.elim
  | resilient inner plan ih =>
      cases work with
      | attempt limit retry work =>
          obtain ⟨hlimit, hinner⟩ := Work.isDue_attempt.mp hearly
          rw [resume_attempt_eq_goOn, ih h.2 hinner, RetryPlan.goOn_of_early hlimit]
      | pause due retry =>
          simp only [resume, if_neg (Nat.not_le.mpr (Work.isDue_eq_false.mp hearly due rfl))]
      | _ => exact h.elim
  | cached inner ih =>
      cases work with
      | line id =>
          have hline : ¬s.cache.isGranted id = true := by simpa [Parked] using h
          simp only [resume, FlightPoll.resume, FlightPoll.onTurn, if_neg hline]
      | compute id work =>
          simp only [resume, FlightPoll.resume, ih h.2.2 hearly, FlightPoll.onProgress]
      | _ => exact h.elim

/-! ## Polls -/

/-- A poll takes no time and ends no call in progress below a number. The work that it leaves, if any,
has calls from this number on and goes on at a later moment at the earliest. -/
structure Settles (p : Provider) (least : CallId) (s : Session) (after : Session × Progress) :
    Prop where
  now : after.1.now = s.now
  keeps : s.cache.Keeps least after.1.cache
  parked : ∀ work, after.2 = .pending work → p.Parked after.1.cache work
  since : ∀ work, after.2 = .pending work → work.Since least
  early : ∀ work, after.2 = .pending work → work.isDue s.now = false

theorem settles_of_done (hnow : s₁.now = s.now) (hkeeps : s.cache.Keeps least s₁.cache) (a : Answer) :
    p.Settles least s (s₁, .done a) :=
  ⟨hnow, hkeeps, fun _ h => (nomatch h), fun _ h => (nomatch h), fun _ h => (nomatch h)⟩

theorem settles_of_pending (hnow : s₁.now = s.now) (hkeeps : s.cache.Keeps least s₁.cache)
    (hparked : p.Parked s₁.cache work) (hsince : work.Since least)
    (hearly : work.isDue s.now = false) : p.Settles least s (s₁, .pending work) := by
  refine ⟨hnow, hkeeps, fun _ h => ?_, fun _ h => ?_, fun _ h => ?_⟩
  · exact Progress.pending.inj h ▸ hparked
  · exact Progress.pending.inj h ▸ hsince
  · exact Progress.pending.inj h ▸ hearly

theorem Settles.of_keeps {after : Session × Progress} (h : p.Settles least s₁ after)
    (hnow : s₁.now = s.now) (hkeeps : s.cache.Keeps least s₁.cache) : p.Settles least s after :=
  ⟨h.now.trans hnow, hkeeps.trans h.keeps, h.parked, h.since, hnow ▸ h.early⟩

/-- A call goes on after an attempt, if the attempts that follow do. -/
theorem goOn_settles {retry : Nat} (hretry : retry ≤ plan.maxRetries) (limit : Moment)
    {after : Session × Progress} (h : inner.Settles least s after)
    (hattempts : retry < plan.maxRetries → ∀ s₁ : Session, s.cache.Keeps least s₁.cache →
      (resilient inner plan).Settles least s₁
        (plan.attempts (inner.start text) (plan.maxRetries - (retry + 1)) (retry + 1) s₁)) :
    (resilient inner plan).Settles least s (plan.goOn (inner.start text) limit retry after) := by
  -- what follows an answer, whether it is the inner call's own or that it took too long
  have hdone : ∀ {s₁ : Session} (a : Answer), s₁.now = s.now → s.cache.Keeps least s₁.cache →
      (resilient inner plan).Settles least s
        (plan.goOn (inner.start text) limit retry (s₁, .done a)) := by
    intro s₁ a hnow hkeeps
    by_cases hfinal : plan.Final retry a
    · rw [RetryPlan.goOn_of_final hfinal]
      exact settles_of_done hnow hkeeps a
    · obtain ⟨e, rfl, -, hne⟩ := RetryPlan.exists_error_of_not_final hfinal
      have hless := lt_of_le_of_ne hretry hne
      rcases @RetryPlan.goOn_of_not_final plan retry limit s₁ (inner.start text) e hretry hfinal with
        ⟨-, hgoOn⟩ | ⟨hpos, hgoOn⟩
      · rw [hgoOn]
        exact (hattempts hless s₁ hkeeps).of_keeps hnow hkeeps
      · rw [hgoOn]
        refine settles_of_pending hnow hkeeps hless trivial (Work.isDue_of_lt rfl ?_)
        rw [hnow]
        exact Nat.lt_add_of_pos_right hpos
  obtain ⟨s₁, progress⟩ := after
  cases progress with
  | done a => exact hdone a h.now h.keeps
  | pending work =>
      rcases Nat.lt_or_ge s₁.now limit with hearly | hlate
      · rw [RetryPlan.goOn_of_early hearly]
        exact settles_of_pending h.now h.keeps ⟨hretry, h.parked work rfl⟩ (h.since work rfl)
          (Work.isDue_attempt.mpr ⟨h.now ▸ hearly, h.early work rfl⟩)
      · rw [RetryPlan.goOn_of_late hlate]
        exact hdone _ ((work.now_cancel s₁).trans h.now)
          (h.keeps.trans ((h.since work rfl).cancel s₁))

theorem attempts_settles
    (hstart : ∀ s : Session, least ≤ s.cache.nextCall → inner.Settles least s (inner.start text s))
    (left : Nat) {retry : Nat} (hretry : retry + left = plan.maxRetries) (s : Session)
    (hleast : least ≤ s.cache.nextCall) :
    (resilient inner plan).Settles least s (plan.attempts (inner.start text) left retry s) := by
  induction left generalizing retry s with
  | zero =>
      obtain rfl : retry = plan.maxRetries := hretry
      have heq := plan.attempts_eq_goOn (Nat.le_refl _) (inner.start text) s
      rw [Nat.sub_self] at heq
      rw [heq]
      exact goOn_settles (Nat.le_refl _) _ (hstart s hleast) fun hless => absurd hless (lt_irrefl _)
  | succ left ih =>
      have heq := plan.attempts_eq_goOn (show retry ≤ plan.maxRetries by omega) (inner.start text) s
      rw [show plan.maxRetries - retry = left + 1 by omega] at heq
      rw [heq]
      refine goOn_settles (by omega) _ (hstart s hleast) fun _ s₁ hkeeps => ?_
      rw [show plan.maxRetries - (retry + 1) = left by omega]
      exact ih (by omega) s₁ (hleast.trans hkeeps.later)

/-- The computation of a call in progress came to some progress. -/
theorem onProgress_settles (hid : least ≤ id) (hknows : s.cache.Knows id)
    (hold : id < s.cache.nextCall) {after : Session × Progress}
    (h : inner.Settles (id + 1) s after) (started : Bool) :
    (cached inner).Settles least s (FlightPoll.onProgress id after.1 started after.2).after := by
  have hkeeps := h.keeps.mono (hid.trans (Nat.le_succ id))
  have hknows' := h.keeps.known id (Nat.lt_succ_self id) hknows
  obtain ⟨s₁, progress⟩ := after
  cases progress with
  | pending work =>
      exact settles_of_pending h.now hkeeps
        ⟨hold.trans_le h.keeps.later, hknows', h.parked work rfl⟩ ⟨hid, h.since work rfl⟩
        (h.early work rfl)
  | done outcome =>
      obtain ⟨call, hcall, rfl⟩ := hknows'.call?
      obtain ⟨db, hdb⟩ := exists_conclude s₁.cache call.text outcome
      rw [FlightPoll.onProgress_of_done hcall, hdb]
      refine settles_of_done ?_ (hkeeps.trans (keeps_finish_of_calls_eq ?_ ?_ hid)) _
      · exact h.now
      · exact Nat.le_refl s₁.cache.nextCall
      · rfl

theorem onTurn_settles (hid : least ≤ id) (hknows : s.cache.Knows id) (hold : id < s.cache.nextCall)
    (hstart : ∀ s : Session, id < s.cache.nextCall →
      inner.Settles (id + 1) s (inner.start text s)) :
    (cached inner).Settles least s (FlightPoll.onTurn (inner.start text) id s).after := by
  unfold FlightPoll.onTurn
  by_cases hgranted : s.cache.isGranted id = true
  · rw [if_pos hgranted]
    obtain ⟨hkeeps, hstays⟩ := keeps_takeUp hknows hid
    generalize s.cache.takeUp id = taken at hkeeps hstays
    obtain ⟨c, _ | a⟩ := taken
    · have hold' : id < c.nextCall := hold.trans_le hkeeps.later
      have hcomputed := @onProgress_settles inner { s with cache := c } least id hid (hstays rfl)
        hold' _ (hstart { s with cache := c } hold') true
      exact hcomputed.of_keeps rfl hkeeps
    · refine settles_of_done ?_ hkeeps a
      rfl
  · rw [if_neg hgranted]
    refine settles_of_pending rfl (.refl _ _) ?_ hid rfl
    simpa [Parked] using hgranted

theorem flightStart_settles (hleast : least ≤ s.cache.nextCall)
    (hstart : ∀ {id : CallId} (s : Session), id < s.cache.nextCall →
      inner.Settles (id + 1) s (inner.start text s)) :
    (cached inner).Settles least s (FlightPoll.start (inner.start text) text s).after := by
  have hlined := knows_enqueue s.cache text
  have hid := enqueue_id s.cache text
  have hnext := nextCall_enqueue s.cache text
  have hkeeps := keeps_enqueue least s.cache text
  unfold FlightPoll.start begin
  cases s.cache.read text with
  | error e =>
      refine settles_of_done ?_ (.refl _ _) _
      rfl
  | ok found =>
      cases found with
      | some v =>
          refine settles_of_done ?_ (.of_calls_eq ?_ ?_) _
          · rfl
          · exact Nat.le_refl s.cache.nextCall
          · rfl
      | none =>
          generalize s.cache.enqueue text = lined at hlined hid hnext hkeeps
          obtain ⟨c, id⟩ := lined
          obtain rfl : id = s.cache.nextCall := hid
          have hold : s.cache.nextCall < c.nextCall := hnext ▸ Nat.lt_succ_self _
          have hturn := @onTurn_settles inner text { s with cache := c } least _ hleast hlined
            hold hstart
          exact hturn.of_keeps rfl hkeeps

theorem sourceStart_settles (src : Source) (text : String) (s : Session) :
    (source src).Settles least s (src.start text s) := by
  have hkeeps : s.cache.Keeps least (src.asked text s).cache := by
    unfold Source.asked
    cases (src.reply s.log.length text).rival with
    | none => exact .refl _ _
    | some cell => exact keeps_rival least s.cache text cell
  rw [src.start_eq text s]
  by_cases hdelay : (src.reply s.log.length text).delay.nanos = 0
  · rw [if_pos hdelay]
    refine settles_of_done ?_ hkeeps _
    rfl
  · rw [if_neg hdelay]
    refine settles_of_pending ?_ hkeeps trivial trivial (Work.isDue_of_lt rfl ?_)
    · rfl
    · exact Nat.lt_add_of_pos_right (Nat.pos_of_ne_zero hdelay)

theorem start_settles (p : Provider) (text : String) (s : Session)
    (hleast : least ≤ s.cache.nextCall) : p.Settles least s (p.start text s) := by
  induction p generalizing least s with
  | source src => exact sourceStart_settles src text s
  | resilient inner plan ih =>
      exact attempts_settles (fun s hleast => ih s hleast) plan.maxRetries (Nat.zero_add _) s hleast
  | cached inner ih => exact flightStart_settles hleast fun s hold => ih s hold

theorem resume_settles (hparked : p.Parked s.cache work) (hsince : work.Since least) (text : String)
    (hleast : least ≤ s.cache.nextCall) : p.Settles least s (p.resume text work s) := by
  induction p generalizing least work s with
  | source src =>
      cases work with
      | answer due outcome =>
          simp only [resume]
          split
          · exact settles_of_done rfl (.refl _ _) outcome
          · rename_i hlate
            exact settles_of_pending rfl (.refl _ _) trivial trivial
              (Work.isDue_of_lt rfl (Nat.lt_of_not_le hlate))
      | _ => exact hparked.elim
  | resilient inner plan ih =>
      have hattempts : ∀ {retry : Nat}, retry ≤ plan.maxRetries → ∀ s : Session,
          least ≤ s.cache.nextCall → (resilient inner plan).Settles least s
            (plan.attempts (inner.start text) (plan.maxRetries - retry) retry s) :=
        fun hretry s hleast => attempts_settles (fun s hleast => inner.start_settles text s hleast) _
          (Nat.add_sub_of_le hretry) s hleast
      cases work with
      | attempt limit retry work =>
          rw [resume_attempt_eq_goOn]
          exact goOn_settles hparked.1 limit (ih hparked.2 hsince hleast) fun hless s₁ hkeeps =>
            hattempts hless s₁ (hleast.trans hkeeps.later)
      | pause due retry =>
          simp only [resume]
          split
          · exact hattempts hparked s hleast
          · rename_i hlate
            exact settles_of_pending rfl (.refl _ _) hparked trivial
              (Work.isDue_of_lt rfl (Nat.lt_of_not_le hlate))
      | _ => exact hparked.elim
  | cached inner ih =>
      cases work with
      | line id =>
          have heq := @Parked.resume_early (cached inner) text (.line id) s hparked rfl
          rw [heq]
          exact settles_of_pending rfl (.refl _ _) hparked hsince rfl
      | compute id work =>
          obtain ⟨hold, hknows, hinner⟩ := hparked
          exact onProgress_settles hsince.1 hknows hold (ih hinner hsince.2 hold) false
      | _ => exact hparked.elim

end Provider

end NearNotes
