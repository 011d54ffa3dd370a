import Mathlib
import NearNotes.Proofs.Population.Stored
import NearNotes.Proofs.Population.Underway
import NearNotes.Proofs.Provider.Paired

/-!
# Jobs beside each other

Jobs that share a session, in any order in which they can go on.

* `Job.Move`, `Job.Course` : what one job can do beside the others, and moves one after the other in
  any order, with the texts on which the provider is called;
* `Job.Plan`, `Course.plan_eq` : each job stays with what it is about;
* `Window.log_of_step?`, `Course.log_of_sources` : a source is called on these texts and no others;
* `Job.pass_course` : a pass over all jobs is a course, and not an empty one where a job can go on.
-/

namespace NearNotes

/-! ## The log of a source -/

theorem Source.log_start (src : Source) (text : String) (s : Session) :
    (src.start text s).1.log.map CallRecord.input = s.log.map CallRecord.input ++ [.one text] := by
  simp only [start]
  split <;> split <;> simp

theorem Source.log_resume (src : Source) (text : String) (work : Work) (s : Session) :
    ((Provider.source src).resume text work s).1.log = s.log := by
  simp only [Provider.resume]
  split
  · split <;> rfl
  · rfl

namespace FlightPoll

/-- A poll for a text is recorded by the source if and only if it started to compute. -/
def Logs (text : String) (s : Session) (poll : FlightPoll) : Prop :=
  poll.session.log.map CallRecord.input =
    s.log.map CallRecord.input ++ (if poll.started then [text] else []).map .one

variable {text : String} {s : Session}

theorem logs_of_eq {poll : FlightPoll} (hlog : poll.session.log = s.log)
    (hstarted : poll.started = false) : Logs text s poll := by
  rw [Logs, hlog, hstarted]
  simp

theorem logs_onProgress {s₁ : Session} {started : Bool}
    (hlog : s₁.log.map CallRecord.input =
      s.log.map CallRecord.input ++ (if started then [text] else []).map .one)
    (id : CallId) (progress : Progress) : Logs text s (onProgress id s₁ started progress) := by
  cases progress with
  | pending work => exact hlog
  | done outcome =>
      simp only [onProgress]
      split
      · exact hlog
      · split <;> exact hlog

variable {compute : Session → Session × Progress}

theorem logs_onTurn (hcompute : ∀ s, (compute s).1.log.map CallRecord.input =
      s.log.map CallRecord.input ++ [.one text]) (id : CallId) (s : Session) :
    Logs text s (onTurn compute id s) := by
  unfold onTurn
  split
  · split
    · exact logs_of_eq rfl rfl
    · rename_i c _
      exact logs_onProgress (hcompute { s with cache := c }) id _
  · exact logs_of_eq rfl rfl

theorem logs_start (hcompute : ∀ s, (compute s).1.log.map CallRecord.input =
      s.log.map CallRecord.input ++ [.one text]) (s : Session) :
    Logs text s (start compute text s) := by
  unfold start
  split
  · exact logs_of_eq rfl rfl
  · rename_i c id _
    exact logs_onTurn hcompute id { s with cache := c }

theorem logs_resume (hcompute : ∀ s, (compute s).1.log.map CallRecord.input =
      s.log.map CallRecord.input ++ [.one text]) {goOn : Work → Session → Session × Progress}
    (hgoOn : ∀ work s, (goOn work s).1.log = s.log) (work : Work) (s : Session) :
    Logs text s (resume compute goOn work s) := by
  cases work with
  | line id => exact logs_onTurn hcompute id s
  | compute id work => exact logs_onProgress (by simp [hgoOn]) id _
  | _ => exact logs_of_eq rfl rfl

end FlightPoll

theorem Provider.logs_fetch_source (src : Source) (text : String) (work : Option Work)
    (s : Session) : ((source src).fetch text work s).Logs text s := by
  cases work with
  | none => exact FlightPoll.logs_start (src.log_start text) s
  | some rest => exact FlightPoll.logs_resume (src.log_start text) (src.log_resume text) rest s

namespace Window

theorem session_poll (w : Window) (a : Active) (s : Session) :
    (w.poll a s).2 = (w.polled a s).session := by
  cases h : (w.polled a s).progress with
  | pending work => rw [poll_of_pending h]
  | done answer => rw [poll_of_done h]

theorem log_cancelAll (w : Window) (s : Session) : (w.cancelAll s).log = s.log :=
  w.cancelAll_keeps (P := fun s' => s'.log = s.log) (fun work s' h => (work.log_cancel s').trans h) rfl

theorem log_of_step? {w : Window} {src : Source} (hsource : w.provider = .source src) {s : Session}
    {after : Window × Session} (hstep : w.step? s = some after) :
    after.2.log.map CallRecord.input =
      s.log.map CallRecord.input ++ (w.callsTo s after.1).map .one := by
  -- where nothing is computed, the log stays as it is
  have hquiet : ∀ after : Window × Session, after.1.computed = w.computed → after.2.log = s.log →
      after.2.log.map CallRecord.input =
        s.log.map CallRecord.input ++ (w.callsTo s after.1).map .one := by
    intro after hcomputed hlog
    rw [hlog, callsTo_of_computed_eq hcomputed, List.map_nil, List.append_nil]
  cases (step?_eq_some hstep).2 with
  | handsOver => exact hquiet _ rfl rfl
  | fails => exact hquiet _ rfl (log_cancelAll _ _)
  | @polls a rest _ first _ =>
      have hlogs : (({ (w.wake s).fill with ready := rest } : Window).polled a s).Logs
          ((w.wake s).fill.textAt a.position) s := by
        have hfetch := Provider.logs_fetch_source src ((w.wake s).fill.textAt a.position) a.work s
        rwa [← hsource] at hfetch
      rw [callsTo_poll first, session_poll]
      exact hlogs
  | skips => exact hquiet _ rfl rfl

end Window

namespace Job

variable {α : Type}

/-! ## Courses -/

/-- What a job can do beside others, with the texts on which it calls the provider. -/
inductive Move : List String → List (Job α) → Session → List (Job α) → Session → Prop
  /-- A window takes a step. -/
  | steps {before after : List (Job α)} {job : Job α} {w : Window} {s s' : Session}
      (running : job.result = none) (taken : job.window.step? s = some (w, s')) :
      Move (job.window.callsTo s w) (before ++ job :: after) s
        (before ++ { job with window := w } :: after) s'
  /-- A job whose window is over makes its result, of the cache as it is then. -/
  | concludes {before after : List (Job α)} {job : Job α} {s : Session}
      (running : job.result = none) (ended : job.window.isOver = true) :
      Move [] (before ++ job :: after) s
        (before ++ { job with result := job.resultOf job.window s.cache } :: after) s

/-- Moves of jobs in any order, and time that goes on between them. The number counts the moves. -/
inductive Course : Nat → List String → List (Job α) → Session → List (Job α) → Session → Prop
  | refl (jobs : List (Job α)) (s : Session) : Course 0 [] jobs s jobs s
  | move {m : Nat} {called later : List String} {jobs jobs₁ jobs' : List (Job α)}
      {s s₁ s' : Session} (moved : Move called jobs s jobs₁ s₁)
      (rest : Course m later jobs₁ s₁ jobs' s') : Course (m + 1) (called ++ later) jobs s jobs' s'
  /-- Time does not go past a moment at which some job can go on by itself. -/
  | wait {m : Nat} {called : List String} {jobs jobs' : List (Job α)} {s s' : Session}
      {moment : Moment} (later : s.now ≤ moment)
      (due : ∀ job ∈ jobs, ∀ due, job.due? = some due → moment ≤ due)
      (rest : Course m called jobs { s with now := moment } jobs' s') :
      Course m called jobs s jobs' s'

theorem Course.trans {m n : Nat} {called later : List String} {jobs jobs₁ jobs₂ : List (Job α)}
    {s s₁ s₂ : Session} (h : Course m called jobs s jobs₁ s₁)
    (h' : Course n later jobs₁ s₁ jobs₂ s₂) :
    Course (m + n) (called ++ later) jobs s jobs₂ s₂ := by
  induction h with
  | refl jobs s => simpa using h'
  | move moved _ ih =>
      rw [Nat.add_right_comm, List.append_assoc]
      exact .move moved (ih h')
  | wait later due _ ih => exact .wait later due (ih h')

/-- What a job is about. -/
structure Plan (α : Type) where
  provider : Provider
  texts : List String
  conclude : List Embedding → Nat → Cache → Except RunError α

def plan (job : Job α) : Plan α := ⟨job.window.provider, job.window.texts, job.conclude⟩

theorem resultOf_of_plan_eq {job job' : Job α} (h : job.plan = job'.plan) (w : Window)
    (cache : Cache) : job.resultOf w cache = job'.resultOf w cache := by
  have hconclude : job.conclude = job'.conclude := congrArg Plan.conclude h
  unfold resultOf
  rw [hconclude]

theorem Move.plan_eq {called : List String} {jobs jobs' : List (Job α)} {s s' : Session}
    (h : Move called jobs s jobs' s') : jobs'.map plan = jobs.map plan := by
  cases h with
  | steps running taken =>
      obtain ⟨htexts, hprovider⟩ := Window.step?_keeps taken
      dsimp only at htexts hprovider
      simp only [List.map_append, List.map_cons, plan, htexts, hprovider]
  | concludes running ended => simp only [List.map_append, List.map_cons, plan]

theorem Course.plan_eq {m : Nat} {called : List String} {jobs jobs' : List (Job α)}
    {s s' : Session} (h : Course m called jobs s jobs' s') : jobs'.map plan = jobs.map plan := by
  induction h with
  | refl jobs s => rfl
  | move moved _ ih => exact ih.trans moved.plan_eq
  | wait _ _ _ ih => exact ih

/-- What a course of jobs over sources adds to the log: a record of each call on the provider. -/
theorem Course.log_of_sources {m : Nat} {called : List String} {jobs jobs' : List (Job α)}
    {s s' : Session} (h : Course m called jobs s jobs' s')
    (hsources : ∀ about ∈ jobs.map plan, ∃ src, about.provider = .source src) :
    s'.log.map CallRecord.input = s.log.map CallRecord.input ++ called.map .one := by
  induction h with
  | refl jobs s => simp
  | move moved _ ih =>
      rw [ih (moved.plan_eq ▸ hsources), List.map_append, ← List.append_assoc]
      congr 1
      cases moved with
      | @steps before after job w _ _ running taken =>
          obtain ⟨src, hsource⟩ := hsources job.plan (List.mem_map_of_mem (by simp))
          exact Window.log_of_step? hsource taken
      | concludes running ended => simp
  | wait _ _ _ ih => exact ih hsources

/-! ## Polls and passes -/

theorem poll_of_not_isReady {job : Job α} {s : Session} (h : job.isReady s = false) :
    job.poll s = (s, job) := by
  cases hresult : job.result with
  | some result => rw [poll, hresult]
  | none =>
      rw [isReady, hresult, Window.isReady_eq] at h
      obtain ⟨hover, hstep⟩ : job.window.isOver = false ∧ job.window.step? s = none := by
        simpa using h
      have hstay : job.window.advance job.window.steps s = (job.window, s) := by
        simp only [Window.steps, Window.advance, hstep]
      rw [poll_of_running hresult, hstay, job.resultOf_of_not_isOver hover, ← hresult]

/-- A window that goes on as far as it can goes along a course. -/
theorem advance_course {job : Job α} (hrunning : job.result = none) (before after : List (Job α))
    (fuel : Nat) (s : Session) :
    ∃ m called, Course m called (before ++ job :: after) s
        (before ++ { job with window := (job.window.advance fuel s).1 } :: after)
        (job.window.advance fuel s).2 ∧
      (0 < fuel → (job.window.step? s).isSome → 0 < m) := by
  induction fuel generalizing job s with
  | zero => exact ⟨0, [], .refl _ s, fun hfuel => absurd hfuel (Nat.lt_irrefl 0)⟩
  | succ fuel ih =>
      cases hstep : job.window.step? s with
      | none =>
          simp only [Window.advance, hstep]
          exact ⟨0, [], .refl _ s, fun _ hsome => by cases hsome⟩
      | some after =>
          obtain ⟨w, s₁⟩ := after
          obtain ⟨m, called, hcourse, -⟩ := @ih { job with window := w } hrunning s₁
          simp only [Window.advance, hstep]
          exact ⟨m + 1, _, .move (.steps hrunning hstep) hcourse, fun _ _ => Nat.succ_pos m⟩

/-- A poll is a course, and not an empty one where the job can go on. -/
theorem poll_course (job : Job α) (before after : List (Job α)) (s : Session) :
    ∃ m called, Course m called (before ++ job :: after) s (before ++ (job.poll s).2 :: after)
        (job.poll s).1 ∧ (job.isReady s = true → 0 < m) := by
  cases hready : job.isReady s with
  | false =>
      rw [poll_of_not_isReady hready]
      exact ⟨0, [], .refl _ s, fun h => by cases h⟩
  | true =>
      obtain ⟨hrunning, hgo⟩ : job.result = none ∧
          (job.window.isOver = true ∨ (job.window.step? s).isSome = true) := by
        rw [isReady, Window.isReady_eq] at hready
        simpa using hready
      obtain ⟨m, called, hcourse, hpos⟩ :=
        advance_course hrunning before after job.window.steps s
      have hsteps := hpos (Nat.succ_pos _)
      rw [poll_of_running hrunning]
      set w := (job.window.advance job.window.steps s).1 with hw
      set s₁ := (job.window.advance job.window.steps s).2
      cases hover : w.isOver with
      | true =>
          have hconcludes : Move [] (before ++ { job with window := w } :: after) s₁
              (before ++ { job with window := w, result := job.resultOf w s₁.cache } :: after) s₁ :=
            .concludes hrunning hover
          exact ⟨_, _, hcourse.trans (.move hconcludes (.refl _ s₁)), fun _ => Nat.succ_pos m⟩
      | false =>
          refine ⟨m, called, ?_, fun _ => hsteps (hgo.resolve_left fun hended => ?_)⟩
          · rw [job.resultOf_of_not_isOver hover, ← hrunning]
            exact hcourse
          · -- a window that is over stays so
            rw [hw, Window.steps] at hover
            simp only [Window.advance, Window.step?_of_isOver hended] at hover
            rw [hended] at hover
            cases hover

/-- **A pass is a course**, and not an empty one where some job can go on. -/
theorem pass_course (jobs before : List (Job α)) (s : Session) :
    ∃ m called, Course m called (before ++ jobs) s (before ++ (Task.pass jobs s).2)
        (Task.pass jobs s).1 ∧ (jobs.any (·.isReady s) = true → 0 < m) := by
  induction jobs generalizing before s with
  | nil => exact ⟨0, [], .refl _ s, fun h => by cases h⟩
  | cons job rest ih =>
      obtain ⟨m, called, hpoll, hfirst⟩ := poll_course job before rest s
      obtain ⟨n, later, hrest, hlater⟩ := ih (before ++ [(job.poll s).2]) (job.poll s).1
      rw [List.append_assoc, List.append_assoc] at hrest
      refine ⟨m + n, called ++ later, hpoll.trans hrest, fun hany => ?_⟩
      cases hready : job.isReady s with
      | true => exact Nat.add_pos_left (hfirst hready) n
      | false =>
          rw [List.any_cons, hready, Bool.false_or] at hany
          rw [poll_of_not_isReady hready] at hlater
          exact Nat.add_pos_right m (hlater hany)

end Job

end NearNotes
