import Mathlib
import NearNotes.Proofs.Population.Course

/-!
# Jobs that share a cache

Jobs over providers whose answers are those of one function, in any order in which they can go on.
Whatever one of them does, the others find the cache as it may be.

* `Job.Member`, `Job.Crowd` : the invariant of each job and of all, where every text comes to a vector;
* `Crowd.steps`, `Crowd.concludes`, `Crowd.wait` : every move keeps it, and leaves less to do
  (`Job.burden`);
* `Crowd.course` : so does every course, and it has only so many moves;
* `Crowd.exists_due` : where no job can go on, there is a moment to wait for;
* `Crowd.passes_course`, `Job.finish_course` : passes are a course, and with enough of them every job
  has its result.
-/

namespace NearNotes

open Cache

namespace Job

variable {α : Type}

/-- How much there is left to do for a job, at most: its result is the last of it. -/
def load (job : Job α) : Nat := if job.result.isSome then 0 else job.window.load + 1

def burden (jobs : List (Job α)) : Nat := (jobs.map load).sum

/-- Two jobs go on under different numbers. -/
def Apart (job other : Job α) : Prop := ∀ id, job.window.Holds id → ¬ other.window.Holds id

/-- A result was made of a window that is over, and of a cache in which all its texts had rows. -/
def Concluded (start : Cache) (f : String → Answer) (texts : List String) (job : Job α)
    (db : Database) (result : Except RunError α) : Prop :=
  job.window.isOver = true ∧ ∃ c, Since start f texts c ∧ c.database.Grows db ∧
    (∀ text ∈ job.window.texts, ∃ v, c.read text = .ok (some v)) ∧
    result = job.conclude job.window.handedOver job.window.computed c

/-- What holds of each job on its way beside others, with the texts on which the provider was called
so far. -/
structure Member (start : Session) (f : String → Answer) (texts called : List String) (s : Session)
    (job : Job α) : Prop where
  computes : job.window.provider.Computes f
  covers : ∀ text ∈ job.window.texts, text ∈ texts
  coursing : job.window.Coursing start f texts s
  stored : job.window.Stored s
  busy : ∀ text, job.window.Busy text → text ∈ called
  concluded : ∀ result, job.result = some result →
    job.Concluded start.cache f texts s.cache.database result

/-- Jobs on their way beside each other: all calls in progress are theirs, each is one job's, and each
text on which the provider was called is computed or has got its row. -/
structure Crowd (start : Session) (f : String → Answer) (texts called : List String)
    (jobs : List (Job α)) (s : Session) : Prop where
  crew : Crew start.cache f texts s.cache
  members : ∀ job ∈ jobs, Member start f texts called s job
  apart : jobs.Pairwise Apart
  owned : ∀ call ∈ s.cache.calls, ∃ job ∈ jobs, job.window.Holds call.id
  asks : start.Asks texts s
  counted : called.length = (jobs.map fun job => job.window.computed).sum
  tally : called.length + start.cache.database.rows.length =
    s.cache.database.rows.length + (jobs.map fun job => job.window.computing).sum
  added : ∀ text, start.cache.read text = .ok none → s.cache.read text ≠ .ok none → text ∈ called

section

variable {start : Session} {f : String → Answer} {texts called : List String}
  {jobs before after : List (Job α)} {job : Job α} {s s' : Session}

theorem Apart.symm {job other : Job α} (h : job.Apart other) : other.Apart job :=
  fun id hother hjob => h id hjob hother

/-! One job among the others. -/

theorem mem_middle {other : Job α} :
    other ∈ before ++ job :: after ↔ other = job ∨ other ∈ before ++ after := by
  simp only [List.mem_append, List.mem_cons]
  tauto

theorem pairwise_middle : (before ++ job :: after).Pairwise Apart ↔
    (∀ other ∈ before ++ after, job.Apart other) ∧ (before ++ after).Pairwise Apart := by
  rw [List.pairwise_middle fun h => h.symm, List.pairwise_cons]

theorem sum_middle (g : Job α → Nat) :
    ((before ++ job :: after).map g).sum = g job + ((before ++ after).map g).sum := by
  simp only [List.map_append, List.map_cons, List.sum_append, List.sum_cons]
  omega

theorem load_of_running (h : job.result = none) : job.load = job.window.load + 1 := by
  rw [load, h]
  rfl

theorem load_of_result (h : job.result.isSome) : job.load = 0 := if_pos h

theorem burden_lt {job' : Job α} (h : job'.load < job.load) :
    burden (before ++ job' :: after) < burden (before ++ job :: after) := by
  rw [burden, burden, sum_middle, sum_middle]
  omega

theorem Concluded.grows {db db' : Database} {result : Except RunError α}
    (h : job.Concluded start.cache f texts db result) (hgrows : db.Grows db') :
    job.Concluded start.cache f texts db' result := by
  obtain ⟨hover, c, hsince, hearlier, hread, hresult⟩ := h
  exact ⟨hover, c, hsince, hearlier.trans hgrows, hread, hresult⟩

/-- A window that is over without a failure has handed everything over. -/
theorem next_of_isOver {w : Window} (h : w.Coursing start f texts s) (hover : w.isOver = true) :
    w.next = w.texts.length := by
  simpa [Window.isOver, h.running] using hover

theorem not_holds_of_isOver {w : Window} (h : w.Coursing start f texts s) (hover : w.isOver = true)
    (id : CallId) : ¬ w.Holds id := by
  rintro ⟨a, ha, -⟩
  rw [h.active_nil (next_of_isOver h hover)] at ha
  cases ha

/-! ## The start -/

/-- A job that has not begun. -/
structure IsNew (job : Job α) : Prop where
  result : job.result = none
  width : 1 ≤ job.window.width
  window : job.window =
    { provider := job.window.provider, width := job.window.width, texts := job.window.texts }

theorem IsNew.load (h : job.IsNew) : job.load = job.window.steps := by
  rw [load_of_running h.result, h.window]
  simp [Window.load, Window.steps]

theorem burden_of_new (h : ∀ job ∈ jobs, job.IsNew) :
    burden jobs = (jobs.map (·.window.steps)).sum := by
  rw [burden, List.map_congr_left fun job hjob => (h job hjob).load]

theorem IsNew.member (h : job.IsNew) (hidle : Idle start.cache)
    (hcomputes : job.window.provider.Computes f) (hcovers : ∀ text ∈ job.window.texts, text ∈ texts) :
    Member start f texts [] start job where
  computes := hcomputes
  covers := hcovers
  coursing := by
    rw [h.window]
    exact Window.coursing_of_new start f start h.width _
  stored := by
    rw [h.window]
    exact Window.stored_of_new rfl rfl rfl fun call hcall => by simp [hidle.calls] at hcall
  busy text hbusy := by
    rw [h.window] at hbusy
    obtain ⟨a, ha, -⟩ := hbusy
    cases ha
  concluded result hresult := by
    rw [h.result] at hresult
    cases hresult

/-- Jobs that have not begun, at a cache that no one else uses. -/
theorem crowd_of_new (hidle : Idle start.cache) (hnew : ∀ job ∈ jobs, job.IsNew)
    (hcomputes : ∀ job ∈ jobs, job.window.provider.Computes f)
    (hcovers : ∀ job ∈ jobs, ∀ text ∈ job.window.texts, text ∈ texts) :
    Crowd start f texts [] jobs start where
  crew := ⟨hidle.orderly, .refl _ _ _, fun call hcall => by simp [hidle.calls] at hcall⟩
  members job hjob := (hnew job hjob).member hidle (hcomputes job hjob) (hcovers job hjob)
  apart := by
    refine List.pairwise_of_forall_mem_list fun job hjob other _ id hholds => ?_
    rw [(hnew job hjob).window] at hholds
    obtain ⟨a, ha, -⟩ := hholds
    cases ha
  owned call hcall := by simp [hidle.calls] at hcall
  asks := ⟨[], (List.append_nil _).symm, by simp⟩
  counted := by
    have hnone : jobs.map (fun job => job.window.computed) = jobs.map fun _ => 0 :=
      List.map_congr_left fun job hjob => by rw [(hnew job hjob).window]
    rw [hnone]
    simp
  tally := by
    have hnone : jobs.map (fun job => job.window.computing) = jobs.map fun _ => 0 :=
      List.map_congr_left fun job hjob => by rw [(hnew job hjob).window]; rfl
    rw [hnone]
    simp
  added text habsent hread := absurd habsent hread

/-! ## What each move does to a job -/

/-- A step of the job's window, where every text comes to a vector. -/
theorem Member.advances (h : Member start f texts called s job)
    (hcrew : Crew start.cache f texts s.cache)
    (hyields : start.cache.Yields f texts) {w : Window}
    (htaken : job.window.step? s = some (w, s')) :
    job.window.Advances start f texts (job.window.callsTo s w) s w s' := by
  rcases h.coursing.step hcrew h.covers h.computes htaken with hadvances | ⟨e, hfound, -⟩
  · exact hadvances
  · have hmem := Window.textAt_mem ((h.coursing.finished_lt hfound).trans_le h.coursing.joined)
    have hok := hyields.ok _ (h.covers _ hmem)
    rw [← (h.coursing.finished _ hfound).eq_of_room hyields.room] at hok
    cases hok

/-- A text that is computed or stored anew is one on which the provider was called. -/
theorem Member.traced (h : Member start f texts called s job)
    (hyields : start.cache.Yields f texts) {w : Window} {later : List String}
    (hadvances : job.window.Advances start f texts later s w s') {text : String}
    (hcase : w.Busy text ∨ s'.cache.read text ≠ s.cache.read text) : text ∈ called ++ later := by
  rcases hadvances.traced hyields text hcase with
    hold | hnew
  · exact List.mem_append_left _ (h.busy text hold)
  · exact List.mem_append_right _ hnew

theorem Member.steps (h : Member start f texts called s job)
    (hyields : start.cache.Yields f texts) (hrunning : job.result = none)
    {w : Window} (htaken : job.window.step? s = some (w, s')) {later : List String}
    (hadvances : job.window.Advances start f texts later s w s') :
    Member start f texts (called ++ later) s' { job with window := w } := by
  obtain ⟨htexts, hprovider⟩ := Window.step?_keeps htaken
  dsimp only at htexts hprovider
  refine ⟨?_, ?_, hadvances.coursing, (h.stored.step htaken).1,
    fun text hbusy => h.traced hyields hadvances (Or.inl hbusy), fun result hresult => ?_⟩
  · show w.provider.Computes f
    rw [hprovider]
    exact h.computes
  · show ∀ text ∈ w.texts, text ∈ texts
    rw [htexts]
    exact h.covers
  · cases hrunning.symm.trans hresult

/-- Another job takes a step, under a number that is not the job's. -/
theorem Member.beside (h : Member start f texts called s job) {id : CallId}
    (hforeign : ¬ job.window.Holds id) (hapart : Cache.Apart id s.cache s'.cache)
    (hnow : s'.now = s.now) (honward : s.cache.Onward s'.cache) (later : List String) :
    Member start f texts (called ++ later) s' job where
  computes := h.computes
  covers := h.covers
  coursing :=
    ⟨h.coursing.running, h.coursing.room, h.coursing.manned.beside hforeign hapart hnow,
      h.coursing.joined, h.coursing.entered, h.coursing.positions, h.coursing.handed,
      h.coursing.finished⟩
  stored := h.stored.onward honward
  busy text hbusy := List.mem_append_left _ (h.busy text hbusy)
  concluded result hresult := (h.concluded result hresult).grows honward.grows

theorem Member.concludes (h : Member start f texts called s job)
    (hsince : Since start.cache f texts s.cache) (hover : job.window.isOver = true) :
    Member start f texts called s { job with result := job.resultOf job.window s.cache } := by
  refine ⟨h.computes, h.covers, h.coursing, h.stored, h.busy, fun result hmade => ?_⟩
  cases (resultOf_of_done job h.coursing.running hover s.cache).symm.trans hmade
  refine ⟨hover, s.cache, hsince, .refl _, fun text htext => ?_, rfl⟩
  refine h.stored.read_of_mem_take ?_
  rwa [next_of_isOver h.coursing hover, List.take_length]

theorem Member.wait (h : Member start f texts called s job) {moment : Moment}
    (hlater : s.now ≤ moment) (hdue : ∀ due, job.due? = some due → moment ≤ due) :
    Member start f texts called { s with now := moment } job := by
  refine ⟨h.computes, h.covers, h.coursing.wait hlater fun due hwork => ?_,
    h.stored.onward (.refl _), h.busy, h.concluded⟩
  cases hresult : job.result with
  | none =>
      refine hdue due ?_
      rw [Job.due?, hresult]
      exact hwork
  | some result =>
      -- a window that is over waits for nothing
      have hover := (h.concluded result hresult).1
      rw [Window.due?, h.coursing.active_nil (next_of_isOver h.coursing hover)] at hwork
      cases hwork

/-! ## Moves -/

/-- **A step of one job** beside the others. -/
theorem Crowd.steps (h : Crowd start f texts called (before ++ job :: after) s)
    (hyields : start.cache.Yields f texts) (hrunning : job.result = none)
    {w : Window} (htaken : job.window.step? s = some (w, s')) :
    Crowd start f texts (called ++ job.window.callsTo s w)
        (before ++ { job with window := w } :: after) s' ∧
      burden (before ++ { job with window := w } :: after) < burden (before ++ job :: after) := by
  have hmember := h.members job (mem_middle.mpr (Or.inl rfl))
  have hothers : ∀ other ∈ before ++ after, Member start f texts called s other :=
    fun other hmem => h.members other (mem_middle.mpr (Or.inr hmem))
  have hadvances := hmember.advances h.crew hyields htaken
  have honward := (hmember.stored.step htaken).2
  obtain ⟨hdisjoint, hrest⟩ := pairwise_middle.mp h.apart
  obtain ⟨id, hapart, hnumber, hsame, howned⟩ := hadvances.number
  -- The number is not that of a call of another job.
  have hforeign : ∀ other ∈ before ++ after, ¬ other.window.Holds id := by
    intro other hmem hholds
    rcases hnumber with hown | hnew
    · exact hdisjoint other hmem id hown hholds
    · obtain ⟨call, hcall, rfl⟩ := (hothers other hmem).coursing.manned.call_of_holds hholds
      exact absurd (h.crew.orderly.idBound call hcall) (Nat.not_lt.mpr hnew)
  refine ⟨⟨hadvances.crew, fun other hmem => ?_, ?_, fun call hcall => ?_, ?_, ?_, ?_,
    fun text habsent hread => ?_⟩, ?_⟩
  · rcases mem_middle.mp hmem with rfl | hmem
    · exact hmember.steps hyields hrunning htaken hadvances
    · exact (hothers other hmem).beside (hforeign other hmem) hapart hadvances.now honward _
  · refine pairwise_middle.mpr ⟨fun other hmem number hholds hholds' => ?_, hrest⟩
    by_cases heq : number = id
    · exact hforeign other hmem (heq ▸ hholds')
    · exact hdisjoint other hmem number ((hsame number heq).mp hholds) hholds'
  · by_cases heq : call.id = id
    · exact ⟨_, mem_middle.mpr (Or.inl rfl), heq ▸ howned call hcall heq⟩
    · obtain ⟨other, hmem, hholds⟩ := h.owned call ((hapart.calls call heq).mp hcall)
      rcases mem_middle.mp hmem with rfl | hmem
      · exact ⟨_, mem_middle.mpr (Or.inl rfl), (hsame _ heq).mpr hholds⟩
      · exact ⟨other, mem_middle.mpr (Or.inr hmem), hholds⟩
  · obtain ⟨records, hlog, hrecords⟩ := hadvances.log
    refine h.asks.append ⟨records, hlog, fun record hrecord => ?_⟩
    obtain ⟨text, htext, hasked⟩ := hrecords record hrecord
    exact ⟨text, hmember.covers text htext, hasked⟩
  · have hcounted := h.counted
    have hcomputed := hadvances.counted
    rw [sum_middle] at hcounted ⊢
    dsimp only
    rw [List.length_append]
    omega
  · have htally := h.tally
    have hcomputed := hadvances.counted
    have hstep := hadvances.tally hyields
    rw [sum_middle] at htally ⊢
    dsimp only
    rw [List.length_append]
    omega
  · by_cases hreads : s'.cache.read text = s.cache.read text
    · rw [hreads] at hread
      exact List.mem_append_left _ (h.added text habsent hread)
    · exact hmember.traced hyields hadvances (Or.inr hreads)
  · refine burden_lt ?_
    have hload : ({ job with window := w } : Job α).load = w.load + 1 := load_of_running hrunning
    rw [hload, load_of_running hrunning]
    exact Nat.succ_lt_succ hadvances.less

theorem Crowd.concludes (h : Crowd start f texts called (before ++ job :: after) s)
    (hrunning : job.result = none) (hover : job.window.isOver = true) :
    Crowd start f texts called
        (before ++ { job with result := job.resultOf job.window s.cache } :: after) s ∧
      burden (before ++ { job with result := job.resultOf job.window s.cache } :: after) <
        burden (before ++ job :: after) := by
  have hmember := h.members job (mem_middle.mpr (Or.inl rfl))
  obtain ⟨hdisjoint, hrest⟩ := pairwise_middle.mp h.apart
  refine ⟨⟨h.crew, fun other hmem => ?_, pairwise_middle.mpr ⟨hdisjoint, hrest⟩, fun call hcall => ?_,
    h.asks, ?_, ?_, h.added⟩, burden_lt ?_⟩
  · rcases mem_middle.mp hmem with rfl | hmem
    · exact hmember.concludes h.crew.since hover
    · exact h.members other (mem_middle.mpr (Or.inr hmem))
  · obtain ⟨other, hmem, hholds⟩ := h.owned call hcall
    rcases mem_middle.mp hmem with rfl | hmem
    · exact absurd hholds (not_holds_of_isOver hmember.coursing hover _)
    · exact ⟨other, mem_middle.mpr (Or.inr hmem), hholds⟩
  · simpa using h.counted
  · simpa using h.tally
  · rw [load_of_running hrunning, load_of_result ((resultOf_isSome_iff _ _ _).trans hover)]
    exact Nat.succ_pos _

theorem Crowd.wait (h : Crowd start f texts called jobs s) {moment : Moment}
    (hlater : s.now ≤ moment) (hdue : ∀ job ∈ jobs, ∀ due, job.due? = some due → moment ≤ due) :
    Crowd start f texts called jobs { s with now := moment } :=
  ⟨h.crew, fun job hjob => (h.members job hjob).wait hlater (hdue job hjob), h.apart, h.owned, h.asks,
    h.counted, h.tally, h.added⟩

/-- **Every course** keeps the invariant, and each of its moves leaves less to do. -/
theorem Crowd.course (h : Crowd start f texts called jobs s)
    (hyields : start.cache.Yields f texts) {m : Nat} {later : List String}
    {jobs' : List (Job α)} (hcourse : Course m later jobs s jobs' s') :
    Crowd start f texts (called ++ later) jobs' s' ∧ m + burden jobs' ≤ burden jobs := by
  induction hcourse generalizing called with
  | refl jobs s => exact ⟨by simpa using h, by omega⟩
  | move moved _ ih =>
      rw [← List.append_assoc]
      cases moved with
      | steps running taken =>
          obtain ⟨hnext, hless⟩ := h.steps hyields running taken
          obtain ⟨hend, hbound⟩ := ih hnext
          exact ⟨hend, by omega⟩
      | concludes running ended =>
          obtain ⟨hnext, hless⟩ := h.concludes running ended
          rw [← List.append_nil called] at hnext
          obtain ⟨hend, hbound⟩ := ih hnext
          exact ⟨hend, by omega⟩
  | wait hlater hdue _ ih => exact ih (h.wait hlater hdue)

/-! ## No deadlock -/

/-- Where no job can go on now and some job has no result, there is a moment to wait for. -/
theorem Crowd.exists_due (h : Crowd start f texts called jobs s)
    (hidle : ∀ job ∈ jobs, job.isReady s = false) (hjob : job ∈ jobs) (hrunning : job.result = none) :
    ∃ other ∈ jobs, ∃ due, other.due? = some due := by
  -- A job that can neither go on nor conclude has a window that is not over and takes no step.
  have hstill : ∀ other ∈ jobs, other.result = none →
      other.window.isOver = false ∧ other.window.step? s = none := by
    intro other hmem hnone
    have hready := hidle other hmem
    rw [isReady, hnone, Window.isReady_eq] at hready
    simpa using hready
  have hholder : ∀ other ∈ jobs, ∀ id, other.window.Holds id → other.result = none := by
    intro other hmem id hholds
    rw [← Option.not_isSome_iff_eq_none]
    intro hsome
    obtain ⟨result, hresult⟩ := Option.isSome_iff_exists.mp hsome
    exact not_holds_of_isOver (h.members other hmem).coursing ((h.members other hmem).concluded result hresult).1 id
      hholds
  have hready : ∀ other ∈ jobs, other.result = none → (other.window.wake s).ready = [] :=
    fun other hmem hnone =>
      (Window.ready_of_idle (hstill other hmem hnone).1 (hstill other hmem hnone).2).1
  obtain ⟨a, ha⟩ := (h.members job hjob).coursing.exists_active (hstill job hjob hrunning).1
    (hstill job hjob hrunning).2
  rcases (h.members job hjob).coursing.manned.exists_going h.crew ha with hgo | ⟨call, hcall, hgoing⟩
  · exact absurd (hready job hjob hrunning) hgo
  · obtain ⟨other, hmem, hholds⟩ := h.owned call hcall
    have hnone := hholder other hmem _ hholds
    rcases hgoing with hgranted | hcomputing
    · exact absurd (hready other hmem hnone)
        ((h.members other hmem).coursing.manned.ready_of_granted h.crew.orderly hgranted hholds)
    · obtain ⟨due, hdue⟩ :=
        (h.members other hmem).coursing.manned.due_of_computing h.crew.orderly hcall hcomputing hholds
      refine ⟨other, hmem, due, ?_⟩
      rw [Job.due?, hnone]
      exact hdue

theorem Crowd.now_le_due (h : Crowd start f texts called jobs s) (hjob : job ∈ jobs) {due : Moment}
    (hdue : job.due? = some due) : s.now ≤ due := by
  rw [Job.due?] at hdue
  split at hdue
  · cases hdue
  · exact (h.members job hjob).coursing.manned.now_le_due hdue

theorem isReady_of_due {due : Moment} (hdue : job.due? = some due) (hnow : due ≤ s.now) :
    job.isReady s = true := by
  rw [Job.due?] at hdue
  split at hdue
  · cases hdue
  · rename_i hrunning
    rw [isReady, Window.isReady_eq, Option.not_isSome_iff_eq_none.mp hrunning]
    cases hover : job.window.isOver with
    | true => rfl
    | false => simp [Window.step?_isSome_of_due hover hdue hnow]

/-- Where no job can go on now, either all have their results or time goes on up to a moment at
which one can. -/
theorem Crowd.idle_cases (h : Crowd start f texts called jobs s)
    (hidle : jobs.any (·.isReady s) = false) :
    (Task.nextDue? jobs = none ∧ ∀ job ∈ jobs, job.result.isSome) ∨
      ∃ due, Task.nextDue? jobs = some due ∧
        (∀ job ∈ jobs, ∀ other, job.due? = some other → max s.now due ≤ other) ∧
        jobs.any (·.isReady { s with now := max s.now due }) = true := by
  have hstill : ∀ job ∈ jobs, job.isReady s = false := by
    simpa using hidle
  cases hnext : Task.nextDue? jobs with
  | none =>
      refine Or.inl ⟨rfl, fun job hjob => ?_⟩
      by_contra hrunning
      obtain ⟨other, hother, due, hdue⟩ :=
        h.exists_due hstill hjob (Option.not_isSome_iff_eq_none.mp hrunning)
      have hsome := Window.foldl_earlier?_isSome (Task.due? : Job α → _) jobs none
        (Or.inr ⟨other, hother, Option.isSome_iff_exists.mpr ⟨due, hdue⟩⟩)
      rw [show jobs.foldl (fun d a => earlier? d (Task.due? a)) none = none from hnext] at hsome
      cases hsome
  | some due =>
      obtain ⟨hone, -, hleast⟩ :=
        Window.foldl_earlier?_eq_some (Task.due? : Job α → _) jobs none hnext
      obtain hone | ⟨job, hjob, hdue⟩ := hone
      · cases hone
      · refine Or.inr ⟨due, rfl, fun other hother moment hmoment => ?_, ?_⟩
        · exact Nat.max_le.mpr ⟨h.now_le_due hother hmoment, hleast other hother moment hmoment⟩
        · exact List.any_eq_true.mpr ⟨job, hjob, isReady_of_due hdue (Nat.le_max_right _ _)⟩

theorem burden_pos_of_ready (h : jobs.any (·.isReady s) = true) : 0 < burden jobs := by
  obtain ⟨job, hjob, hready⟩ := List.any_eq_true.mp h
  have hrunning : job.result = none := by
    rw [isReady, Bool.and_eq_true] at hready
    simpa using hready.1
  have hle : job.load ≤ burden jobs := List.le_sum_of_mem (List.mem_map_of_mem hjob)
  rw [load_of_running hrunning] at hle
  omega

/-- **Passes to the end.** Passes are a course. Each has a move unless no job can go on, and after a
wait one can: so with two for each move that is left, and one more, every job has its result. -/
theorem Crowd.passes_course (h : Crowd start f texts called jobs s)
    (hyields : start.cache.Yields f texts) {fuel : Nat}
    (hfuel : 2 * burden jobs + 1 ≤ fuel ∨
      2 * burden jobs ≤ fuel ∧ jobs.any (·.isReady s) = true) :
    ∃ m later, Course m later jobs s (Task.passes fuel jobs s).2 (Task.passes fuel jobs s).1 ∧
      ∀ job ∈ (Task.passes fuel jobs s).2, job.result.isSome := by
  induction fuel generalizing called jobs s with
  | zero =>
      obtain hfuel | ⟨hfuel, hready⟩ := hfuel
      · omega
      · have hpos := burden_pos_of_ready hready
        omega
  | succ fuel ih =>
      have hany : jobs.any (Task.isReady · s) = jobs.any (·.isReady s) := rfl
      cases hready : jobs.any (·.isReady s) with
      | true =>
          obtain ⟨m, later, hpass, hmoved⟩ := pass_course jobs [] s
          have hpos := hmoved hready
          rw [List.nil_append, List.nil_append] at hpass
          obtain ⟨hafter, hless⟩ := h.course hyields hpass
          obtain ⟨n, last, hrest, hresults⟩ := ih hafter (Or.inl (by omega))
          simp only [Task.passes, hany, hready, if_true]
          exact ⟨m + n, later ++ last, hpass.trans hrest, hresults⟩
      | false =>
          have henough : 2 * burden jobs ≤ fuel := by
            obtain hfuel | ⟨-, hready'⟩ := hfuel
            · omega
            · rw [hready] at hready'
              cases hready'
          simp only [Task.passes, hany, hready, Bool.false_eq_true, if_false]
          obtain ⟨hnone, hresults⟩ | ⟨due, hdue, hwait, hgo⟩ := h.idle_cases hready
          · rw [hnone]
            exact ⟨0, [], .refl jobs s, hresults⟩
          · rw [hdue]
            obtain ⟨m, later, hrest, hresults⟩ :=
              ih (h.wait (Nat.le_max_left _ _) hwait) (Or.inr ⟨henough, hgo⟩)
            exact ⟨m, later, .wait (Nat.le_max_left _ _) hwait hrest, hresults⟩

theorem finish_course (hidle : Idle start.cache) (hnew : ∀ job ∈ jobs, job.IsNew)
    (hcomputes : ∀ job ∈ jobs, job.window.provider.Computes f)
    (hcovers : ∀ job ∈ jobs, ∀ text ∈ job.window.texts, text ∈ texts)
    (hyields : start.cache.Yields f texts) :
    ∃ m called jobs', Course m called jobs start jobs' (finish jobs start).1 ∧
      jobs'.map result = (finish jobs start).2 ∧ ∀ job ∈ jobs', job.result.isSome := by
  have hfuel : 2 * burden jobs + 1 ≤
      2 * (jobs.map (·.window.steps + 1)).foldr (· + ·) 0 + 1 := by
    rw [burden_of_new hnew, ← List.sum_eq_foldr]
    have hle : (jobs.map (·.window.steps)).sum ≤ (jobs.map (·.window.steps + 1)).sum :=
      List.sum_le_sum fun job _ => Nat.le_succ _
    omega
  obtain ⟨m, called, hcourse, hresults⟩ :=
    (crowd_of_new hidle hnew hcomputes hcovers).passes_course hyields (Or.inl hfuel)
  exact ⟨m, called, _, hcourse, rfl, hresults⟩

end

end Job

end NearNotes
