import Mathlib
import NearNotes.Proofs.Flight.Tally
import NearNotes.Proofs.Population.Outcome
import NearNotes.Proofs.Population.Traffic

/-!
# What runs have computed

The misses of a cache that is used by runs are what the runs have started to compute, whatever
becomes of the runs and whoever else writes to the database.

* `Provider.Uncached` : the provider makes no calls through the cache itself;
* `Tells` : a cache with its calls in order has counted some misses; `respects_tells` : such a
  provider keeps it so;
* `FlightPoll.Counts`, `Provider.fetch_counts` : a poll counts a miss if it starts to compute;
* `Window.counts_of_step?`, `Traffic.Counted` : so does a step of a window, and all that traffic of
  runs can do (`Counted.step`, `Counted.leads`);
* `Fresh.misses_of_leads`, `Pipeline.finish_counts` : so it is after traffic of runs, and after runs
  that are finished beside each other;
* `Pipeline.counters_tell_the_truth` : the counters from an opened database on.
-/

namespace NearNotes

open Cache

def Provider.Uncached : Provider → Prop
  | source _ => True
  | resilient inner _ => inner.Uncached
  | cached _ => False

/-! ## Counting misses -/

/-- The calls in progress are in order, and so many misses have been counted. -/
structure Cache.Tells (misses : Nat) (c : Cache) : Prop where
  orderly : Orderly c
  misses : c.misses = misses

variable {c c' : Cache} {m : Nat} {id : CallId} {text : String} {s : Session} {p : Provider}

theorem Cache.Tells.congr (h : c.Tells m) (hsame : SameFlight c c') (hmisses : c'.misses = c.misses) :
    c'.Tells m := ⟨h.orderly.congr hsame, hmisses.trans h.misses⟩

theorem Cache.finish_of_call_none (h : c.call? id = none) : c.finish id = c := by
  unfold finish
  rw [h]

theorem Cache.setPhase_of_call_none (h : c.call? id = none) (phase : Phase) :
    c.setPhase id phase = c := by
  have hcalls : (c.setPhase id phase).calls = c.calls := by
    refine (List.map_congr_left fun call hcall => ?_).trans (List.map_id _)
    exact if_neg (List.find?_eq_none.mp h call hcall)
  unfold setPhase at hcalls ⊢
  dsimp only at hcalls
  rw [hcalls]

theorem Cache.Tells.finish (h : c.Tells m) (id : CallId) : (c.finish id).Tells m := by
  cases hfound : c.call? id with
  | none => rwa [finish_of_call_none hfound]
  | some call =>
      obtain ⟨hcall, rfl⟩ := call?_eq_some hfound
      exact ⟨h.orderly.finish hcall, (misses_finish c _).trans h.misses⟩

theorem Cache.Tells.begin (h : c.Tells m) (text : String) : (c.begin text).1.Tells m := by
  unfold Cache.begin
  split
  · exact h
  · exact h.congr ⟨rfl, rfl, rfl, rfl, rfl, rfl⟩ rfl
  · exact ⟨h.orderly.enqueue text, (misses_enqueue c text).trans h.misses⟩

/-- The second look of a call that has its lock ends the call, or counts a miss. -/
theorem Cache.Tells.takeUp (h : c.Tells m) (hgranted : c.isGranted id = true) :
    (∃ a, (c.takeUp id).2 = some a ∧ (c.takeUp id).1.Tells m) ∨
      ((c.takeUp id).2 = none ∧ (c.takeUp id).1.Tells (m + 1)) := by
  have hmem : id ∈ c.granted := by simpa [isGranted] using hgranted
  obtain ⟨call, hcall, rfl, -, hhead⟩ := (h.orderly.granted id).mp hmem
  have hends := h.orderly.sameFlight_finish_granted hcall
  have hfinish := h.finish call.id
  rw [takeUp_eq (h.orderly.call? hcall)]
  cases c.read call.text with
  | error e => exact Or.inl ⟨_, rfl, hfinish.congr hends (by simp)⟩
  | ok found =>
      cases found with
      | some v =>
          have hhits : SameFlight ({ c with granted := c.granted.erase call.id } : Cache)
              { c with granted := c.granted.erase call.id, hits := c.hits + 1 } :=
            ⟨rfl, rfl, rfl, rfl, rfl, rfl⟩
          exact Or.inl ⟨_, rfl, hfinish.congr (hends.trans (hhits.finish call.id)) (by simp)⟩
      | none =>
          have horderly :=
            h.orderly.setPhase hcall hhead (show Phase.computing ≠ .queued by decide)
          exact Or.inr ⟨rfl, horderly.congr ⟨rfl, rfl, rfl, rfl, rfl, rfl⟩,
            congrArg (· + 1) h.misses⟩

theorem Cache.Tells.conclude (h : c.Tells m) (text : String) (outcome : Answer) :
    (c.conclude text outcome).1.Tells m := by
  unfold Cache.conclude
  split
  · exact h
  · split
    · exact h
    · rename_i v _ _
      obtain ⟨db, hdb, -⟩ := offer_grows c text v none
      rw [hdb]
      exact h.congr ⟨rfl, rfl, rfl, rfl, rfl, rfl⟩ rfl

/-- What else may happen to a cache: its own writer or another one stores something, or the table is
made sure of. -/
inductive Cache.Writes (c : Cache) : Cache → Prop
  | write (text : String) (v : Embedding) : Writes c (c.write text v).1
  | rival (text : String) (cell : Cell) : Writes c (c.apply (.rival text cell))
  | prepare {c' : Cache} (prepared : c.prepare = .ok c') : Writes c c'

theorem Cache.Tells.writes (h : c.Tells m) (hwrites : c.Writes c') : c'.Tells m := by
  cases hwrites with
  | write text v => exact h.congr (sameFlight_write c text v) (counters_write c text v).2
  | rival text cell => exact h.congr (sameFlight_rival c text cell) (counters_rival c text cell).2
  | prepare prepared =>
      obtain ⟨db, -, heq⟩ := bind_eq_ok_iff.mp prepared
      cases heq
      exact h.congr ⟨rfl, rfl, rfl, rfl, rfl, rfl⟩ rfl

/-! ## Polls -/

def Tells (m : Nat) (s s' : Session) : Prop := s' = s ∧ s.cache.Tells m

theorem tells_self (h : s.cache.Tells m) : Tells m s s := ⟨rfl, h⟩

theorem respects_tells (m : Nat) : Respects (Tells m) fun _ _ => True where
  now := by
    rintro s s' ⟨rfl, h⟩
    rfl
  abandon := by
    rintro s s' ⟨rfl, h⟩ id
    exact ⟨rfl, h.finish id⟩
  timeout _ _ := trivial

theorem Provider.Uncached.respects (h : p.Uncached) (m : Nat) (text : String) :
    p.Respects (Tells m) (fun _ _ => True) text := by
  induction p with
  | source src =>
      rintro s s' ⟨rfl, htells⟩
      refine Source.start_paired rfl rfl ⟨rfl, ?_⟩ trivial
      show Cache.Tells m ((src.reply s'.log.length text).rival.elim _ _)
      cases (src.reply s'.log.length text).rival with
      | none => exact htells
      | some cell => exact htells.writes (.rival text cell)
  | resilient inner plan ih => exact ih h
  | cached inner => exact h.elim

theorem Provider.Uncached.start_tells (h : p.Uncached) (text : String) (htells : s.cache.Tells m) :
    (p.start text s).1.cache.Tells m :=
  (p.start_paired (respects_tells m) (h.respects m text) (tells_self htells)).related.2

theorem Provider.Uncached.resume_tells (h : p.Uncached) (text : String) (work : Work) {s : Session}
    {m : Nat} (htells : s.cache.Tells m) : (p.resume text work s).1.cache.Tells m :=
  (p.resume_paired (respects_tells m) (h.respects m text) work (tells_self htells)
    work.all_true).related.2

theorem Work.cancel_tells (work : Work) (htells : s.cache.Tells m) :
    (work.cancel s).cache.Tells m :=
  ((respects_tells m).cancel (tells_self htells) work).2

namespace FlightPoll

def Counts (m : Nat) (poll : FlightPoll) : Prop :=
  poll.session.cache.Tells (m + poll.started.toNat)

variable {compute : Session → Session × Progress} {goOn : Work → Session → Session × Progress}

theorem onProgress_counts (started : Bool) (htells : s.cache.Tells (m + started.toNat)) (id : CallId)
    (progress : Progress) : (onProgress id s started progress).Counts m := by
  cases progress with
  | pending work => exact htells
  | done outcome =>
      cases hfound : s.cache.call? id with
      | some call =>
          obtain ⟨-, rfl⟩ := call?_eq_some hfound
          rw [onProgress_of_done hfound]
          exact (htells.conclude call.text outcome).finish call.id
      | none =>
          -- there is nothing to end any more
          cases outcome with
          | error e =>
              simp only [onProgress, computed]
              exact htells.finish id
          | ok v =>
              simp only [onProgress, computed]
              cases s.cache.requireLength v with
              | error e => exact htells.finish id
              | ok _ =>
                  simp only [setPhase_of_call_none hfound, settle, hfound]
                  exact htells

theorem onTurn_counts
    (hcompute : ∀ {s : Session} {m}, s.cache.Tells m → (compute s).1.cache.Tells m)
    (htells : s.cache.Tells m) (id : CallId) : (onTurn compute id s).Counts m := by
  unfold onTurn
  split
  · rename_i hgranted
    have htaken := htells.takeUp hgranted
    generalize s.cache.takeUp id = taken at htaken ⊢
    obtain ⟨c, answer⟩ := taken
    rcases htaken with ⟨a, rfl, hends⟩ | ⟨rfl, hstarts⟩
    · exact hends
    · exact onProgress_counts true (hcompute (s := { s with cache := c }) hstarts) id _
  · exact htells

theorem start_counts
    (hcompute : ∀ {s : Session} {m}, s.cache.Tells m → (compute s).1.cache.Tells m)
    (htells : s.cache.Tells m) (text : String) : (start compute text s).Counts m := by
  have hbegun := htells.begin text
  unfold start
  generalize s.cache.begin text = begun at hbegun ⊢
  obtain ⟨c, a | id⟩ := begun
  · exact hbegun
  · exact onTurn_counts hcompute (s := { s with cache := c }) hbegun id

theorem resume_counts
    (hcompute : ∀ {s : Session} {m}, s.cache.Tells m → (compute s).1.cache.Tells m)
    (hgoOn : ∀ work {s : Session} {m}, s.cache.Tells m → (goOn work s).1.cache.Tells m)
    (htells : s.cache.Tells m) (work : Work) : (resume compute goOn work s).Counts m := by
  unfold resume
  split
  · exact onTurn_counts hcompute htells _
  · exact onProgress_counts false (hgoOn _ htells) _ _
  · exact htells

end FlightPoll

theorem Provider.Uncached.fetch_counts (h : p.Uncached) (htells : s.cache.Tells m) (text : String)
    (work : Option Work) : (p.fetch text work s).Counts m := by
  cases work with
  | none => exact FlightPoll.start_counts (h.start_tells text) htells text
  | some work =>
      exact FlightPoll.resume_counts (h.start_tells text) (h.resume_tells text) htells work

/-! ## Windows -/

namespace Window

theorem cancelAll_tells (w : Window) (htells : s.cache.Tells m) : (w.cancelAll s).cache.Tells m :=
  w.cancelAll_keeps (P := fun s => s.cache.Tells m) (fun work _ h => work.cancel_tells h) htells

/-- **A step** counts what it has started to compute. -/
theorem counts_of_step? {w : Window} {after : Window × Session} (h : w.provider.Uncached)
    (htells : s.cache.Tells (m + w.computed)) (hstep : w.step? s = some after) :
    after.2.cache.Tells (m + after.1.computed) := by
  cases (step?_eq_some hstep).2 with
  | handsOver => exact htells
  | fails => exact cancelAll_tells _ htells
  | @polls a rest _ _ _ =>
      rw [computed_poll, session_poll, ← Nat.add_assoc]
      exact h.fetch_counts htells _ a.work
  | skips => exact htells

end Window

/-! ## Traffic of runs -/

/-- A run whose provider makes no calls through the cache itself. -/
def Activity.IsPlainRun (a : Activity) : Prop :=
  a.provider.Uncached ∧ ∃ (p : Pipeline) (sections : List Section), a = .run (p.window sections)

namespace Traffic

/-- How many vectors all runs have started to compute, those that were dropped included. -/
def computed (t : Traffic) : Nat := ((t.parties ++ t.gone).map (·.activity.computed)).sum

/-- All parties are runs, and the misses are what they have started to compute. -/
structure Counted (m : Nat) (t : Traffic) : Prop where
  runs : ∀ party ∈ t.parties, party.activity.provider.Uncached ∧ ∃ w, party.activity = .run w
  tells : t.session.cache.Tells (m + t.computed)

variable {t t' : Traffic} {parties before after gone : List Party} {party : Party}

theorem computed_middle (s : Session) :
    computed ⟨s, before ++ party :: after, gone⟩ =
      party.activity.computed + computed ⟨s, before ++ after, gone⟩ := by
  simp only [computed, List.map_append, List.map_cons, List.sum_append, List.sum_cons]
  omega

/-- **Every step of traffic** keeps the count. -/
theorem Counted.step (h : t.Counted m) (hstep : Step Activity.IsPlainRun Cache.Writes t t') :
    t'.Counted m := by
  cases hstep with
  | @comes _ a new admitted =>
      obtain ⟨huncached, p, sections, rfl⟩ := admitted
      refine ⟨fun party hparty => ?_, ?_⟩
      · rcases List.mem_append.mp hparty with hold | hlast
        · exact h.runs party hold
        · rw [List.mem_singleton.mp hlast]
          exact ⟨huncached, _, rfl⟩
      · have hnone : computed { t with parties :=
            t.parties ++ [{ activity := .run (p.window sections) }] } = t.computed := by
          simp [computed, Activity.computed, Pipeline.window]
        rw [hnone]
        exact h.tells
  | @goes s s' before after gone party a on =>
      obtain ⟨hruns, htells⟩ := h
      obtain ⟨huncached, w, hw⟩ := hruns party (mem_middle.mpr (Or.inl rfl))
      rw [hw] at on huncached
      obtain ⟨taken, hstep, heq⟩ := Option.map_eq_some_iff.mp on
      cases heq
      refine ⟨fun other hother => ?_, ?_⟩
      · rcases mem_middle.mp hother with rfl | hmem
        · refine ⟨?_, taken.1, rfl⟩
          show taken.1.provider.Uncached
          rw [(Window.step?_keeps hstep).2]
          exact huncached
        · exact hruns other (mem_middle.mpr (Or.inr hmem))
      · rw [computed_middle] at htells ⊢
        rw [hw, Activity.computed] at htells
        rw [Nat.add_comm w.computed, ← Nat.add_assoc] at htells
        have hcounts := Window.counts_of_step? huncached htells hstep
        rw [Nat.add_assoc, Nat.add_comm _ taken.1.computed] at hcounts
        exact hcounts
  | @leaves s before after gone party =>
      obtain ⟨hruns, htells⟩ := h
      obtain ⟨-, w, hw⟩ := hruns party (mem_middle.mpr (Or.inl rfl))
      refine ⟨fun other hother => hruns other (mem_middle.mpr (Or.inr hother)), ?_⟩
      have hsame : computed ⟨party.activity.drop s, before ++ after, gone ++ [party]⟩ =
          computed ⟨s, before ++ party :: after, gone⟩ := by
        simp only [computed, List.map_append, List.map_cons, List.map_nil, List.sum_append,
          List.sum_cons, List.sum_nil]
        omega
      rw [hsame, hw]
      exact Window.cancelAll_tells w htells
  | happens other => exact ⟨h.runs, h.tells.writes other⟩
  | waits later => exact ⟨h.runs, h.tells⟩

/-- **So does all traffic.** -/
theorem Counted.leads (h : t.Counted m) (hleads : Leads Activity.IsPlainRun Cache.Writes t t') :
    t'.Counted m := by
  induction hleads with
  | refl => exact h
  | tail _ hstep ih => exact ih.step hstep

end Traffic

/-! ## A cache that was just opened -/

theorem Cache.Fresh.misses_of_leads (h : s.cache.Fresh) {t : Traffic}
    (hleads : Traffic.Leads Activity.IsPlainRun Cache.Writes { session := s } t) :
    t.session.cache.misses = t.computed := by
  have hstart : Traffic.Counted 0 { session := s } :=
    ⟨List.forall_mem_nil _, h.orderly, h.misses⟩
  rw [(hstart.leads hleads).tells.misses, Nat.zero_add]

namespace Pipeline

/-- A run reports as many computed vectors as its window has started. -/
theorem providerCalls_of_resultOf {p : Pipeline} {document : String} {job : Job Report}
    (hplan : job.plan = (p.runJob document).plan) {w : Window} {c : Cache} {report : Report}
    (h : job.resultOf w c = some (.ok report)) : report.providerCalls = w.computed := by
  rw [Job.resultOf_of_plan_eq hplan] at h
  unfold Job.resultOf at h
  split at h
  · cases h
  · split at h
    · have hmade : (p.report (p.splitter.sections document) w.computed c).mapError
          RunError.embedding = .ok report := Option.some.inj h
      cases hreport : p.report (p.splitter.sections document) w.computed c with
      | error e =>
          rw [hreport] at hmade
          cases hmade
      | ok r =>
          rw [hreport] at hmade
          cases hmade
          obtain ⟨entries, corpus, found, -, -, -, rfl⟩ := report_eq_ok hreport
          rfl
    · cases h

theorem finish_counts (s : Session) {runs : List (Pipeline × String)}
    (huncached : ∀ r ∈ runs, r.1.provider.Uncached) :
    ∃ t jobs, Traffic.Leads Activity.IsPlainRun Cache.Writes { session := s } t ∧
      Job.finish (runs.map fun r => r.1.runJob r.2) s = (t.session, jobs.map Job.result) ∧
      t.computed = (jobs.map fun job => job.window.computed).sum ∧
      List.Forall₂ (fun (r : Pipeline × String) (job : Job Report) =>
        job.plan = (r.1.runJob r.2).plan ∧
        ∀ report, job.result = some (.ok report) → report.providerCalls = job.window.computed)
        runs jobs := by
  have hmem : ∀ {P : Job Report → Prop}, (∀ r ∈ runs, P (r.1.runJob r.2)) →
      ∀ job ∈ runs.map fun r => r.1.runJob r.2, P job := by
    intro P hall job hjob
    obtain ⟨r, hr, rfl⟩ := List.mem_map.mp hjob
    exact hall r hr
  obtain ⟨t, jobs, hfinish, hplans, hgone, hleads, hruns, hconcludes⟩ :=
    Job.finish_follows Activity.IsPlainRun Cache.Writes (hmem fun _ _ => rfl)
      (hmem fun _ _ => .run _ _ _) (hmem fun r hr => ⟨huncached r hr, r.1, _, rfl⟩) s
  refine ⟨t, jobs, hleads, hfinish, ?_, ?_⟩
  · have hcomputed := congrArg (fun activities => (activities.map Activity.computed).sum) hruns
    rw [Traffic.computed, hgone, List.append_nil]
    simpa [Activity.computed, Function.comp_def] using hcomputed
  · have hforall : List.Forall₂ (fun (job : Job Report) (r : Pipeline × String) =>
        job.plan = (r.1.runJob r.2).plan) jobs runs := by
      rw [List.map_map] at hplans
      rwa [← List.forall₂_eq_eq_eq, List.forall₂_map_left_iff, List.forall₂_map_right_iff] at hplans
    refine (((List.forall₂_and_left _ _).mpr ⟨hconcludes, hforall⟩).imp fun job r h => ?_).flip
    refine ⟨h.2, fun report hreport => ?_⟩
    obtain ⟨_, -, -, hresult⟩ := h.1 _ hreport
    exact providerCalls_of_resultOf h.2 hresult

/-- **The counters tell the truth.** Let calls through a cache that was just opened come in any order
and fail or be dropped wherever they stand, while others write. At every moment the misses are the
computations that the calls have started, and the hits are the calls that were answered with a vector
without one. A call adds to one of the two at most, and at most once; and since the counters are
the sums of what the calls have added, nothing else does. To store, to look a text up and to read all
rows adds to neither.

Where all calls come from runs, which may be dropped as well, the misses are what the runs have
started to compute. To finish runs beside each other is such traffic, and a run that succeeds reports
what it has computed. -/
theorem counters_tell_the_truth {db : Database} {opened : Cache} (h : openOn db = .ok opened)
    (dimension : Option Nat) :
    let start : Cache := { opened with dimension }
    (∀ history,
      let calls := start.visits [] history
      let started := (calls.map Visit.started).sum
      let answered := calls.countP fun call => decide call.IsHit
      (start.run history).counters =
        .ok ⟨(start.run history).database.rows.length, answered, started⟩ ∧
      (∀ call ∈ calls, call.started ≤ 1 ∧ call.hits + call.misses ≤ 1) ∧
      (calls.map Visit.hits).sum = answered ∧ (calls.map Visit.misses).sum = started) ∧
    (∀ (s : Session) (text : String) (v : Embedding),
      ∀ operation ∈ [.store text v, .lookup text, .entries],
        (s.perform operation).1.cache.hits = s.cache.hits ∧
        (s.perform operation).1.cache.misses = s.cache.misses) ∧
    ∀ (now : Moment) (log : List CallRecord),
      (∀ t, Traffic.Leads Activity.IsPlainRun Cache.Writes { session := ⟨now, start, log⟩ } t →
        t.session.cache.misses = t.computed) ∧
      ∀ runs : List (Pipeline × String), (∀ r ∈ runs, r.1.provider.Uncached) →
        ∃ t jobs, Traffic.Leads Activity.IsPlainRun Cache.Writes { session := ⟨now, start, log⟩ } t ∧
          Job.finish (runs.map fun r => r.1.runJob r.2) ⟨now, start, log⟩ =
            (t.session, jobs.map Job.result) ∧
          t.computed = (jobs.map fun job => job.window.computed).sum ∧
          List.Forall₂ (fun (r : Pipeline × String) (job : Job Report) =>
            job.plan = (r.1.runJob r.2).plan ∧
            ∀ report, job.result = some (.ok report) → report.providerCalls = job.window.computed)
            runs jobs := by
  intro start
  have hfresh : start.Fresh := fresh_of_openOn h dimension
  refine ⟨fun history => ?_, fun s text v operation hoperation => ?_, fun now log => ⟨?_, ?_⟩⟩
  · have hcounters := hfresh.counters_run history
    obtain ⟨hfair, hhits, hmisses⟩ := hfresh.visits_fair history
    have hsame := counters_of_table ((run_grows start history).table hfresh.table)
    rw [hcounters] at hsame
    obtain ⟨-, hhits', hmisses'⟩ := Counters.mk.inj (Except.ok.inj hsame)
    exact ⟨hcounters, hfair, hhits.symm.trans hhits'.symm, hmisses.symm.trans hmisses'.symm⟩
  · simp only [List.mem_cons, List.not_mem_nil, or_false] at hoperation
    rcases hoperation with rfl | rfl | rfl
    · exact counters_write s.cache text v
    · exact ⟨rfl, rfl⟩
    · exact ⟨rfl, rfl⟩
  · exact fun t hleads => hfresh.misses_of_leads hleads
  · exact fun runs huncached => finish_counts ⟨now, start, log⟩ huncached

/-- One call fails and the next one computes, while a third is dropped in line. Then one finds the row
when its turn comes, and one at once. -/
def fiveCalls : List Event :=
  [.begin "a", .begin "a", .begin "a", .takeUp 0, .computed 0 (.error .notConfigured), .takeUp 1,
    .abandon 2, .begin "a", .computed 1 (.ok [⟨1⟩]), .settle 1, .takeUp 3, .begin "a"]

theorem counters_tell_the_truth_at_letters :
    openOn oneLetter.cache.database = .ok { oneLetter.cache with dimension := none } ∧
    (oneLetter.cache.run fiveCalls).counters = .ok ⟨2, 2, 2⟩ ∧
    ((oneLetter.cache.visits [] fiveCalls).countP fun call => decide call.IsHit) = 2 ∧
    (oneLetter.cache.visits [] fiveCalls).map Visit.started = [1, 1, 0, 0, 0] ∧
    letters.provider.Uncached ∧ hasty.provider.Uncached ∧
    ∃ (t : Traffic) (jobs : List (Job Report)),
      Traffic.Leads Activity.IsPlainRun Cache.Writes { session := oneLetter } t ∧
      Job.finish [letters.runJob "xa", hasty.runJob "cab"] oneLetter =
        (t.session, jobs.map Job.result) ∧
      jobs.map (fun job => job.result.map Except.isOk) = [some true, some false] ∧
      t.session.cache.misses = 3 ∧ (jobs.map fun job => job.window.computed).sum = 3 := by
  have hopen : openOn oneLetter.cache.database = .ok { oneLetter.cache with dimension := none } := rfl
  obtain ⟨hhistory, -, hruns⟩ := counters_tell_the_truth hopen (some 1)
  obtain ⟨hcounters, -⟩ := hhistory fiveCalls
  obtain ⟨hmisses, hfinish⟩ := hruns oneLetter.now oneLetter.log
  obtain ⟨t, jobs, hleads, hfinished, hcomputed, -⟩ :=
    hfinish [(letters, "xa"), (hasty, "cab")] (by simp [letters, hasty, Provider.Uncached])
  have hresults : Job.finish [letters.runJob "xa", hasty.runJob "cab"] oneLetter =
      (t.session, jobs.map Job.result) := hfinished
  have hthree : (Job.finish [letters.runJob "xa", hasty.runJob "cab"] oneLetter).1.cache.misses = 3 :=
    by decide +kernel
  have hresult : (Job.finish [letters.runJob "xa", hasty.runJob "cab"] oneLetter).2.map
      (Option.map Except.isOk) = [some true, some false] := by decide +kernel
  have hcounted : t.session.cache.misses = 3 := (congrArg (·.1.cache.misses) hresults).symm.trans hthree
  refine ⟨hopen, hcounters.trans (by decide +kernel), by decide +kernel, by decide +kernel, trivial,
    trivial, t, jobs, hleads, hresults, ?_, hcounted, ?_⟩
  · rw [← hresult, congrArg Prod.snd hresults, List.map_map]
    rfl
  · rw [← hcomputed, ← hmisses t hleads, hcounted]

end Pipeline

end NearNotes
