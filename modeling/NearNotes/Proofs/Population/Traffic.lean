import Mathlib
import NearNotes.Proofs.Population.Course
import NearNotes.Proofs.Provider.Replies

/-!
# Traffic on a session

Runs and calls on providers that share a session. They come at any time, go on in any order as far as
each can, and may be dropped wherever they stand; in between, time goes on and other things happen to
the cache.

* `Activity` : the window of a run, or a call on a provider as far as it has come;
* `Party`, `Traffic`, `Traffic.Step` : who is there, with what their sources have replied, and one
  step of one of them;
* `Job.Follows` : traffic whose parties are the windows of jobs; `Move.follows`, `Course.follows`,
  `passes_follows`, `finish_follows` : jobs beside each other are such traffic.
-/

namespace NearNotes

/-- Who goes on beside others. -/
inductive Activity
  /-- The sections of a note are fetched. -/
  | run (window : Window)
  /-- A provider is called for a text. -/
  | call (provider : Provider) (text : String) (progress : Option Progress)

namespace Activity

def provider : Activity → Provider
  | run w => w.provider
  | call p _ _ => p

inductive IsNew : Activity → Prop
  | run (provider : Provider) (width : Nat) (texts : List String) :
      IsNew (.run { provider, width, texts })
  | call (provider : Provider) (text : String) : IsNew (.call provider text none)

def go : Activity → Session → Option (Activity × Session)
  | run w, s => (w.step? s).map fun (w, s) => (run w, s)
  | call p text progress, s =>
    match progress with
    | none => some (call p text (some (p.start text s).2), (p.start text s).1)
    | some (.pending work) =>
      some (call p text (some (p.resume text work s).2), (p.resume text work s).1)
    | some (.done _) => none

def drop : Activity → Session → Session
  | run w, s => w.cancelAll s
  | call _ _ (some (.pending work)), s => work.cancel s
  | call .., s => s

/-- How many vectors the run has started to compute. -/
def computed : Activity → Nat
  | run w => w.computed
  | call .. => 0

theorem provider_go {a a' : Activity} {s s' : Session} (h : a.go s = some (a', s')) :
    a'.provider = a.provider := by
  cases a with
  | run w =>
      obtain ⟨⟨w', s₁⟩, hstep, heq⟩ := Option.map_eq_some_iff.mp h
      cases heq
      exact (Window.step?_keeps hstep).2
  | call p text progress =>
      match progress with
      | none =>
          cases h
          rfl
      | some (.pending work) =>
          cases h
          rfl
      | some (.done answer) => cases h

end Activity

/-! ## Steps -/

/-- Somebody who goes on beside others, with what its source has replied so far. -/
structure Party where
  activity : Activity
  replies : List (String × Answer) := []

structure Traffic where
  session : Session
  parties : List Party := []
  gone : List Party := []

namespace Traffic

/-- The party after a step of its activity: all calls that were recorded are on its source. -/
def advanced (party : Party) (activity : Activity) (s s' : Session) : Party where
  activity
  replies := party.replies ++ party.activity.provider.base.repliesSince s.log.length s'.log

/-- One step. Who may come, and what else may happen to the cache, is left open. -/
inductive Step (admits : Activity → Prop) (others : Cache → Cache → Prop) :
    Traffic → Traffic → Prop
  | comes {t : Traffic} {a : Activity} (new : a.IsNew) (admitted : admits a) :
      Step admits others t { t with parties := t.parties ++ [{ activity := a }] }
  | goes {s s' : Session} {before after gone : List Party} {party : Party} {a : Activity}
      (on : party.activity.go s = some (a, s')) :
      Step admits others ⟨s, before ++ party :: after, gone⟩
        ⟨s', before ++ advanced party a s s' :: after, gone⟩
  | leaves {s : Session} {before after gone : List Party} {party : Party} :
      Step admits others ⟨s, before ++ party :: after, gone⟩
        ⟨party.activity.drop s, before ++ after, gone ++ [party]⟩
  | happens {t : Traffic} {c : Cache} (other : others t.session.cache c) :
      Step admits others t { t with session := { t.session with cache := c } }
  | waits {t : Traffic} {moment : Moment} (later : t.session.now ≤ moment) :
      Step admits others t { t with session := { t.session with now := moment } }

theorem mem_middle {before after : List Party} {party other : Party} :
    other ∈ before ++ party :: after ↔ other = party ∨ other ∈ before ++ after := by
  simp only [List.mem_append, List.mem_cons]
  tauto

/-- Steps one after the other. -/
abbrev Leads (admits : Activity → Prop) (others : Cache → Cache → Prop) : Traffic → Traffic → Prop :=
  Relation.ReflTransGen (Step admits others)

end Traffic

/-! ## Jobs beside each other -/

namespace Job

variable {α : Type} {admits : Activity → Prop} {others : Cache → Cache → Prop} {start : Traffic}

/-- The parties are the windows of the jobs. -/
def Runs (jobs : List (Job α)) (parties : List Party) : Prop :=
  parties.map Party.activity = jobs.map fun job => .run job.window

theorem Runs.exists_party {jobs : List (Job α)} {parties : List Party} (h : Runs jobs parties)
    {job : Job α} (hjob : job ∈ jobs) : ∃ party ∈ parties, party.activity = .run job.window := by
  have hmem : Activity.run job.window ∈ parties.map Party.activity := h ▸ List.mem_map_of_mem hjob
  exact List.mem_map.mp hmem

/-- The result of a job, if it has one, is that of its window at some place of the traffic. -/
def Concludes (admits : Activity → Prop) (others : Cache → Cache → Prop) (start : Traffic)
    (job : Job α) : Prop :=
  ∀ result, job.result = some result → ∃ t, Traffic.Leads admits others start t ∧
    (∃ party ∈ t.parties, party.activity = .run job.window) ∧
    job.resultOf job.window t.session.cache = some result

/-- Traffic has come to a place where the parties are the windows of the jobs. -/
structure Follows (admits : Activity → Prop) (others : Cache → Cache → Prop) (start : Traffic)
    (jobs : List (Job α)) (t : Traffic) : Prop where
  leads : Traffic.Leads admits others start t
  runs : Runs jobs t.parties
  concludes : ∀ job ∈ jobs, job.Concludes admits others start

/-- A move of jobs is a step of traffic, or a job comes to the result of its window. -/
theorem Move.follows {called : List String} {jobs jobs' : List (Job α)} {s s' : Session}
    (h : Move called jobs s jobs' s') {parties gone : List Party}
    (hfollows : Follows admits others start jobs ⟨s, parties, gone⟩) :
    ∃ parties', Follows admits others start jobs' ⟨s', parties', gone⟩ := by
  obtain ⟨hleads, hruns, hconcludes⟩ := hfollows
  cases h with
  | @steps before after job w _ _ running taken =>
      rw [Runs, List.map_append, List.map_cons] at hruns
      obtain ⟨front, rest, rfl, hfront, hrest⟩ := List.map_eq_append_iff.mp hruns
      obtain ⟨party, back, rfl, hparty, hback⟩ := List.map_eq_cons_iff.mp hrest
      have hgo : party.activity.go s = some (.run w, s') := by
        rw [hparty]
        simp only [Activity.go, taken, Option.map_some]
      refine ⟨front ++ Traffic.advanced party (.run w) s s' :: back, hleads.tail (.goes hgo), ?_,
        fun other hother => ?_⟩
      · simp only [Runs, List.map_append, List.map_cons, hfront, hback, Traffic.advanced]
      · simp only [List.mem_append, List.mem_cons] at hother hconcludes
        rcases hother with hbefore | rfl | hafter
        · exact hconcludes other (Or.inl hbefore)
        · intro result hresult
          rw [running] at hresult
          cases hresult
        · exact hconcludes other (Or.inr (Or.inr hafter))
  | @concludes before after job _ running ended =>
      refine ⟨parties, hleads, ?_, fun other hother => ?_⟩
      · rw [Runs, hruns]
        simp only [List.map_append, List.map_cons]
      · have hparty := hruns.exists_party (List.mem_append_right before List.mem_cons_self)
        simp only [List.mem_append, List.mem_cons] at hother hconcludes
        rcases hother with hbefore | rfl | hafter
        · exact hconcludes other (Or.inl hbefore)
        · exact fun result hresult => ⟨_, hleads, hparty, hresult⟩
        · exact hconcludes other (Or.inr (Or.inr hafter))

theorem Course.follows {m : Nat} {called : List String} {jobs jobs' : List (Job α)}
    {s s' : Session} (h : Course m called jobs s jobs' s') {parties gone : List Party}
    (hfollows : Follows admits others start jobs ⟨s, parties, gone⟩) :
    ∃ parties', Follows admits others start jobs' ⟨s', parties', gone⟩ := by
  induction h generalizing parties with
  | refl jobs s => exact ⟨parties, hfollows⟩
  | move moved _ ih =>
      obtain ⟨parties₁, hmoved⟩ := moved.follows hfollows
      exact ih hmoved
  | wait later due _ ih =>
      exact ih ⟨hfollows.leads.tail (.waits later), hfollows.runs, hfollows.concludes⟩

theorem passes_follows (fuel : Nat) {jobs : List (Job α)} {s : Session} {parties gone : List Party}
    (hfollows : Follows admits others start jobs ⟨s, parties, gone⟩) :
    (Task.passes fuel jobs s).2.map plan = jobs.map plan ∧
      ∃ parties', Follows admits others start (Task.passes fuel jobs s).2
        ⟨(Task.passes fuel jobs s).1, parties', gone⟩ := by
  induction fuel generalizing jobs s parties with
  | zero => exact ⟨rfl, parties, hfollows⟩
  | succ fuel ih =>
      simp only [Task.passes]
      split
      · obtain ⟨m, called, hcourse, -⟩ := pass_course jobs [] s
        obtain ⟨parties₁, hpassed⟩ := hcourse.follows hfollows
        obtain ⟨hplans, hrest⟩ := ih hpassed
        exact ⟨hplans.trans hcourse.plan_eq, hrest⟩
      · split
        · rename_i due _
          have hlater : s.now ≤ max s.now due := Nat.le_max_left s.now due
          exact ih ⟨hfollows.leads.tail (.waits hlater), hfollows.runs, hfollows.concludes⟩
        · exact ⟨rfl, parties, hfollows⟩

theorem comes_all (s : Session) (gone parties : List Party) {activities : List Activity}
    (hnew : ∀ a ∈ activities, a.IsNew) (hadmitted : ∀ a ∈ activities, admits a) :
    Traffic.Leads admits others ⟨s, parties, gone⟩
      ⟨s, parties ++ activities.map ({ activity := · }), gone⟩ := by
  induction activities generalizing parties with
  | nil => rw [List.map_nil, List.append_nil]
  | cons a rest ih =>
      have hrest := ih (parties ++ [{ activity := a }])
        (fun a' h => hnew a' (List.mem_cons_of_mem _ h))
        fun a' h => hadmitted a' (List.mem_cons_of_mem _ h)
      rw [List.append_assoc] at hrest
      exact .head (.comes (hnew a List.mem_cons_self) (hadmitted a List.mem_cons_self)) hrest

/-- **Jobs that are finished beside each other are traffic**, with a party for the window of each. -/
theorem finish_follows (admits : Activity → Prop) (others : Cache → Cache → Prop)
    {jobs : List (Job α)} (hresult : ∀ job ∈ jobs, job.result = none)
    (hnew : ∀ job ∈ jobs, (Activity.run job.window).IsNew)
    (hadmitted : ∀ job ∈ jobs, admits (.run job.window)) (s : Session) :
    ∃ t jobs', finish jobs s = (t.session, jobs'.map Job.result) ∧ jobs'.map plan = jobs.map plan ∧
      t.gone = [] ∧ Follows admits others { session := s } jobs' t := by
  have hcome : Traffic.Leads admits others { session := s }
      ⟨s, (jobs.map fun job => Activity.run job.window).map ({ activity := · }), []⟩ := by
    refine comes_all s [] [] (fun a ha => ?_) fun a ha => ?_
    · obtain ⟨job, hjob, rfl⟩ := List.mem_map.mp ha
      exact hnew job hjob
    · obtain ⟨job, hjob, rfl⟩ := List.mem_map.mp ha
      exact hadmitted job hjob
  have hstarts : Follows admits others { session := s } jobs
      ⟨s, (jobs.map fun job => Activity.run job.window).map ({ activity := · }), []⟩ := by
    refine ⟨hcome, ?_, fun job hjob result hsome => ?_⟩
    · rw [Runs, List.map_map]
      exact List.map_id _
    · rw [hresult job hjob] at hsome
      cases hsome
  obtain ⟨hplans, parties, hends⟩ :=
    passes_follows (2 * (jobs.map (·.window.steps + 1)).foldr (· + ·) 0 + 1) hstarts
  exact ⟨_, _, rfl, hplans, rfl, hends⟩

end Job

end NearNotes
