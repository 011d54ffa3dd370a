import Mathlib
import NearNotes.Proofs.Population.Crowd

/-!
# Texts that are not asked for

A poll of a call has the source asked for the call's own text only, and the call for a text with a row
is answered at once. So jobs ask for texts without a row only, whatever their providers are and whoever
else uses the cache.

* `AsksOnly` : from one log to a later one only some texts were asked for;
* `Provider.fetch_asks`, `Provider.fetch_of_row` : a poll through the cache, and that for a text with
  a row;
* `Window.Spares` : unfinished work is for texts without a row; `Spares.step` : what a step asks for;
* `Job.Course.spares` : what jobs beside each other ask for, in any order;
* `Job.passes_are_course` : passes over any jobs go in such an order.
-/

namespace NearNotes

/-- From one log to a later one: nothing is lost, and every new record is of a single text of some
kind. -/
def AsksOnly (asked : String → Prop) (log log' : List CallRecord) : Prop :=
  ∃ records, log' = log ++ records ∧
    ∀ record ∈ records, ∃ text, asked text ∧ record.input = .one text

namespace AsksOnly

variable {asked asked' : String → Prop} {log log₁ log₂ : List CallRecord}

theorem refl (asked : String → Prop) (log : List CallRecord) : AsksOnly asked log log :=
  ⟨[], (List.append_nil log).symm, nofun⟩

theorem trans (h : AsksOnly asked log log₁) (h' : AsksOnly asked log₁ log₂) :
    AsksOnly asked log log₂ := by
  obtain ⟨records, rfl, hrecords⟩ := h
  obtain ⟨more, rfl, hmore⟩ := h'
  refine ⟨records ++ more, List.append_assoc _ _ _, fun record hrecord => ?_⟩
  exact (List.mem_append.mp hrecord).elim (hrecords record) (hmore record)

theorem mono (himp : ∀ text, asked text → asked' text) (h : AsksOnly asked log log₁) :
    AsksOnly asked' log log₁ := by
  obtain ⟨records, hlog, hrecords⟩ := h
  refine ⟨records, hlog, fun record hrecord => ?_⟩
  obtain ⟨text, htext, hinput⟩ := hrecords record hrecord
  exact ⟨text, himp text htext, hinput⟩

end AsksOnly

/-! ## Polls -/

/-- A session beside itself, for which only one text was asked since some log. -/
def Asking (text : String) (log : List CallRecord) (s s' : Session) : Prop :=
  s' = s ∧ AsksOnly (· = text) log s.log

section

variable {text : String} {log : List CallRecord}

theorem respects_asking : Respects (Asking text log) fun _ _ => True where
  now := by
    rintro s s' ⟨rfl, -⟩
    rfl
  abandon := by
    rintro s s' ⟨rfl, h⟩ id
    exact ⟨rfl, h⟩
  timeout _ _ := trivial

theorem respectsFlight_asking : RespectsFlight (Asking text log) (fun _ _ => True) text where
  begin := by
    rintro s s' ⟨rfl, h⟩
    exact ⟨⟨rfl, h⟩, rfl, fun _ _ => trivial⟩
  granted := by
    rintro s s' ⟨rfl, -⟩ id
    rfl
  takeUp := by
    rintro s s' ⟨rfl, h⟩ id
    exact ⟨⟨rfl, h⟩, rfl, fun _ _ => trivial⟩
  computed := by
    rintro s s' ⟨rfl, h⟩ id outcome -
    exact ⟨⟨rfl, h⟩, rfl, fun _ _ => trivial⟩
  settle := by
    rintro s s' ⟨rfl, h⟩ id
    exact ⟨⟨rfl, h⟩, rfl, fun _ _ => trivial⟩

theorem Source.asked_asks (src : Source) (text : String) (s : Session) :
    AsksOnly (· = text) s.log (src.asked text s).log := by
  refine ⟨_, rfl, fun record hrecord => ?_⟩
  rw [List.mem_singleton.mp hrecord]
  exact ⟨text, rfl, rfl⟩

theorem Provider.respects_asking (p : Provider) :
    p.Respects (Asking text log) (fun _ _ => True) text := by
  induction p with
  | source src =>
      rintro s s' ⟨rfl, h⟩
      exact Source.start_paired rfl rfl ⟨rfl, h.trans (src.asked_asks text _)⟩ trivial
  | resilient inner plan ih => exact ih
  | cached inner ih => exact ⟨ih, respectsFlight_asking⟩

theorem Provider.fetch_asks (p : Provider) (text : String) (work : Option Work) (s : Session) :
    AsksOnly (· = text) s.log (p.fetch text work s).session.log :=
  (p.fetch_paired NearNotes.respects_asking p.respects_asking respectsFlight_asking
    ⟨rfl, .refl _ s.log⟩ fun rest _ => rest.all_true).polls.related.2

/-- The call for a text that has a row is answered at its first poll, be it with an error. -/
theorem Provider.fetch_of_row (p : Provider) {s : Session} (hrow : s.cache.read text ≠ .ok none) :
    (∃ answer, (p.fetch text none s).progress = .done answer) ∧
      (p.fetch text none s).session.log = s.log ∧ (p.fetch text none s).started = false := by
  cases hread : s.cache.read text with
  | error e =>
      simp only [fetch, FlightPoll.start, Cache.begin, hread]
      exact ⟨⟨_, rfl⟩, trivial, trivial⟩
  | ok found =>
      cases found with
      | none => exact absurd hread hrow
      | some v =>
          simp only [fetch, FlightPoll.start_of_hit _ hread]
          exact ⟨⟨_, rfl⟩, trivial, trivial⟩

end

theorem Cache.read_ne_none {c c' : Cache} (h : c.database.Grows c'.database) {text : String}
    (hrows : c.database.rowsFor text ≠ []) : c'.read text ≠ .ok none := by
  intro hread
  exact hrows ((h.kept text hrows).symm.trans (read_eq_none_iff.mp hread).2)

/-! ## Windows -/

namespace Window

/-- The window is about the text, and at some start the text has no row. -/
def Wants (start : Cache) (w : Window) (text : String) : Prop :=
  text ∈ w.texts ∧ start.database.rowsFor text = []

/-- The positions in the window are those of texts, and unfinished work is for texts that had no row
at some start. -/
def Spares (start : Cache) (w : Window) : Prop :=
  ∀ a ∈ w.active, a.position < w.texts.length ∧
    (a.work.isSome → start.database.rowsFor (w.textAt a.position) = [])

variable {start : Cache} {w : Window} {s : Session}

theorem spares_of_new (h : w.active = []) : w.Spares start := by
  intro a ha
  rw [h] at ha
  cases ha

theorem Spares.wake (h : w.Spares start) (s : Session) : (w.wake s).Spares start := h

theorem Spares.fill (h : w.Spares start) : w.fill.Spares start := by
  intro a ha
  rcases List.mem_append.mp ha with hold | hnew
  · exact h a hold
  · obtain ⟨position, hposition, rfl⟩ := List.mem_map.mp hnew
    have hbounds := List.mem_range'_1.mp hposition
    have hlt : position < w.texts.length := by omega
    exact ⟨hlt, nofun⟩

/-- A position is polled for a text without a row, or it is answered without a call. -/
theorem Spares.polled (h : w.Spares start) (hgrows : start.database.Grows s.cache.database)
    {a : Active} (ha : a ∈ w.active) :
    w.Wants start (w.textAt a.position) ∨ (∃ answer, (w.polled a s).progress = .done answer) ∧
      (w.polled a s).session.log = s.log ∧ (w.polled a s).started = false := by
  obtain ⟨hposition, hwork⟩ := h a ha
  by_cases hrows : start.database.rowsFor (w.textAt a.position) = []
  · exact .inl ⟨textAt_mem hposition, hrows⟩
  · right
    have hfirst : a.work = none := Option.not_isSome_iff_eq_none.mp fun hsome => hrows (hwork hsome)
    unfold Window.polled
    rw [hfirst]
    exact w.provider.fetch_of_row (Cache.read_ne_none hgrows hrows)

theorem Spares.asks (h : w.Spares start) (hgrows : start.database.Grows s.cache.database)
    {a : Active} (ha : a ∈ w.active) :
    AsksOnly (w.Wants start) s.log (w.polled a s).session.log := by
  rcases h.polled hgrows ha with hwants | ⟨-, hlog, -⟩
  · refine (w.provider.fetch_asks (w.textAt a.position) a.work s).mono ?_
    rintro text rfl
    exact hwants
  · rw [hlog]
    exact .refl _ _

theorem Spares.poll (h : w.Spares start) (hgrows : start.database.Grows s.cache.database)
    {a : Active} (ha : a ∈ w.active) : (w.poll a s).1.Spares start := by
  cases hprogress : (w.polled a s).progress with
  | pending work =>
      rw [poll_of_pending hprogress]
      have hwants : w.Wants start (w.textAt a.position) := by
        rcases h.polled hgrows ha with hwants | ⟨⟨answer, hdone⟩, -⟩
        · exact hwants
        · rw [hprogress] at hdone
          cases hdone
      intro b hb
      obtain ⟨old, hold, rfl⟩ := List.mem_map.mp hb
      by_cases hsame : old.position = a.position
      · rw [if_pos (by simpa using hsame)]
        refine ⟨(h old hold).1, fun _ => ?_⟩
        show start.database.rowsFor (w.textAt old.position) = []
        rw [hsame]
        exact hwants.2
      · rw [if_neg (by simpa using hsame)]
        exact h old hold
  | done answer =>
      rw [poll_of_done hprogress]
      exact fun b hb => h b (List.mem_filter.mp hb).1

theorem step?_onward {after : Window × Session} (hstep : w.step? s = some after) :
    s.cache.Onward after.2.cache := by
  cases (step?_eq_some hstep).2 with
  | handsOver => exact .refl _
  | fails => exact cancelAll_onward _ s
  | polls =>
      rw [session_poll]
      exact Provider.fetch_onward _ _ _ s
  | skips => exact .refl _

/-- **A step** asks for texts of the window that had no row, and keeps to them. -/
theorem Spares.step (h : w.Spares start) (hgrows : start.database.Grows s.cache.database)
    {after : Window × Session} (hstep : w.step? s = some after) :
    after.1.Spares start ∧ AsksOnly (w.Wants start) s.log after.2.log ∧
      ∀ text ∈ w.callsTo s after.1, w.Wants start text := by
  have hfilled := (h.wake s).fill
  -- where nothing is computed, no text is called for
  have hquiet : ∀ {w' : Window}, w'.computed = w.computed →
      ∀ text ∈ w.callsTo s w', w.Wants start text := by
    intro w' hcomputed text htext
    rw [callsTo_of_computed_eq hcomputed] at htext
    cases htext
  cases (step?_eq_some hstep).2 with
  | handsOver => exact ⟨hfilled, .refl _ _, hquiet rfl⟩
  | fails =>
      refine ⟨nofun, ?_, hquiet rfl⟩
      rw [log_cancelAll]
      exact .refl _ _
  | @polls a rest _ first known =>
      have hready : Spares start { (w.wake s).fill with ready := rest } := hfilled
      refine ⟨hready.poll hgrows known, ?_, fun text htext => ?_⟩
      · rw [session_poll]
        exact hready.asks hgrows known
      · rw [callsTo_poll first] at htext
        split at htext
        · rename_i hstarted
          rw [List.mem_singleton.mp htext]
          refine (hready.polled hgrows known).resolve_right fun ⟨_, _, hnot⟩ => ?_
          rw [hstarted] at hnot
          cases hnot
        · cases htext
  | skips => exact ⟨hfilled, .refl _ _, hquiet rfl⟩

end Window

/-! ## Jobs -/

namespace Job

variable {α : Type} {start : Cache} {m : Nat} {called : List String} {jobs jobs' : List (Job α)}
  {s s' : Session}

/-- Some job is about the text, and at some start the text has no row. -/
def Want (start : Cache) (jobs : List (Job α)) (text : String) : Prop :=
  (∃ about ∈ jobs.map plan, text ∈ about.texts) ∧ start.database.rowsFor text = []

theorem Move.spares (h : Move called jobs s jobs' s')
    (hspares : ∀ job ∈ jobs, job.window.Spares start)
    (hgrows : start.database.Grows s.cache.database) :
    (∀ job ∈ jobs', job.window.Spares start) ∧ start.database.Grows s'.cache.database ∧
      AsksOnly (Want start jobs) s.log s'.log ∧ ∀ text ∈ called, Want start jobs text := by
  cases h with
  | @steps before after job w _ _ running taken =>
      have hjob : job ∈ before ++ job :: after := by simp
      obtain ⟨hkept, hasks, hcalled⟩ := (hspares job hjob).step hgrows taken
      have hwant : ∀ text, job.window.Wants start text →
          Want start (before ++ job :: after) text := fun text hwants =>
        ⟨⟨job.plan, List.mem_map_of_mem hjob, hwants.1⟩, hwants.2⟩
      refine ⟨fun other hother => ?_, hgrows.trans (Window.step?_onward taken).grows,
        hasks.mono hwant, fun text htext => hwant text (hcalled text htext)⟩
      rcases mem_middle.mp hother with rfl | hmem
      · exact hkept
      · exact hspares other (mem_middle.mpr (.inr hmem))
  | @concludes before after job _ running ended =>
      refine ⟨fun other hother => ?_, hgrows, .refl _ _, nofun⟩
      rcases mem_middle.mp hother with rfl | hmem
      · exact hspares job (mem_middle.mpr (.inl rfl))
      · exact hspares other (mem_middle.mpr (.inr hmem))

/-- **Jobs beside each other** ask for texts that had no row, in whatever order they go on. -/
theorem Course.spares (h : Course m called jobs s jobs' s')
    (hspares : ∀ job ∈ jobs, job.window.Spares start)
    (hgrows : start.database.Grows s.cache.database) :
    AsksOnly (Want start jobs) s.log s'.log ∧ ∀ text ∈ called, Want start jobs text := by
  induction h with
  | refl jobs s => exact ⟨.refl _ _, nofun⟩
  | move moved _ ih =>
      obtain ⟨hkept, hgrown, hasks, hcalled⟩ := moved.spares hspares hgrows
      obtain ⟨hlater, hrest⟩ := ih hkept hgrown
      unfold Want at hlater hrest
      rw [moved.plan_eq] at hlater hrest
      refine ⟨hasks.trans hlater, fun text htext => ?_⟩
      exact (List.mem_append.mp htext).elim (hcalled text) (hrest text)
  | wait _ _ _ ih => exact ih hspares hgrows

theorem passes_are_course (fuel : Nat) (jobs : List (Job α)) (s : Session) :
    ∃ m called, Course m called jobs s (Task.passes fuel jobs s).2 (Task.passes fuel jobs s).1 := by
  induction fuel generalizing jobs s with
  | zero => exact ⟨0, [], .refl jobs s⟩
  | succ fuel ih =>
      simp only [Task.passes]
      split
      · obtain ⟨m, called, hpass, -⟩ := pass_course jobs [] s
        obtain ⟨n, later, hrest⟩ := ih (Task.pass jobs s).2 (Task.pass jobs s).1
        exact ⟨m + n, called ++ later, hpass.trans hrest⟩
      · rename_i hidle
        split
        · rename_i due hdue
          obtain ⟨m, called, hrest⟩ := ih jobs { s with now := max s.now due }
          refine ⟨m, called, .wait (Nat.le_max_left _ _) (fun job hjob moment hmoment => ?_) hrest⟩
          have hleast := (Window.foldl_earlier?_eq_some (Task.due? : Job α → _) jobs none hdue).2.2
          refine Nat.max_le.mpr ⟨?_, hleast job hjob moment hmoment⟩
          -- a job whose moment has come can go on
          by_contra hpast
          refine hidle (List.any_eq_true.mpr ⟨job, hjob, ?_⟩)
          exact isReady_of_due hmoment (Nat.le_of_lt (Nat.lt_of_not_le hpast))
        · exact ⟨0, [], .refl jobs s⟩

end Job

end NearNotes
