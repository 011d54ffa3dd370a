import Mathlib
import NearNotes.Proofs.Flight.Callers
import NearNotes.Proofs.Results

/-!
# The counters tell the truth

A `Visit` is what can be seen of one call through the cache from outside: whether it started to
compute, its answer, and by how much its own steps have raised the counters. Nothing but the history
is needed to tell the visits.

* `starts` : an event starts a computation; `Visit`, `visits` : the calls of a history, first to last;
* `Turn`, `Filed.turn_of_enabled` : what a step of a call does to the counters;
* `Visit.Fair` : what a call may have added; `Tallied` : the counters are the sums of that, and every
  call in progress is a visit that is still open;
* `Tallied.apply`, `Tallied.run` : every event keeps it, and so does every history;
* `Tallied.misses_eq`, `Tallied.hits_eq` : the counters, told from the starts and the answers alone;
* `Fresh` : a cache that was just opened; `Fresh.counters_run`, `Fresh.visits_fair` : its counters
  after a history.
-/

namespace NearNotes

namespace Cache

/-! ## Visits -/

def starts (c : Cache) (event : Event) : Bool :=
  (c.apply event).calls.any fun call => call.phase == .computing && !c.calls.contains call

structure Visit where
  /-- The number of the call, if its first look has found no row. -/
  id : Option CallId
  /-- How often it started to compute. -/
  started : Nat
  answer : Option Answer
  /-- By how much its steps have raised the counters. -/
  hits : Nat
  misses : Nat

/-- What can be seen of a call after an event, which counts if it is a step of this call. -/
def Visit.after (c : Cache) (event : Event) (v : Visit) : Visit :=
  if event.caller?.isSome ∧ event.caller? = v.id then
    { v with
      started := v.started + (c.starts event).toNat
      answer := ((c.answered event).map Prod.snd).or v.answer
      hits := v.hits + ((c.apply event).hits - c.hits)
      misses := v.misses + ((c.apply event).misses - c.misses) }
  else v

/-- The visits after an event: a first look is a new one. -/
def visitsAfter (c : Cache) (visits : List Visit) (event : Event) : List Visit :=
  match event with
  | .begin text => visits ++ [{
      id := (c.begin text).2.getRight?
      started := (c.starts event).toNat
      answer := (c.begin text).2.getLeft?
      hits := (c.apply event).hits - c.hits
      misses := (c.apply event).misses - c.misses }]
  | event => visits.map (Visit.after c event)

def visits : Cache → List Visit → List Event → List Visit
  | _, seen, [] => seen
  | c, seen, event :: history => visits (c.apply event) (c.visitsAfter seen event) history

/-- The call was answered with a vector and has not started to compute. -/
def Visit.IsHit (v : Visit) : Prop := (∃ e, v.answer = some (.ok e)) ∧ v.started = 0

instance (v : Visit) : Decidable v.IsHit :=
  decidable_of_iff (v.answer.any Except.isOk = true ∧ v.started = 0) <| by
    unfold Visit.IsHit
    refine and_congr_left fun _ => ?_
    match v.answer with
    | none => simp
    | some (.ok e) => simp [Except.isOk, Except.toBool]
    | some (.error e) => simp [Except.isOk, Except.toBool]

/-- What a call has added to the counters: a miss if it started to compute, which it does at most
once, and a hit if it was answered without that. -/
structure Visit.Fair (v : Visit) : Prop where
  once : v.started ≤ 1
  misses : v.misses = v.started
  hits : v.hits = if v.IsHit then 1 else 0

/-! ## Starts -/

theorem starts_iff {c : Cache} {event : Event} :
    c.starts event = true ↔ ∃ text, c.Starts event text := by
  simp only [starts, Starts, List.any_eq_true, Bool.and_eq_true, beq_iff_eq, Bool.not_eq_true',
    List.contains_eq_mem, decide_eq_false_iff_not]
  constructor
  · rintro ⟨call, hcall, hphase, hnew⟩
    exact ⟨call.text, call, hcall, rfl, hphase, hnew⟩
  · rintro ⟨text, call, hcall, -, hphase, hnew⟩
    exact ⟨call, hcall, hphase, hnew⟩

theorem starts_eq_false {c : Cache} {event : Event}
    (h : ∀ call ∈ (c.apply event).calls, call.phase = .computing → call ∈ c.calls) :
    c.starts event = false := by
  rw [← Bool.not_eq_true, starts_iff]
  rintro ⟨text, call, hcall, -, hphase, hnew⟩
  exact hnew (h call hcall hphase)

theorem starts_of_sameFlight {c : Cache} {event : Event} (h : SameFlight c (c.apply event)) :
    c.starts event = false := starts_eq_false fun _ hcall _ => h.calls ▸ hcall

/-! ## Counters -/

@[simp] theorem hits_finish (c : Cache) (id : CallId) : (c.finish id).hits = c.hits := by
  unfold finish
  split <;> rfl

@[simp] theorem misses_finish (c : Cache) (id : CallId) : (c.finish id).misses = c.misses := by
  unfold finish
  split <;> rfl

@[simp] theorem hits_enqueue (c : Cache) (text : String) : (c.enqueue text).1.hits = c.hits := by
  rw [enqueue_eq_lineUp]
  show (c.lockFor text).1.hits = c.hits
  unfold lockFor
  split <;> rfl

@[simp] theorem misses_enqueue (c : Cache) (text : String) :
    (c.enqueue text).1.misses = c.misses := by
  rw [enqueue_eq_lineUp]
  show (c.lockFor text).1.misses = c.misses
  unfold lockFor
  split <;> rfl

theorem counters_computed (c : Cache) (id : CallId) (outcome : Answer) :
    (c.computed id outcome).1.hits = c.hits ∧ (c.computed id outcome).1.misses = c.misses := by
  unfold computed
  split
  · simp
  · split
    · simp
    · exact ⟨rfl, rfl⟩

theorem counters_settle (c : Cache) (id : CallId) (refusal : Option String) :
    (c.settle id refusal).1.hits = c.hits ∧ (c.settle id refusal).1.misses = c.misses := by
  unfold settle
  split
  · rename_i text lock v _
    obtain ⟨db, hdb, -⟩ := offer_grows c text v refusal
    simp [hdb]
  · exact ⟨rfl, rfl⟩

theorem counters_write (c : Cache) (text : String) (v : Embedding) :
    (c.write text v).1.hits = c.hits ∧ (c.write text v).1.misses = c.misses := by
  obtain ⟨db, hdb, -⟩ := write_grows c text v
  rw [hdb]
  exact ⟨rfl, rfl⟩

theorem sameFlight_write (c : Cache) (text : String) (v : Embedding) :
    SameFlight c (c.write text v).1 := by
  obtain ⟨db, hdb, -⟩ := write_grows c text v
  rw [hdb]
  exact ⟨rfl, rfl, rfl, rfl, rfl, rfl⟩

theorem sameFlight_rival (c : Cache) (text : String) (cell : Cell) :
    SameFlight c (c.apply (.rival text cell)) := by
  unfold apply
  rw [if_pos (show c.enabled (.rival text cell) = true from rfl)]
  simp only
  split
  · exact ⟨rfl, rfl, rfl, rfl, rfl, rfl⟩
  · exact .refl c

theorem counters_rival (c : Cache) (text : String) (cell : Cell) :
    (c.apply (.rival text cell)).hits = c.hits ∧ (c.apply (.rival text cell)).misses = c.misses := by
  unfold apply
  rw [if_pos (show c.enabled (.rival text cell) = true from rfl)]
  simp only
  split
  · exact ⟨rfl, rfl⟩
  · exact ⟨rfl, rfl⟩

/-! ## What a step of a call does -/

inductive Turn (c : Cache) (event : Event) (call : Call) : Prop
  /-- The second look finds a vector. -/
  | hit {v : Embedding} (waited : call.phase = .queued)
      (answer : c.answered event = some (call.text, .ok v)) (quiet : c.starts event = false)
      (hits : (c.apply event).hits = c.hits + 1) (misses : (c.apply event).misses = c.misses)
      (gone : ∀ other ∈ (c.apply event).calls, other.id ≠ call.id)
  /-- The second look finds no row, and the call starts to compute. -/
  | miss (waited : call.phase = .queued) (answer : c.answered event = none)
      (loud : c.starts event = true)
      (hits : (c.apply event).hits = c.hits) (misses : (c.apply event).misses = c.misses + 1)
      (on : ∀ other ∈ (c.apply event).calls, other.id = call.id → other.phase ≠ .queued)
  /-- A vector is about to be stored. -/
  | goesOn (worked : call.phase ≠ .queued) (answer : c.answered event = none)
      (quiet : c.starts event = false)
      (hits : (c.apply event).hits = c.hits) (misses : (c.apply event).misses = c.misses)
      (on : ∀ other ∈ (c.apply event).calls, other.id = call.id → other.phase ≠ .queued)
  /-- The call fails, is dropped, or is answered with what came of its vector. -/
  | ends (answer : ∀ text v, c.answered event = some (text, .ok v) → call.phase ≠ .queued)
      (quiet : c.starts event = false)
      (hits : (c.apply event).hits = c.hits) (misses : (c.apply event).misses = c.misses)
      (gone : ∀ other ∈ (c.apply event).calls, other.id ≠ call.id)

section

variable {c : Cache} {call : Call} {event : Event}

theorem Filed.gone_of_finish (h : Filed c) (hcall : call ∈ c.calls)
    (hsame : SameFlight (c.finish call.id) (c.apply event)) :
    ∀ other ∈ (c.apply event).calls, other.id ≠ call.id := by
  intro other hother
  rw [hsame.calls] at hother
  exact ((h.mem_calls_finish hcall).mp hother).2

theorem Filed.starts_of_finish (h : Filed c) (hcall : call ∈ c.calls)
    (hsame : SameFlight (c.finish call.id) (c.apply event)) : c.starts event = false := by
  refine starts_eq_false fun other hother _ => ?_
  rw [hsame.calls] at hother
  exact ((h.mem_calls_finish hcall).mp hother).1

theorem Filed.phase_of_setPhase (h : Filed c) (hcall : call ∈ c.calls) {phase : Phase}
    (hon : phase ≠ .queued) {c' : Cache} (hcalls : c'.calls = (c.setPhase call.id phase).calls) :
    ∀ other ∈ c'.calls, other.id = call.id → other.phase ≠ .queued := by
  intro other hother hid
  rw [hcalls] at hother
  rcases (h.mem_setPhase hcall).mp hother with rfl | ⟨-, hne⟩
  · exact hon
  · exact absurd hid hne

theorem Filed.turn_takeUp (h : Filed c) (hcall : call ∈ c.calls)
    (henabled : c.enabled (.takeUp call.id) = true) : Turn c (.takeUp call.id) call := by
  have hfound := h.call? hcall
  have hgranted : call.id ∈ c.granted := by simpa [enabled, isGranted] using henabled
  have hwaited : call.phase = .queued := by
    by_contra hphase
    exact h.not_granted hcall hphase hgranted
  have happly : c.apply (.takeUp call.id) = (c.takeUp call.id).1 := by rw [apply, if_pos henabled]
  have hanswer : c.answered (.takeUp call.id) = (c.takeUp call.id).2.map (call.text, ·) := by
    rw [answered, if_pos henabled, answerTo_of_call hfound]
  have hends := h.sameFlight_finish_granted hcall
  rw [takeUp_eq hfound] at happly hanswer
  cases hread : c.read call.text with
  | error e =>
      simp only [hread] at happly hanswer
      have hsame : SameFlight (c.finish call.id) (c.apply (.takeUp call.id)) := happly ▸ hends
      refine .ends (fun text v hv => ?_) (h.starts_of_finish hcall hsame) (by simp [happly])
        (by simp [happly]) (h.gone_of_finish hcall hsame)
      rw [hanswer] at hv
      cases hv
  | ok found =>
      cases found with
      | some v =>
          simp only [hread] at happly hanswer
          have hhits : SameFlight ({ c with granted := c.granted.erase call.id } : Cache)
              { c with granted := c.granted.erase call.id, hits := c.hits + 1 } :=
            ⟨rfl, rfl, rfl, rfl, rfl, rfl⟩
          have hsame : SameFlight (c.finish call.id) (c.apply (.takeUp call.id)) :=
            happly ▸ hends.trans (hhits.finish call.id)
          exact .hit hwaited hanswer (h.starts_of_finish hcall hsame) (by simp [happly])
            (by simp [happly]) (h.gone_of_finish hcall hsame)
      | none =>
          simp only [hread] at happly hanswer
          have hcalls : (c.apply (.takeUp call.id)).calls = (c.setPhase call.id .computing).calls := by
            rw [happly]
            rfl
          refine .miss hwaited hanswer (starts_iff.mpr ⟨call.text, { call with phase := .computing },
            ?_, rfl, rfl, fun hmem => ?_⟩) (by rw [happly]; rfl) (by rw [happly]; rfl)
            (h.phase_of_setPhase hcall (by decide) hcalls)
          · rw [hcalls]
            exact (h.mem_setPhase hcall).mpr (Or.inl rfl)
          · -- the call was waiting, and no other has its number
            have hold := h.eq_of_id_eq hmem hcall rfl
            rw [← hold] at hwaited
            cases hwaited

theorem Filed.turn_computed (h : Filed c) (hcall : call ∈ c.calls) (outcome : Answer)
    (henabled : c.enabled (.computed call.id outcome) = true) :
    Turn c (.computed call.id outcome) call := by
  have hfound := h.call? hcall
  have hphase : call.phase = .computing := by simpa [enabled, hfound] using henabled
  have hon : call.phase ≠ .queued := by rw [hphase]; decide
  have happly : c.apply (.computed call.id outcome) = (c.computed call.id outcome).1 := by
    rw [apply, if_pos henabled]
  have hanswer : c.answered (.computed call.id outcome) =
      (c.computed call.id outcome).2.map (call.text, ·) := by
    rw [answered, if_pos henabled, answerTo_of_call hfound]
  obtain ⟨hhits, hmisses⟩ := counters_computed c call.id outcome
  rw [← happly] at hhits hmisses
  have hends : c.apply (.computed call.id outcome) = c.finish call.id →
      Turn c (.computed call.id outcome) call := by
    intro hfinish
    have hsame : SameFlight (c.finish call.id) (c.apply (.computed call.id outcome)) :=
      hfinish ▸ .refl _
    exact .ends (fun _ _ _ => hon) (h.starts_of_finish hcall hsame) hhits hmisses
      (h.gone_of_finish hcall hsame)
  unfold computed at happly hanswer
  cases outcome with
  | error e => exact hends happly
  | ok v =>
      cases hlength : c.requireLength v with
      | error e =>
          simp only [hlength] at happly
          exact hends happly
      | ok _ =>
          simp only [hlength] at happly hanswer
          have hcalls := congrArg Cache.calls happly
          have hstores : Phase.storing v ≠ .queued := Phase.noConfusion
          refine .goesOn hon hanswer (starts_eq_false fun other hother hcomputes => ?_) hhits hmisses
            (h.phase_of_setPhase hcall hstores hcalls)
          rw [hcalls] at hother
          rcases (h.mem_setPhase hcall).mp hother with rfl | ⟨hold, -⟩
          · cases hcomputes
          · exact hold

theorem Filed.turn_settle (h : Filed c) (hcall : call ∈ c.calls) {refusal : Option String}
    (henabled : c.enabled (.settle call.id refusal) = true) :
    Turn c (.settle call.id refusal) call := by
  obtain ⟨v, hphase⟩ := h.storing_of_enabled hcall henabled
  have happly : c.apply (.settle call.id refusal) = (c.settle call.id refusal).1 := by
    rw [apply, if_pos henabled]
  obtain ⟨hhits, hmisses⟩ := counters_settle c call.id refusal
  rw [← happly] at hhits hmisses
  cases h.stepped_settle hcall henabled with
  | ends closes same =>
      exact .ends (fun _ _ _ => by rw [hphase]; exact Phase.noConfusion)
        (h.starts_of_finish hcall same) hhits hmisses (h.gone_of_finish hcall same)
  | goesOn on running first same =>
      -- a call that is to be stored ends
      simp [ended?, answered, henabled, answerTo_of_call (h.call? hcall),
        settle_of_storing (h.call? hcall) hphase refusal, Event.caller?] at running

theorem Filed.turn_abandon (h : Filed c) (hcall : call ∈ c.calls)
    (henabled : c.enabled (.abandon call.id) = true) : Turn c (.abandon call.id) call := by
  have happly : c.apply (.abandon call.id) = c.finish call.id := by
    rw [apply, if_pos henabled]
    rfl
  have hsame : SameFlight (c.finish call.id) (c.apply (.abandon call.id)) := happly ▸ .refl _
  refine .ends (fun text v hv => ?_) (h.starts_of_finish hcall hsame) (by simp [happly])
    (by simp [happly]) (h.gone_of_finish hcall hsame)
  rw [answered, if_pos henabled] at hv
  cases hv

theorem Filed.calls_of_enabled (h : Filed c) {id : CallId} (hcaller : event.caller? = some id)
    (henabled : c.enabled event = true) :
    ∀ other ∈ (c.apply event).calls, other.id = id ∨ other ∈ c.calls := by
  intro other hother
  obtain ⟨call, hcall, rfl, hstepped⟩ := h.step_of_enabled hcaller henabled
  cases hstepped with
  | ends closes same =>
      rw [same.calls] at hother
      exact Or.inr ((h.mem_calls_finish hcall).mp hother).1
  | goesOn on running first same =>
      rw [same.calls] at hother
      rcases (h.mem_setPhase hcall).mp hother with rfl | ⟨hold, -⟩
      · exact Or.inl rfl
      · exact Or.inr hold

theorem Filed.turn_of_enabled (h : Filed c) {id : CallId} (hcaller : event.caller? = some id)
    (henabled : c.enabled event = true) : ∃ call ∈ c.calls, call.id = id ∧ Turn c event call := by
  obtain ⟨call, hcall, rfl, -⟩ := h.step_of_enabled hcaller henabled
  refine ⟨call, hcall, rfl, ?_⟩
  cases event with
  | begin text => cases hcaller
  | write text v => cases hcaller
  | rival text cell => cases hcaller
  | takeUp id =>
      cases hcaller
      exact h.turn_takeUp hcall henabled
  | computed id outcome =>
      cases hcaller
      exact h.turn_computed hcall outcome henabled
  | settle id refusal =>
      cases hcaller
      exact h.turn_settle hcall henabled
  | abandon id =>
      cases hcaller
      exact h.turn_abandon hcall henabled

end

/-! ## The tally -/

/-- A visit stands for the call of its number as long as that is in progress. -/
structure Visit.Open (c : Cache) (v : Visit) (id : CallId) : Prop where
  given : id < c.nextCall
  running : ∀ call ∈ c.calls, call.id = id →
    v.answer = none ∧ (v.started = 0 ↔ call.phase = .queued)

/-- The counters have grown by what the visits have added to them, and every call in progress is a
visit. -/
structure Tallied (start c : Cache) (seen : List Visit) : Prop where
  fair : ∀ v ∈ seen, v.Fair
  follows : ∀ v ∈ seen, ∀ id, v.id = some id → v.Open c id
  known : ∀ call ∈ c.calls, ∃ v ∈ seen, v.id = some call.id
  distinct : (seen.filterMap Visit.id).Nodup
  hits : c.hits = start.hits + (seen.map Visit.hits).sum
  misses : c.misses = start.misses + (seen.map Visit.misses).sum

section

variable {start c : Cache} {seen : List Visit} {event : Event} {v : Visit}

theorem Visit.after_of_ne (h : event.caller? = none ∨ event.caller? ≠ v.id) :
    v.after c event = v := by
  unfold after
  split
  · rename_i hstep
    rcases h with hnone | hne
    · rw [hnone] at hstep
      cases hstep.1
    · exact absurd hstep.2 hne
  · rfl

theorem visitsAfter_of_ne_begin (h : ∀ text, event ≠ .begin text) (c : Cache) (seen : List Visit) :
    c.visitsAfter seen event = seen.map (Visit.after c event) := by
  cases event with
  | begin text => exact absurd rfl (h text)
  | _ => rfl

theorem map_after_of_ne {part : List Visit}
    (h : ∀ v ∈ part, event.caller? = none ∨ event.caller? ≠ v.id) :
    part.map (Visit.after c event) = part :=
  (List.map_congr_left fun v hv => Visit.after_of_ne (h v hv)).trans (List.map_id part)

theorem exists_split_of_distinct (h : (seen.filterMap Visit.id).Nodup) (hv : v ∈ seen) {id : CallId}
    (hid : v.id = some id) :
    ∃ before after, seen = before ++ v :: after ∧ ∀ other ∈ before ++ after, other.id ≠ some id := by
  obtain ⟨before, after, rfl⟩ := List.append_of_mem hv
  refine ⟨before, after, rfl, fun other hother heq => ?_⟩
  rw [List.filterMap_append, List.filterMap_cons_some hid, List.nodup_middle, List.nodup_cons,
    ← List.filterMap_append] at h
  exact h.1 (List.mem_filterMap.mpr ⟨other, hother, heq⟩)

theorem Tallied.of_sameFlight (h : Tallied start c seen) {c' : Cache} (hsame : SameFlight c c')
    (hhits : c'.hits = c.hits) (hmisses : c'.misses = c.misses) : Tallied start c' seen where
  fair := h.fair
  follows v hv id hid := by
    obtain ⟨hgiven, hrunning⟩ := h.follows v hv id hid
    exact ⟨hsame.nextCall ▸ hgiven, fun call hcall => hrunning call (hsame.calls ▸ hcall)⟩
  known call hcall := h.known call (hsame.calls ▸ hcall)
  distinct := h.distinct
  hits := hhits.trans h.hits
  misses := hmisses.trans h.misses

/-! One visit among the others. -/

variable {before after : List Visit}

theorem mem_middle_visit {other : Visit} :
    other ∈ before ++ v :: after ↔ other = v ∨ other ∈ before ++ after := by
  simp only [List.mem_append, List.mem_cons]
  tauto

theorem sum_middle_visit (g : Visit → Nat) :
    ((before ++ v :: after).map g).sum = g v + ((before ++ after).map g).sum := by
  simp only [List.map_append, List.map_cons, List.sum_append, List.sum_cons]
  omega

/-- A step of one visit's call. The calls that are in progress afterwards were so before, but for the
one that took the step. -/
theorem Tallied.step (h : Tallied start c (before ++ v :: after)) {id : CallId}
    (hid : v.id = some id) {c' : Cache} {v' : Visit} (hsame : v'.id = v.id) (hfair : v'.Fair)
    (hnext : c.nextCall ≤ c'.nextCall)
    (hcalls : ∀ call ∈ c'.calls, call.id = id ∨ call ∈ c.calls)
    (hothers : ∀ other ∈ before ++ after, other.id ≠ some id)
    (hrunning : ∀ call ∈ c'.calls, call.id = id →
      v'.answer = none ∧ (v'.started = 0 ↔ call.phase = .queued))
    (hhits : c'.hits + v.hits = c.hits + v'.hits)
    (hmisses : c'.misses + v.misses = c.misses + v'.misses) :
    Tallied start c' (before ++ v' :: after) := by
  have hopen := h.follows v (mem_middle_visit.mpr (Or.inl rfl)) id hid
  refine ⟨fun other hother => ?_, fun other hother id' hid' => ?_, fun call hcall => ?_, ?_, ?_, ?_⟩
  · rcases mem_middle_visit.mp hother with rfl | hother
    · exact hfair
    · exact h.fair other (mem_middle_visit.mpr (Or.inr hother))
  · rcases mem_middle_visit.mp hother with rfl | hmem
    · rw [hsame, hid] at hid'
      cases hid'
      exact ⟨hopen.given.trans_le hnext, hrunning⟩
    · obtain ⟨hgiven, hold⟩ := h.follows other (mem_middle_visit.mpr (Or.inr hmem)) id' hid'
      refine ⟨hgiven.trans_le hnext, fun call hcall hcallId => ?_⟩
      rcases hcalls call hcall with hstepped | hkept
      · exact absurd (hid'.trans (congrArg some (hcallId.symm.trans hstepped))) (hothers other hmem)
      · exact hold call hkept hcallId
  · rcases hcalls call hcall with hstepped | hkept
    · exact ⟨v', mem_middle_visit.mpr (Or.inl rfl), by rw [hsame, hid, hstepped]⟩
    · obtain ⟨other, hother, hcallId⟩ := h.known call hkept
      rcases mem_middle_visit.mp hother with rfl | hmem
      · exact ⟨v', mem_middle_visit.mpr (Or.inl rfl), hsame.trans hcallId⟩
      · exact ⟨other, mem_middle_visit.mpr (Or.inr hmem), hcallId⟩
  · have hdistinct := h.distinct
    simp only [List.filterMap_append, List.filterMap_cons, hsame] at hdistinct ⊢
    exact hdistinct
  · have := h.hits
    rw [sum_middle_visit] at this ⊢
    omega
  · have := h.misses
    rw [sum_middle_visit] at this ⊢
    omega

theorem Tallied.append (h : Tallied start c seen) {c' : Cache} (hfair : v.Fair)
    (hnext : c.nextCall ≤ c'.nextCall) (hnew : ∀ id, v.id = some id → c.nextCall ≤ id ∧ v.Open c' id)
    (hcalls : ∀ call ∈ c'.calls, v.id = some call.id ∨ call ∈ c.calls)
    (hhits : c'.hits = c.hits + v.hits) (hmisses : c'.misses = c.misses + v.misses) :
    Tallied start c' (seen ++ [v]) := by
  refine ⟨fun other hother => ?_, fun other hother id hid => ?_, fun call hcall => ?_, ?_, ?_, ?_⟩
  · rcases List.mem_append.mp hother with hold | hlast
    · exact h.fair other hold
    · exact List.mem_singleton.mp hlast ▸ hfair
  · rcases List.mem_append.mp hother with hold | hlast
    · obtain ⟨hgiven, hrunning⟩ := h.follows other hold id hid
      refine ⟨hgiven.trans_le hnext, fun call hcall hcallId => ?_⟩
      rcases hcalls call hcall with hlast | hkept
      · exact absurd (hcallId ▸ (hnew _ hlast).1) (Nat.not_le.mpr hgiven)
      · exact hrunning call hkept hcallId
    · obtain rfl := List.mem_singleton.mp hlast
      exact (hnew id hid).2
  · rcases hcalls call hcall with hlast | hkept
    · exact ⟨v, by simp, hlast⟩
    · obtain ⟨other, hother, hid⟩ := h.known call hkept
      exact ⟨other, List.mem_append_left _ hother, hid⟩
  · rw [List.filterMap_append]
    refine List.nodup_append.mpr ⟨h.distinct, ?_, fun id hold id' hlast => ?_⟩
    · cases hid : v.id with
      | none => simp [hid]
      | some id => simp [hid]
    · obtain ⟨other, hother, hid⟩ := List.mem_filterMap.mp hold
      obtain ⟨other', hother', hid'⟩ := List.mem_filterMap.mp hlast
      obtain rfl := List.mem_singleton.mp hother'
      have hlt := (h.follows other hother id hid).given
      exact Nat.ne_of_lt (hlt.trans_le (hnew id' hid').1)
  · rw [hhits, h.hits]
    simp [Nat.add_assoc]
  · rw [hmisses, h.misses]
    simp [Nat.add_assoc]

/-! ## Every event -/

theorem Tallied.begin (h : Tallied start c seen) (text : String) :
    Tallied start (c.apply (.begin text)) (c.visitsAfter seen (.begin text)) := by
  have happly : c.apply (.begin text) = (c.begin text).1 := rfl
  simp only [visitsAfter, happly]
  -- a call that is answered at once has no number
  have hanswered : ∀ {a : Answer} {c' : Cache}, c.begin text = (c', .inl a) → SameFlight c c' →
      c'.hits = c.hits + (if a.isOk then 1 else 0) → c'.misses = c.misses →
      Tallied start (c.begin text).1 (seen ++ [{
        id := (c.begin text).2.getRight?
        started := (c.starts (.begin text)).toNat
        answer := (c.begin text).2.getLeft?
        hits := (c.begin text).1.hits - c.hits
        misses := (c.begin text).1.misses - c.misses }]) := by
    intro a c' hbegin hsame hhits hmisses
    have hquiet : c.starts (.begin text) = false :=
      starts_of_sameFlight (by rw [happly, hbegin]; exact hsame)
    rw [hbegin, hquiet]
    refine h.append ⟨Nat.zero_le _, ?_, ?_⟩ hsame.nextCall.ge (fun id hid => by cases hid)
      (fun call hcall => Or.inr (hsame.calls ▸ hcall)) ?_ ?_
    · simp [hmisses]
    · cases a with
      | ok e => simp [hhits, Visit.IsHit, Except.isOk, Except.toBool]
      | error e => simp [hhits, Visit.IsHit, Except.isOk, Except.toBool]
    · simp [hhits]
    · simp [hmisses]
  cases hread : c.read text with
  | error e =>
      have hbegin : c.begin text = (c, .inl (.error e)) := by simp only [Cache.begin, hread]
      exact hanswered hbegin (.refl c) rfl rfl
  | ok found =>
      cases found with
      | some e =>
          have hbegin : c.begin text = ({ c with hits := c.hits + 1 }, .inl (.ok e)) := by
            simp only [Cache.begin, hread]
          exact hanswered hbegin ⟨rfl, rfl, rfl, rfl, rfl, rfl⟩ rfl rfl
      | none =>
          have hbegin : c.begin text = ((c.enqueue text).1, .inr c.nextCall) := by
            simp only [Cache.begin, hread, enqueue_id]
          have hcalls : ∀ call ∈ (c.enqueue text).1.calls,
              call ∈ c.calls ∨ (call.id = c.nextCall ∧ call.phase = .queued) := by
            intro call hcall
            rw [calls_enqueue] at hcall
            rcases List.mem_append.mp hcall with hold | hlast
            · exact Or.inl hold
            · right
              rw [List.mem_singleton.mp hlast]
              exact ⟨nextCall_lockFor c text, rfl⟩
          have hquiet : c.starts (.begin text) = false := by
            refine starts_eq_false fun call hcall hphase => ?_
            rw [happly, hbegin] at hcall
            rcases hcalls call hcall with hold | ⟨-, hqueued⟩
            · exact hold
            · rw [hqueued] at hphase
              cases hphase
          rw [hbegin, hquiet]
          refine h.append ⟨Nat.zero_le _, ?_, ?_⟩ ?_ (fun id hid => ?_) (fun call hcall => ?_) ?_ ?_
          · simp
          · simp [Visit.IsHit]
          · rw [nextCall_enqueue]
            exact Nat.le_succ _
          · cases hid
            refine ⟨Nat.le_refl _, ?_, fun call hcall hid => ⟨rfl, ?_⟩⟩
            · rw [nextCall_enqueue]
              exact Nat.lt_succ_self _
            · rcases hcalls call hcall with hold | ⟨-, hqueued⟩
              · -- numbers in use are below the next one
                obtain ⟨other, hother, hid'⟩ := h.known call hold
                have hlt := (h.follows other hother call.id hid').given
                exact absurd hid (Nat.ne_of_lt hlt)
              · simp [hqueued]
          · rcases hcalls call hcall with hold | ⟨hid, -⟩
            · exact Or.inr hold
            · exact Or.inl (congrArg some hid.symm)
          · simp
          · simp

/-- A step of a call that can be taken counts for the visit of this call. -/
theorem Tallied.turn (h : Tallied start c seen) (hfiled : Filed c) {id : CallId}
    (hcaller : event.caller? = some id) (henabled : c.enabled event = true) :
    Tallied start (c.apply event) (seen.map (Visit.after c event)) := by
  obtain ⟨call, hcall, rfl, hturn⟩ := hfiled.turn_of_enabled hcaller henabled
  obtain ⟨v, hv, hid⟩ := h.known call hcall
  obtain ⟨hanswer, hqueued⟩ := (h.follows v hv call.id hid).running call hcall rfl
  obtain ⟨before, after, rfl, hothers⟩ := exists_split_of_distinct h.distinct hv hid
  have hkept : ∀ part : List Visit, (∀ other ∈ part, other ∈ before ++ after) →
      part.map (Visit.after c event) = part := by
    refine fun part hpart => map_after_of_ne fun other hother => Or.inr ?_
    rw [hcaller]
    exact fun heq => hothers other (hpart other hother) heq.symm
  rw [List.map_append, List.map_cons, hkept before fun _ => List.mem_append_left _,
    hkept after fun _ => List.mem_append_right _]
  have hnext := (apply_onward c event).later
  have hcalls := hfiled.calls_of_enabled hcaller henabled
  have hfair := h.fair v hv
  have hnone : ¬ v.IsHit := by
    rintro ⟨⟨e, he⟩, -⟩
    rw [hanswer] at he
    cases he
  have hafter : v.after c event = { v with
      started := v.started + (c.starts event).toNat
      answer := (c.answered event).map Prod.snd
      hits := (c.apply event).hits - c.hits
      misses := v.started + ((c.apply event).misses - c.misses) } := by
    have hzero : v.hits = 0 := by rw [hfair.hits, if_neg hnone]
    rw [Visit.after, if_pos ⟨by rw [hcaller]; rfl, by rw [hcaller, hid]⟩, hanswer, Option.or_none,
      hzero, Nat.zero_add, hfair.misses]
  rw [hafter]
  cases hturn with
  | hit waited answer quiet hits misses gone =>
      have hwaiting : v.started = 0 := hqueued.mpr waited
      refine h.step hid rfl ⟨?_, ?_, ?_⟩ hnext hcalls hothers
        (fun other hother hother' => absurd hother' (gone other hother)) ?_ ?_
      · simp [hwaiting, quiet]
      · simp [quiet, misses]
      · simp [Visit.IsHit, answer, hwaiting, quiet, hits]
      · simp only [hits, hfair.hits, if_neg hnone]
        omega
      · simp only [misses, hfair.misses]
        omega
  | miss waited answer loud hits misses on =>
      have hwaiting : v.started = 0 := hqueued.mpr waited
      refine h.step hid rfl ⟨?_, ?_, ?_⟩ hnext hcalls hothers (fun other hother hother' => ⟨?_, ?_⟩)
        ?_ ?_
      · simp [hwaiting, loud]
      · simp [hwaiting, loud, misses]
      · simp [Visit.IsHit, answer, hits]
      · simp [answer]
      · simp [loud, on other hother hother']
      · simp only [hits, hfair.hits, if_neg hnone]
        omega
      · simp only [misses, hfair.misses]
        omega
  | goesOn worked answer quiet hits misses on =>
      have hworking : v.started ≠ 0 := fun hzero => worked (hqueued.mp hzero)
      refine h.step hid rfl ⟨?_, ?_, ?_⟩ hnext hcalls hothers (fun other hother hother' => ⟨?_, ?_⟩)
        ?_ ?_
      · simpa [quiet] using hfair.once
      · simp [quiet, misses]
      · simp [Visit.IsHit, answer, hits]
      · simp [answer]
      · simp [quiet, hworking, on other hother hother']
      · simp only [hits, hfair.hits, if_neg hnone]
        omega
      · simp only [misses, hfair.misses]
        omega
  | ends answer quiet hits misses gone =>
      refine h.step hid rfl ⟨?_, ?_, ?_⟩ hnext hcalls hothers
        (fun other hother hother' => absurd hother' (gone other hother)) ?_ ?_
      · simpa [quiet] using hfair.once
      · simp [quiet, misses]
      · have hnever : ¬ Visit.IsHit { v with
            started := v.started + (c.starts event).toNat
            answer := (c.answered event).map Prod.snd
            hits := (c.apply event).hits - c.hits
            misses := v.started + ((c.apply event).misses - c.misses) } := by
          rintro ⟨⟨e, he⟩, hzero⟩
          obtain ⟨⟨text, a⟩, hanswered, rfl⟩ := Option.map_eq_some_iff.mp he
          have hidle : v.started = 0 := by simpa [quiet] using hzero
          exact answer text e hanswered (hqueued.mp hidle)
        rw [if_neg hnever]
        simp [hits]
      · simp only [hits, hfair.hits, if_neg hnone]
        omega
      · simp only [misses, hfair.misses]
        omega

/-- **Every event keeps the tally.** -/
theorem Tallied.apply (h : Tallied start c seen) (hfiled : Filed c) (event : Event) :
    Tallied start (c.apply event) (c.visitsAfter seen event) := by
  cases hcaller : event.caller? with
  | some id =>
      have hvisits : c.visitsAfter seen event = seen.map (Visit.after c event) :=
        visitsAfter_of_ne_begin (fun text hbegin => by rw [hbegin] at hcaller; cases hcaller) c seen
      rw [hvisits]
      cases henabled : c.enabled event with
      | true => exact h.turn hfiled hcaller henabled
      | false =>
          obtain ⟨happly, -⟩ := apply_of_enabled henabled
          have hquiet : c.starts event = false := by
            refine starts_of_sameFlight ?_
            rw [happly]
            exact .refl c
          have hstays : seen.map (Visit.after c event) = seen := by
            refine (List.map_congr_left fun v _ => ?_).trans (List.map_id seen)
            simp [Visit.after, happly, hquiet, answered, henabled]
          rwa [hstays, happly]
  | none =>
      cases event with
      | begin text => exact h.begin text
      | write text e =>
          obtain ⟨hhits, hmisses⟩ := counters_write c text e
          rw [visitsAfter_of_ne_begin (fun _ => Event.noConfusion) c,
            map_after_of_ne fun _ _ => Or.inl hcaller]
          exact h.of_sameFlight (sameFlight_write c text e) hhits hmisses
      | rival text cell =>
          obtain ⟨hhits, hmisses⟩ := counters_rival c text cell
          rw [visitsAfter_of_ne_begin (fun _ => Event.noConfusion) c,
            map_after_of_ne fun _ _ => Or.inl hcaller]
          exact h.of_sameFlight (sameFlight_rival c text cell) hhits hmisses
      | takeUp id => cases hcaller
      | computed id outcome => cases hcaller
      | settle id refusal => cases hcaller
      | abandon id => cases hcaller

/-- **So does every history.** -/
theorem Tallied.run (h : Tallied start c seen) (horderly : Orderly c) (history : List Event) :
    Tallied start (c.run history) (c.visits seen history) := by
  induction history generalizing c seen with
  | nil => exact h
  | cons event history ih =>
      exact ih (h.apply horderly.toFiled event) (horderly.apply event)

theorem tallied_of_no_calls (h : c.calls = []) : Tallied c c [] where
  fair v hv := by cases hv
  follows v hv := by cases hv
  known call hcall := by
    rw [h] at hcall
    cases hcall
  distinct := List.nodup_nil
  hits := rfl
  misses := rfl

theorem Tallied.misses_eq (h : Tallied start c seen) :
    c.misses = start.misses + (seen.map Visit.started).sum := by
  rw [h.misses, List.map_congr_left fun v hv => (h.fair v hv).misses]

/-- The hits are the calls that were answered without a computation of their own. -/
theorem Tallied.hits_eq (h : Tallied start c seen) :
    c.hits = start.hits + seen.countP fun v => decide v.IsHit := by
  have hcount : ∀ part : List Visit,
      (part.map fun v => if v.IsHit then 1 else 0).sum = part.countP fun v => decide v.IsHit := by
    intro part
    induction part with
    | nil => rfl
    | cons v part ih =>
        rw [List.map_cons, List.sum_cons, ih, List.countP_cons]
        by_cases hhit : v.IsHit
        · simp [hhit, Nat.add_comm]
        · simp [hhit]
  rw [h.hits, List.map_congr_left fun v hv => (h.fair v hv).hits, hcount]

/-- A call adds to one of the counters at most, and at most once. -/
theorem Visit.Fair.sum_le_one (h : v.Fair) : v.hits + v.misses ≤ 1 := by
  have honce := h.once
  rw [h.hits, h.misses]
  split
  · rename_i hhit
    rw [hhit.2]
  · omega

end

/-! ## A cache that was just opened -/

/-- No call is in progress, nothing has been counted, and there is a table. -/
structure Fresh (c : Cache) : Prop where
  orderly : Orderly c
  calls : c.calls = []
  hits : c.hits = 0
  misses : c.misses = 0
  table : c.database.table.isSome

theorem fresh_of_openOn {db : Database} {opened : Cache} (h : openOn db = .ok opened)
    (dimension : Option Nat) : Fresh { opened with dimension } := by
  obtain ⟨db', hprepare, heq⟩ := bind_eq_ok_iff.mp h
  cases heq
  exact ⟨orderly_of_no_calls db' dimension, rfl, rfl, rfl, (Database.rows_of_prepare hprepare).1⟩

theorem counters_of_table {c : Cache} (h : c.database.table.isSome) :
    c.counters = .ok ⟨c.database.rows.length, c.hits, c.misses⟩ := by
  obtain ⟨t, htable⟩ := Option.isSome_iff_exists.mp h
  unfold counters size Database.rowsOf
  rw [Database.rows_of_table htable, htable]
  rfl

theorem Fresh.counters_run {start : Cache} (h : Fresh start) (history : List Event) :
    (start.run history).counters = .ok ⟨(start.run history).database.rows.length,
      (start.visits [] history).countP fun call => decide call.IsHit,
      ((start.visits [] history).map Visit.started).sum⟩ := by
  have htallied := (tallied_of_no_calls h.calls).run h.orderly history
  rw [counters_of_table ((run_grows start history).table h.table), htallied.hits_eq,
    htallied.misses_eq, h.hits, h.misses, Nat.zero_add, Nat.zero_add]

/-- Each call has added to one counter at most, and the counters are the sums of that. -/
theorem Fresh.visits_fair {start : Cache} (h : Fresh start) (history : List Event) :
    (∀ call ∈ start.visits [] history, call.started ≤ 1 ∧ call.hits + call.misses ≤ 1) ∧
    (start.run history).hits = ((start.visits [] history).map Visit.hits).sum ∧
    (start.run history).misses = ((start.visits [] history).map Visit.misses).sum := by
  have htallied := (tallied_of_no_calls h.calls).run h.orderly history
  refine ⟨fun call hcall => ?_, ?_, ?_⟩
  · have hfair := htallied.fair call hcall
    exact ⟨hfair.once, hfair.sum_le_one⟩
  · rw [htallied.hits, h.hits, Nat.zero_add]
  · rw [htallied.misses, h.misses, Nat.zero_add]

end Cache

end NearNotes
