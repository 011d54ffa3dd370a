import Mathlib
import NearNotes.Proofs.Flight.Keys

/-!
# Handing the lock on

A call that waits for its text's lock waits for a call that has the lock: that one computes, stores,
or has just been given the lock and can take it up. When it ends, in whatever way, the next in line
has the lock, and nothing that others do takes it away.

* `Served`, `Filed.served` : whoever waits, waits for somebody, and somebody can go on;
* `LooksAgain`, `Filed.looksAgain` : what the second look of a call comes to;
* `Filed.granted_of_ended`, `Orderly.granted_run` : the next in line is given the lock and keeps it;
* `nobody_stranded` : no call waits in vain, whatever fails or is dropped.
-/

namespace NearNotes

namespace Cache

/-- No call waits in vain. -/
structure Served (c : Cache) : Prop where
  /-- Whoever waits for a lock waits behind a call for the same text, which holds the lock and is
  past its second look or can take the lock up. -/
  ahead : ∀ call ∈ c.calls, call.phase = .queued → call.id ∉ c.granted →
    ∃ first ∈ c.calls, first.text = call.text ∧
      (∃ l, c.lock? call.lock = some l ∧ l.holder = some first.id ∧ call.id ∈ l.waiters) ∧
      (first.phase ≠ .queued ∨ first.id ∈ c.granted)
  /-- While a call is in progress a vector is being computed, or a call can take a step. -/
  goes : c.calls ≠ [] → ∃ call ∈ c.calls, call.phase = .computing ∨
    c.enabled (.takeUp call.id) = true ∨ c.enabled (.settle call.id) = true

/-- What the second look of a call comes to: the row, where there is one to read, and a computation
of its own only where there is none. -/
def LooksAgain (c : Cache) (id : CallId) (text : String) : Prop :=
  match c.read text with
  | .error e => c.answered (.takeUp id) = some (text, .error e)
  | .ok (some v) =>
    c.answered (.takeUp id) = some (text, .ok v) ∧ ¬ c.Starts (.takeUp id) text
  | .ok none => c.answered (.takeUp id) = none ∧
    ∃ call ∈ (c.apply (.takeUp id)).calls, call.id = id ∧ call.text = text ∧ call.phase = .computing

section

variable {c : Cache} {call : Call}

/-! ## Waiting -/

theorem Filed.served (h : Filed c) : Served c := by
  constructor
  · intro call hcall hqueued hungranted
    obtain ⟨first, hfirst, hlock, hhead, hon⟩ := h.exists_first hcall
    obtain ⟨rest, hline⟩ := List.head?_eq_some_iff.mp hhead
    have hne : call.id ≠ first.id := by
      intro heq
      rw [← h.eq_of_id_eq hcall hfirst heq] at hon
      exact hon.elim (fun hphase => hphase hqueued) hungranted
    have hmem : call.id ∈ c.line call.lock := mem_line.mpr ⟨call, hcall, rfl, rfl⟩
    rw [hline] at hmem
    refine ⟨first, hfirst, ?_, ⟨_, h.lock?_eq (h.filed call hcall), hhead, ?_⟩, hon⟩
    · exact h.text_eq_of_lock_eq hcall (h.filed first hfirst) hlock
    · show call.id ∈ (c.line call.lock).tail
      rw [hline]
      exact (List.mem_cons.mp hmem).resolve_left hne
  · intro hsome
    obtain ⟨call, hcall⟩ := List.exists_mem_of_ne_nil _ hsome
    obtain ⟨first, hfirst, -, -, hon⟩ := h.exists_first hcall
    refine ⟨first, hfirst, ?_⟩
    cases hphase : first.phase with
    | queued =>
        have hgranted := hon.resolve_left fun hne => hne hphase
        exact Or.inr (Or.inl (by simpa [enabled, isGranted] using hgranted))
    | computing => exact Or.inl rfl
    | storing v => exact Or.inr (Or.inr (by simp [enabled, h.call? hfirst, hphase]))

/-! ## The second look -/

theorem Filed.looksAgain (h : Filed c) (hcall : call ∈ c.calls) (hgranted : call.id ∈ c.granted) :
    c.LooksAgain call.id call.text := by
  have hfound := h.call? hcall
  have henabled : c.enabled (.takeUp call.id) = true := by
    simpa [enabled, isGranted] using hgranted
  have hanswered : c.answered (.takeUp call.id) = (c.takeUp call.id).2.map (call.text, ·) := by
    rw [answered, if_pos henabled, answerTo_of_call hfound]
  rw [takeUp_eq hfound] at hanswered
  unfold LooksAgain
  cases hread : c.read call.text with
  | error e =>
      simp only [hread] at hanswered
      exact hanswered
  | ok found =>
      cases found with
      | some v =>
          simp only [hread] at hanswered
          refine ⟨hanswered, fun hstarts => ?_⟩
          have hnone := h.read_of_starts hstarts
          rw [hread] at hnone
          cases hnone
      | none =>
          simp only [hread] at hanswered
          refine ⟨hanswered, { call with phase := .computing }, ?_, rfl, rfl, rfl⟩
          rw [apply, if_pos henabled]
          simp only [takeUp_eq hfound, hread]
          exact (h.mem_setPhase hcall).mpr (Or.inl rfl)

/-! ## The hand-over -/

theorem Filed.granted_of_ended (h : Filed c) {event : Event} (hcall : call ∈ c.calls)
    (hended : c.ended? event = some call.id) {l : Lock} (hlock : c.lock? call.lock = some l)
    (hholder : l.holder = some call.id) {next : CallId} (hnext : l.waiters.head? = some next) :
    next ∈ (c.apply event).granted ∧ ∃ waiter ∈ (c.apply event).calls,
      waiter.id = next ∧ waiter.text = call.text := by
  obtain ⟨ending, hending, hid, same⟩ := h.finish_of_ended hended
  obtain rfl := h.eq_of_id_eq hending hcall hid
  rw [h.lock?_eq (h.filed ending hcall)] at hlock
  cases hlock
  have hhead : (c.line ending.lock).head? = some ending.id := hholder
  obtain ⟨rest, hline⟩ := List.head?_eq_some_iff.mp hhead
  have htail : (c.line ending.lock).tail.head? = some next := hnext
  have hmem : next ∈ (c.line ending.lock).tail := List.mem_of_mem_head? htail
  obtain ⟨waiter, hwaiter, hwaits, rfl⟩ := mem_line.mp (List.mem_of_mem_tail hmem)
  have hne : waiter.id ≠ ending.id := by
    intro heq
    have hnodup := line_nodup h.ids ending.lock
    rw [hline] at hnodup hmem
    exact (List.nodup_cons.mp hnodup).1 (heq ▸ hmem)
  refine ⟨?_, waiter, ?_, rfl, ?_⟩
  · rw [same.granted, h.granted_finish hcall, if_pos hhead, htail]
    exact List.mem_append_right _ (List.mem_singleton_self _)
  · rw [same.calls]
    exact (h.mem_calls_finish hcall).mpr ⟨hwaiter, hne⟩
  · exact h.text_eq_of_lock_eq hcall (h.filed waiter hwaiter) hwaits

theorem Orderly.granted_run (h : Orderly c) (hcall : call ∈ c.calls) (hgranted : call.id ∈ c.granted)
    {history : List Event} (hothers : ∀ event ∈ history, event.caller? ≠ some call.id) :
    call ∈ (c.run history).calls ∧ call.id ∈ (c.run history).granted := by
  induction history generalizing c with
  | nil => exact ⟨hcall, hgranted⟩
  | cons event history ih =>
      obtain ⟨hstays, hkeeps⟩ := h.keeps_other hcall (hothers event List.mem_cons_self)
      exact ih (h.apply event) hstays (hkeeps hgranted) fun other hother =>
        hothers other (List.mem_cons_of_mem _ hother)

end

/-- No call waits in vain: the unanswered calls of a history are those in progress, each that waits
has a holder of its lock ahead, and while there are any a vector is computed or a call can go on.
This holds as well where callers leave in steps of their own. When the holder of a lock ends, in
whatever way, the next in line can take the lock up until it does or is dropped. It looks again
and computes where there is still no row; where the one before it was answered with a vector, it
has the same answer and computes nothing. -/
theorem nobody_stranded (db : Database) (dimension : Option Nat) (history : List Event) :
    let start : Cache := { database := db, dimension }
    let c := start.run history
    (start.unanswered [] history = c.calls.map Call.tag ∧ c.Served) ∧
    (∀ steps, (({ cache := start } : Doorway).run steps).cache.Served) ∧
    (∀ event first l next later, first ∈ c.calls → c.ended? event = some first.id →
      c.lock? first.lock = some l → l.holder = some first.id → l.waiters.head? = some next →
      (∀ other ∈ later, Event.caller? other ≠ some next) →
      let now := (c.apply event).run later
      now.enabled (.takeUp next) = true ∧ now.LooksAgain next first.text ∧
      ∀ v, c.answered event = some (first.text, .ok v) →
        now.answered (.takeUp next) = some (first.text, .ok v) ∧
        ¬ now.Starts (.takeUp next) first.text) := by
  intro start c
  have hstart : Orderly start := orderly_of_no_calls db dimension
  have horderly : Orderly c := hstart.run history
  refine ⟨⟨hstart.unanswered_eq history, horderly.served⟩, ?_, ?_⟩
  · intro steps
    exact ((Doorway.kept_of_orderly hstart).run steps).filed.served
  · intro event first l next later hfirst hended hlock hholder hnext hothers now
    obtain ⟨hgranted, waiter, hwaiter, rfl, htext⟩ :=
      horderly.granted_of_ended hfirst hended hlock hholder hnext
    obtain ⟨hstays, hkeeps⟩ := (horderly.apply event).granted_run hwaiter hgranted hothers
    have hlooks : now.LooksAgain waiter.id first.text :=
      htext ▸ ((horderly.apply event).run later).looksAgain hstays hkeeps
    refine ⟨by simpa [enabled, isGranted] using hkeeps, hlooks, fun v hanswer => ?_⟩
    have hread : now.read first.text = .ok (some v) :=
      read_grows (run_grows _ later) (read_of_answered hanswer)
    simpa only [LooksAgain, hread] using hlooks

/-- The first of two callers fails, and the second computes. Where the first has stored its vector,
the second answers with that. -/
theorem nobody_stranded_two_callers :
    let start : Cache := { database := { table := some {} } }
    let waiting : List Event := [.begin "a", .begin "a", .takeUp 0]
    let failed := (start.run waiting).apply (.computed 0 (.error (.timeout 5)))
    let stored := (start.run (waiting ++ [.computed 0 (.ok [⟨1⟩])])).apply (.settle 0)
    failed.read "a" = .ok none ∧ failed.LooksAgain 1 "a" ∧
      stored.answered (.takeUp 1) = some ("a", .ok [⟨1⟩]) := by
  intro start waiting failed stored
  have hfailed := (nobody_stranded { table := some {} } none waiting).2.2
    (.computed 0 (.error (.timeout 5))) { id := 0, text := "a", lock := 0, phase := .computing }
    { id := 0, holder := some 0, waiters := [1] } 1 [] (by decide) (by decide) (by decide) rfl rfl
    (by simp)
  have hstored := (nobody_stranded { table := some {} } none
    (waiting ++ [.computed 0 (.ok [⟨1⟩])])).2.2
    (.settle 0) { id := 0, text := "a", lock := 0, phase := .storing [⟨1⟩] }
    { id := 0, holder := some 0, waiters := [1] } 1 [] (by decide) (by decide) (by decide) rfl rfl
    (by simp)
  exact ⟨by decide, hfailed.2.1, (hstored.2.2 [⟨1⟩] (by decide)).1⟩

end Cache

end NearNotes
