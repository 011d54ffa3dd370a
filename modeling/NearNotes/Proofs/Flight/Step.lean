import Mathlib
import NearNotes.Proofs.Flight.Line
import NearNotes.Proofs.Rows

/-!
# What an event can do

* `Move` : what an event can do to the calls in progress, with `apply_move`;
* `Orderly.apply`, `Orderly.run` : calls stay in order along every history;
* `apply_grows`, `run_grows` : rows come and stay along every history;
* `run_take_grows` : so do they from one moment of a history to a later one.
-/

namespace NearNotes

namespace Cache

open Database

/-! ## Frames -/

@[simp] theorem database_finish (c : Cache) (id : CallId) :
    (c.finish id).database = c.database := by
  unfold finish
  split <;> rfl

@[simp] theorem database_setPhase (c : Cache) (id : CallId) (phase : Phase) :
    (c.setPhase id phase).database = c.database := rfl

@[simp] theorem database_enqueue (c : Cache) (text : String) :
    (c.enqueue text).1.database = c.database := by
  rw [enqueue_eq_lineUp]
  show (c.lockFor text).1.database = c.database
  unfold lockFor
  split <;> rfl

theorem dimension_finish (c : Cache) (id : CallId) : (c.finish id).dimension = c.dimension := by
  unfold finish
  split <;> rfl

theorem dimension_enqueue (c : Cache) (text : String) :
    (c.enqueue text).1.dimension = c.dimension := by
  rw [enqueue_eq_lineUp]
  show (c.lockFor text).1.dimension = c.dimension
  unfold lockFor
  split <;> rfl

theorem mem_of_mem_finish {c : Cache} {id : CallId} {call : Call} (h : call ∈ (c.finish id).calls) :
    call ∈ c.calls := by
  unfold finish at h
  split at h
  · exact h
  · exact List.mem_of_mem_filter h

theorem read_congr {c c' : Cache} (h : c'.database = c.database) (text : String) :
    c'.read text = c.read text := by
  unfold read
  rw [h]

theorem readBack_congr {c c' : Cache} (h : c'.database = c.database) (text : String)
    (refusal : Option String) : c'.readBack text refusal = c.readBack text refusal := by
  unfold readBack
  rw [read_congr h]

theorem SameFlight.trans {c₁ c₂ c₃ : Cache} (h₁ : SameFlight c₁ c₂) (h₂ : SameFlight c₂ c₃) :
    SameFlight c₁ c₃ :=
  ⟨h₂.calls.trans h₁.calls, h₂.keys.trans h₁.keys, h₂.locks.trans h₁.locks,
    h₂.granted.trans h₁.granted, h₂.nextCall.trans h₁.nextCall, h₂.nextLock.trans h₁.nextLock⟩

theorem SameFlight.finish {c c' : Cache} (h : SameFlight c c') (id : CallId) :
    SameFlight (c.finish id) (c'.finish id) := by
  unfold Cache.finish Cache.call? Cache.lock?
  rw [h.calls, h.locks]
  cases c.calls.find? (·.id == id) with
  | none => exact h
  | some call =>
      refine ⟨rfl, ?_, rfl, ?_, h.nextCall, h.nextLock⟩
      · simp only [h.keys]
      · simp only [h.granted]

/-- A call that has taken up its grant and ends right away might as well not have taken it up. -/
theorem Filed.sameFlight_finish_granted {c : Cache} (h : Filed c) {call : Call}
    (hcall : call ∈ c.calls) : SameFlight (c.finish call.id)
      (({ c with granted := c.granted.erase call.id } : Cache).finish call.id) := by
  have htwice : (c.granted.erase call.id).erase call.id = c.granted.erase call.id :=
    List.erase_of_not_mem fun hmem => (h.grantedOnce.mem_erase_iff.mp hmem).1 rfl
  have hfound : ({ c with granted := c.granted.erase call.id } : Cache).call? call.id = some call :=
    h.call? hcall
  unfold Cache.finish
  rw [h.call? hcall, hfound]
  refine ⟨rfl, rfl, rfl, ?_, rfl, rfl⟩
  simp only [htwice]
  rfl

/-! ## Moves -/

inductive Move (c : Cache) : Event → Cache → Prop
  /-- No call comes, goes on or ends. -/
  | stays {event : Event} {c' : Cache} (same : SameFlight c c') : Move c event c'
  /-- A call finds no row and gets in line. -/
  | joins {text : String} {c' : Cache} (miss : c.read text = .ok none)
      (same : SameFlight (c.enqueue text).1 c') : Move c (.begin text) c'
  /-- A call that was given its lock finds no row again and starts to compute. -/
  | starts {call : Call} {c' : Cache} (known : call ∈ c.calls) (given : call.id ∈ c.granted)
      (miss : c.read call.text = .ok none)
      (same : SameFlight
        (({ c with granted := c.granted.erase call.id } : Cache).setPhase call.id .computing) c') :
      Move c (.takeUp call.id) c'
  /-- A computation gives a vector. -/
  | computes {call : Call} {v : Embedding} {c' : Cache} (known : call ∈ c.calls)
      (running : call.phase = .computing)
      (same : SameFlight (c.setPhase call.id (.storing v)) c') :
      Move c (.computed call.id (.ok v)) c'
  /-- A call ends. -/
  | ends {event : Event} {call : Call} {c' : Cache} (known : call ∈ c.calls)
      (same : SameFlight (c.finish call.id) c') : Move c event c'

theorem begin_move (c : Cache) (text : String) : Move c (.begin text) (c.begin text).1 := by
  unfold begin
  cases hread : c.read text with
  | error e => exact .stays (SameFlight.refl c)
  | ok found =>
      cases found with
      | some v => exact .stays ⟨rfl, rfl, rfl, rfl, rfl, rfl⟩
      | none => exact .joins hread (SameFlight.refl _)

theorem takeUp_eq {c : Cache} {id : CallId} {call : Call} (h : c.call? id = some call) :
    c.takeUp id =
      match c.read call.text with
      | .error e =>
        (({ c with granted := c.granted.erase id } : Cache).finish id, some (.error e))
      | .ok (some v) =>
        (({ c with granted := c.granted.erase id, hits := c.hits + 1 } : Cache).finish id,
          some (.ok v))
      | .ok none =>
        (({ c with granted := c.granted.erase id, misses := c.misses + 1 } : Cache).setPhase id
          .computing, none) := by
  unfold takeUp
  rw [h]
  rfl

theorem Filed.takeUp_move {c : Cache} (h : Filed c) {id : CallId} (hgranted : id ∈ c.granted) :
    Move c (.takeUp id) (c.takeUp id).1 := by
  obtain ⟨call, hcall, rfl, -⟩ := (h.granted id).mp hgranted
  have hends := h.sameFlight_finish_granted hcall
  rw [takeUp_eq (h.call? hcall)]
  cases hread : c.read call.text with
  | error e => exact .ends hcall hends
  | ok found =>
      cases found with
      | some v =>
          have hhits : SameFlight ({ c with granted := c.granted.erase call.id } : Cache)
              { c with granted := c.granted.erase call.id, hits := c.hits + 1 } :=
            ⟨rfl, rfl, rfl, rfl, rfl, rfl⟩
          exact .ends hcall (hends.trans (hhits.finish call.id))
      | none => exact .starts hcall hgranted hread ⟨rfl, rfl, rfl, rfl, rfl, rfl⟩

theorem computed_move {c : Cache} {call : Call} (hcall : call ∈ c.calls)
    (hphase : call.phase = .computing) (outcome : Answer) :
    Move c (.computed call.id outcome) (c.computed call.id outcome).1 := by
  unfold computed
  cases outcome with
  | error e => exact .ends hcall (SameFlight.refl _)
  | ok v =>
      cases hlength : c.requireLength v with
      | error e => exact .ends hcall (by simp only [hlength]; exact SameFlight.refl _)
      | ok _ => exact .computes hcall hphase (by simp only [hlength]; exact SameFlight.refl _)

theorem Filed.settle_move {c : Cache} (h : Filed c) {call : Call} (hcall : call ∈ c.calls)
    (refusal : Option String) :
    Move c (.settle call.id refusal) (c.settle call.id refusal).1 := by
  unfold settle
  rw [h.call? hcall]
  split
  · rename_i id text lock v heq
    cases heq
    obtain ⟨db, hdb, -⟩ := offer_grows c text v refusal
    have hstored : SameFlight c { c with database := db } := ⟨rfl, rfl, rfl, rfl, rfl, rfl⟩
    refine .ends hcall ?_
    simp only [hdb]
    exact hstored.finish _
  · exact .stays (SameFlight.refl c)

theorem Filed.apply_move {c : Cache} (h : Filed c) (event : Event) :
    Move c event (c.apply event) := by
  unfold apply
  split
  · rename_i henabled
    cases event with
    | begin text => exact begin_move c text
    | takeUp id => exact h.takeUp_move (by simpa [enabled, isGranted] using henabled)
    | computed id outcome =>
        obtain ⟨call, hfound, hphase⟩ := (Option.any_eq_true _ _).mp henabled
        obtain ⟨hcall, rfl⟩ := call?_eq_some hfound
        exact computed_move hcall (by simpa using hphase) outcome
    | settle id refusal =>
        obtain ⟨call, hfound, -⟩ := (Option.any_eq_true _ _).mp henabled
        obtain ⟨hcall, rfl⟩ := call?_eq_some hfound
        exact h.settle_move hcall refusal
    | abandon id =>
        obtain ⟨call, hfound⟩ := Option.isSome_iff_exists.mp henabled
        obtain ⟨hcall, rfl⟩ := call?_eq_some hfound
        exact .ends hcall (SameFlight.refl _)
    | write text v =>
        obtain ⟨db, hdb, -⟩ := write_grows c text v
        simp only [hdb]
        exact .stays ⟨rfl, rfl, rfl, rfl, rfl, rfl⟩
    | rival text cell =>
        simp only
        split
        · exact .stays ⟨rfl, rfl, rfl, rfl, rfl, rfl⟩
        · exact .stays (SameFlight.refl c)
  · exact .stays (SameFlight.refl c)

/-! ## Calls stay in order -/

theorem Orderly.apply {c : Cache} (h : Orderly c) (event : Event) : Orderly (c.apply event) := by
  cases h.toFiled.apply_move event with
  | stays same => exact h.congr same
  | joins _ same => exact (h.enqueue _).congr same
  | starts known given _ same =>
      obtain ⟨call, hcall, hid, -, hhead⟩ := (h.granted _).mp given
      rw [h.eq_of_id_eq hcall known hid] at hhead
      exact (h.setPhase known hhead (by decide)).congr same
  | @computes call v _ known running same =>
      have hphase : call.phase ≠ .queued := by rw [running]; decide
      have hungranted : call.id ∉ c.granted := by
        intro hmem
        obtain ⟨other, hother, hid, hqueued, -⟩ := (h.granted _).mp hmem
        exact hphase (h.eq_of_id_eq hother known hid ▸ hqueued)
      have hgoes := h.setPhase known (h.phases call known hphase)
        (show Phase.storing v ≠ .queued from Phase.noConfusion)
      rw [List.erase_of_not_mem hungranted] at hgoes
      exact hgoes.congr same
  | ends known same => exact (h.finish known).congr same

theorem Orderly.run {c : Cache} (h : Orderly c) (history : List Event) :
    Orderly (c.run history) := by
  induction history generalizing c with
  | nil => exact h
  | cons event history ih => exact ih (h.apply event)

theorem orderly_of_no_calls (db : Database) (dimension : Option Nat) :
    Orderly { database := db, dimension } := by
  refine ⟨⟨List.nodup_nil, ?_, List.nodup_nil, List.nodup_nil, ?_, ?_, rfl, ?_, ?_,
    List.nodup_nil⟩, ?_⟩ <;> simp

/-! ## Rows come and stay -/

@[simp] theorem database_begin (c : Cache) (text : String) :
    (c.begin text).1.database = c.database := by
  unfold begin
  split
  · rfl
  · rfl
  · exact database_enqueue c text

@[simp] theorem database_takeUp (c : Cache) (id : CallId) :
    (c.takeUp id).1.database = c.database := by
  cases hcall : c.call? id with
  | none =>
      unfold takeUp
      rw [hcall]
  | some call =>
      rw [takeUp_eq hcall]
      split
      · rw [database_finish]
      · rw [database_finish]
      · rfl

@[simp] theorem database_computed (c : Cache) (id : CallId) (outcome : Answer) :
    (c.computed id outcome).1.database = c.database := by
  unfold computed
  split
  · rw [database_finish]
  · split
    · rw [database_finish]
    · rfl

theorem settle_grows (c : Cache) (id : CallId) (refusal : Option String) :
    c.database.Grows (c.settle id refusal).1.database := by
  unfold settle
  split
  · rename_i text lock v _
    obtain ⟨db, hdb, hgrows⟩ := offer_grows c text v refusal
    simp only [hdb, database_finish]
    exact hgrows
  · exact Grows.refl _

theorem apply_grows (c : Cache) (event : Event) : c.database.Grows (c.apply event).database := by
  unfold apply
  split
  · cases event with
    | begin text => exact database_begin c text ▸ Grows.refl _
    | takeUp id => exact database_takeUp c id ▸ Grows.refl _
    | computed id outcome => exact database_computed c id outcome ▸ Grows.refl _
    | settle id refusal => exact settle_grows c id refusal
    | abandon id => exact database_finish c id ▸ Grows.refl _
    | write text v =>
        obtain ⟨db, hdb, hgrows⟩ := write_grows c text v
        simp only [hdb]
        exact hgrows
    | rival text cell =>
        simp only
        split
        · rename_i db hinsert
          exact insert_grows hinsert
        · exact Grows.refl _
  · exact Grows.refl _

theorem run_append (c : Cache) (before after : List Event) :
    c.run (before ++ after) = (c.run before).run after := List.foldl_append

theorem run_grows (c : Cache) (history : List Event) :
    c.database.Grows (c.run history).database := by
  induction history generalizing c with
  | nil => exact Grows.refl _
  | cons event history ih => exact (apply_grows c event).trans (ih (c.apply event))

theorem run_take_grows (c : Cache) (history : List Event) {earlier later : Nat}
    (h : earlier ≤ later) : (c.run (history.take earlier)).database.Grows
      (c.run (history.take later)).database := by
  obtain ⟨rest, hrest⟩ := List.take_prefix_take_left h (l := history)
  rw [← hrest, run_append]
  exact run_grows _ rest

theorem run_take_succ (c : Cache) {history : List Event} {moment : Nat} {event : Event}
    (h : history[moment]? = some event) :
    c.run (history.take (moment + 1)) = (c.run (history.take moment)).apply event := by
  rw [List.take_add_one, h, run_append]
  rfl

end Cache

end NearNotes
