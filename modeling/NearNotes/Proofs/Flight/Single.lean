import Mathlib
import NearNotes.Proofs.Flight.Step

/-!
# One computation for a text

Whatever calls run beside each other, in whatever order their steps come and wherever they are
dropped:

* `computing_length_le_one` : at most one vector is being computed for a text at any moment;
* `Starts`, `read_of_starts` : a computation starts only for a text that has no row;
* `insertions`, `insertions_le_one` : at most one computed vector is ever inserted for a text.
-/

namespace NearNotes

namespace Cache

open Database

/-! ## At any moment -/

/-- The calls for a text whose vector is being computed. -/
def computing (c : Cache) (text : String) : List Call :=
  c.calls.filter fun call => call.text == text && call.phase == .computing

theorem mem_computing {c : Cache} {text : String} {call : Call} :
    call ∈ c.computing text ↔ call ∈ c.calls ∧ call.text = text ∧ call.phase = .computing := by
  rw [computing, List.mem_filter, Bool.and_eq_true, beq_iff_eq, beq_iff_eq]

/-- Two calls for one text that are both past their second look are one call: each of them is the
first in the line of the text. -/
theorem Filed.eq_of_not_queued {c : Cache} (h : Filed c) {call call' : Call}
    (hcall : call ∈ c.calls) (hcall' : call' ∈ c.calls) (htext : call.text = call'.text)
    (hphase : call.phase ≠ .queued) (hphase' : call'.phase ≠ .queued) : call = call' := by
  have hfirst := h.phases call hcall hphase
  have hfirst' := h.phases call' hcall' hphase'
  rw [h.lock_eq_of_text_eq hcall hcall' htext, hfirst'] at hfirst
  exact h.eq_of_id_eq hcall hcall' (Option.some.inj hfirst).symm

theorem Filed.computing_length_le_one {c : Cache} (h : Filed c) (text : String) :
    (c.computing text).length ≤ 1 := by
  have hnodup : (c.computing text).Nodup := (List.Nodup.of_map _ h.ids).filter _
  match hlist : c.computing text with
  | [] => exact Nat.zero_le _
  | [_] => exact Nat.le_refl _
  | first :: second :: rest =>
      exfalso
      obtain ⟨hfirst, htext, hphase⟩ := mem_computing.mp (hlist ▸ List.mem_cons_self)
      obtain ⟨hsecond, htext', hphase'⟩ :=
        mem_computing.mp (hlist ▸ List.mem_cons_of_mem _ List.mem_cons_self)
      have heq : first = second := h.eq_of_not_queued hfirst hsecond (htext.trans htext'.symm)
        (by rw [hphase]; decide) (by rw [hphase']; decide)
      rw [hlist, heq] at hnodup
      simp at hnodup

/-! ## At the start of a computation -/

/-- An event starts a computation for a text: a call computes that did not so before. -/
def Starts (c : Cache) (event : Event) (text : String) : Prop :=
  ∃ call ∈ (c.apply event).calls, call.text = text ∧ call.phase = .computing ∧ call ∉ c.calls

theorem calls_enqueue (c : Cache) (text : String) :
    (c.enqueue text).1.calls =
      c.calls ++ [{ id := (c.lockFor text).1.nextCall, text, lock := (c.lockFor text).2 }] := by
  rw [enqueue_eq_lineUp]
  show (c.lockFor text).1.calls ++ [_] = _
  congr 1
  unfold lockFor
  split <;> rfl

theorem Filed.read_of_starts {c : Cache} (h : Filed c) {event : Event} {text : String}
    (hstarts : c.Starts event text) : c.read text = .ok none := by
  obtain ⟨call, hcall, rfl, hphase, hnew⟩ := hstarts
  generalize hafter : c.apply event = c' at hcall
  cases hafter ▸ h.apply_move event with
  | stays same => exact absurd (same.calls ▸ hcall) hnew
  | joins miss same =>
      rw [same.calls, calls_enqueue] at hcall
      rcases List.mem_append.mp hcall with hold | hlast
      · exact absurd hold hnew
      · rw [List.mem_singleton.mp hlast] at hphase
        cases hphase
  | starts known given miss same =>
      rw [same.calls] at hcall
      rcases (h.mem_setPhase known).mp hcall with rfl | ⟨hold, -⟩
      · exact miss
      · exact absurd hold hnew
  | computes known running same =>
      rw [same.calls] at hcall
      rcases (h.mem_setPhase known).mp hcall with rfl | ⟨hold, -⟩
      · cases hphase
      · exact absurd hold hnew
  | ends known same =>
      rw [same.calls] at hcall
      exact absurd ((h.mem_calls_finish known).mp hcall).1 hnew

/-! ## Over a whole history -/

/-- An event stores a computed vector as a new row of a text. -/
def inserts (c : Cache) (event : Event) (text : String) : Bool :=
  match event with
  | .settle .. => decide ((c.apply event).database.rowsFor text ≠ c.database.rowsFor text)
  | _ => false

def insertions (text : String) : Cache → List Event → Nat
  | _, [] => 0
  | c, event :: history => (c.inserts event text).toNat + insertions text (c.apply event) history

theorem rowsFor_ne_of_inserts {c : Cache} {event : Event} {text : String}
    (h : c.inserts event text = true) :
    (c.apply event).database.rowsFor text ≠ c.database.rowsFor text := by
  cases event with
  | settle id refusal => exact of_decide_eq_true h
  | _ => cases h

theorem insertions_eq_zero (text : String) (c : Cache) (history : List Event)
    (h : c.database.rowsFor text ≠ []) : insertions text c history = 0 := by
  induction history generalizing c with
  | nil => rfl
  | cons event history ih =>
      have hkept := (apply_grows c event).kept text h
      have hnone : c.inserts event text = false := by
        rw [← Bool.not_eq_true]
        exact fun hinserts => rowsFor_ne_of_inserts hinserts hkept
      rw [insertions, hnone, ih _ (hkept ▸ h)]
      rfl

theorem insertions_le_one (text : String) (c : Cache) (history : List Event) :
    insertions text c history ≤ 1 := by
  induction history generalizing c with
  | nil => exact Nat.zero_le _
  | cons event history ih =>
      rw [insertions]
      cases hinserts : c.inserts event text with
      | false =>
          rw [Bool.toNat_false, Nat.zero_add]
          exact ih _
      | true =>
          have hrows := (apply_grows c event).rowsFor_of_ne (rowsFor_ne_of_inserts hinserts)
          rw [insertions_eq_zero text _ _ hrows.2]
          rfl

/-- Along every history of a cache at most one vector is computed for a text at a time, a
computation starts only where the text has no row, and at most one computed vector is inserted. -/
theorem single_flight (db : Database) (dimension : Option Nat) (history : List Event)
    (text : String) :
    let start : Cache := { database := db, dimension }
    let now : Cache := start.run history
    (now.computing text).length ≤ 1 ∧
    (∀ event, now.Starts event text → now.database.rowsFor text = []) ∧
    insertions text start history ≤ 1 := by
  intro start now
  have horderly : Orderly now := (orderly_of_no_calls db dimension).run history
  refine ⟨horderly.computing_length_le_one text, ?_, insertions_le_one text start history⟩
  intro event hstarts
  exact (read_eq_none_iff.mp (horderly.read_of_starts hstarts)).2

/-- Two callers for one text: the first computes, and its vector is the one that is inserted. -/
theorem single_flight_two_callers :
    let start : Cache := { database := { table := some {} } }
    let history : List Event := [.begin "a", .begin "a"]
    let rest : List Event := [.takeUp 0, .computed 0 (.ok [.negZero]), .settle 0, .takeUp 1]
    (start.run history).Starts (.takeUp 0) "a" ∧
      (start.run history).database.rowsFor "a" = [] ∧
      insertions "a" start (history ++ rest) = 1 := by
  intro start history rest
  have hstarts : (start.run history).Starts (.takeUp 0) "a" :=
    ⟨{ id := 0, text := "a", lock := 0, phase := .computing }, by decide, rfl, rfl, by decide⟩
  refine ⟨hstarts, ?_, by decide⟩
  exact (single_flight { table := some {} } none history "a").2.1 _ hstarts

end Cache

end NearNotes
