import Mathlib
import NearNotes.Proofs.Flight.Onward
import NearNotes.Proofs.Population.Path

/-!
# What is handed over is stored

Whatever the provider is and whoever else writes to the database, the vectors that a window hands
over are those in the rows of their texts.

* `Window.Stored` : the invariant, for positions that are being polled, finished or handed over;
* `Stored.step`, `Stored.path` : one step keeps it, and so does every path;
* `Stored.read_of_mem_take` : the texts of the positions that were handed over have rows.
-/

namespace NearNotes

namespace Window

open Cache

/-- Unfinished work goes on under the number of a call for its text, and every vector that came of
a position is in the row of the position's text. -/
structure Stored (w : Window) (s : Session) : Prop where
  bounded : ∀ call ∈ s.cache.calls, call.id < s.cache.nextCall
  tagged : ∀ a ∈ w.active, ∀ work, a.work = some work → ∀ id, work.ticket? = some id →
    s.cache.Tagged id (w.textAt a.position)
  finished : ∀ position v, (position, .ok v) ∈ w.finished →
    s.cache.read (w.textAt position) = .ok (some v)
  handedOver : ∀ (position : Nat) v, w.handedOver[position]? = some v →
    s.cache.read (w.textAt position) = .ok (some v)

theorem bounded_of_onward {c c' : Cache} (h : c.Onward c')
    (hbound : ∀ call ∈ c.calls, call.id < c.nextCall) : ∀ call ∈ c'.calls, call.id < c'.nextCall := by
  intro call' hcall'
  rcases h.calls call' hcall' with ⟨call, hcall, hid, -⟩ | ⟨-, hlt⟩
  · exact hid ▸ (hbound call hcall).trans_le h.later
  · exact hlt

/-- Whatever happens to the cache between two steps, and wherever time goes. -/
theorem Stored.onward {w : Window} {s s' : Session} (h : Stored w s)
    (honward : s.cache.Onward s'.cache) : Stored w s' where
  bounded := bounded_of_onward honward h.bounded
  tagged a ha work hwork id hid := (h.tagged a ha work hwork id hid).onward honward
  finished position v hmem := read_grows honward.grows (h.finished position v hmem)
  handedOver position v hv := read_grows honward.grows (h.handedOver position v hv)

theorem Stored.wake {w : Window} {s : Session} (h : Stored w s) (now : Session) :
    Stored (w.wake now) s := ⟨h.bounded, h.tagged, h.finished, h.handedOver⟩

theorem Stored.fill {w : Window} {s : Session} (h : Stored w s) : Stored w.fill s := by
  refine ⟨h.bounded, fun a ha work hwork => ?_, h.finished, h.handedOver⟩
  rcases List.mem_append.mp ha with hold | hnew
  · exact h.tagged a hold work hwork
  · obtain ⟨position, -, rfl⟩ := List.mem_map.mp hnew
    cases hwork

/-- What every dropped work keeps is kept when all of them are dropped. -/
theorem cancelAll_keeps (w : Window) {P : Session → Prop}
    (hcancel : ∀ (work : Work) (s : Session), P s → P (work.cancel s)) {s : Session} (h : P s) :
    P (w.cancelAll s) := by
  unfold cancelAll
  induction w.active with
  | nil => exact h
  | cons a rest ih =>
      rw [List.foldr_cons]
      cases a.work with
      | none => exact ih
      | some work => exact hcancel work _ ih

theorem cancelAll_onward (w : Window) (s : Session) : s.cache.Onward (w.cancelAll s).cache :=
  w.cancelAll_keeps (P := fun s' => s.cache.Onward s'.cache)
    (fun work _ h => h.trans (work.cancel_onward _)) (.refl _)

theorem Stored.poll {w : Window} {s : Session} (h : Stored w s) {a : Active} (ha : a ∈ w.active) :
    Stored (w.poll a s).1 (w.poll a s).2 ∧ s.cache.Onward (w.poll a s).2.cache := by
  have honward : s.cache.Onward (w.polled a s).session.cache :=
    w.provider.fetch_onward (w.textAt a.position) a.work s
  have hserves : (w.polled a s).Serves (w.textAt a.position) :=
    w.provider.fetch_serves h.bounded fun work hwork => h.tagged a ha work hwork
  have hafter := h.onward honward
  cases hprogress : (w.polled a s).progress with
  | pending work =>
      rw [poll_of_pending hprogress]
      refine ⟨⟨hafter.bounded, fun b hb work' hwork' => ?_, hafter.finished, hafter.handedOver⟩,
        honward⟩
      obtain ⟨old, hold, rfl⟩ := List.mem_map.mp hb
      by_cases hsame : old.position = a.position
      · rw [if_pos (by simpa using hsame)] at hwork' ⊢
        cases hwork'
        show ∀ id, _ → Tagged _ id (w.textAt old.position)
        rw [hsame]
        exact hserves.tagged work hprogress
      · rw [if_neg (by simpa using hsame)] at hwork' ⊢
        exact hafter.tagged old hold work' hwork'
  | done answer =>
      rw [poll_of_done hprogress]
      refine ⟨⟨hafter.bounded, fun b hb => ?_, fun position v hmem => ?_, hafter.handedOver⟩,
        honward⟩
      · exact hafter.tagged b (List.mem_filter.mp hb).1
      · rcases List.mem_append.mp hmem with hold | hlast
        · exact hafter.finished position v hold
        · cases List.mem_singleton.mp hlast
          exact hserves.stored v hprogress

/-- **One step** keeps what is stored. -/
theorem Stored.step {w : Window} {s : Session} {after : Window × Session} (h : Stored w s)
    (hstep : w.step? s = some after) : Stored after.1 after.2 ∧ s.cache.Onward after.2.cache := by
  have hfilled := (h.wake s).fill
  cases (step?_eq_some hstep).2 with
  | @handsOver v found =>
      refine ⟨⟨h.bounded, hfilled.tagged, fun position v' hmem => ?_, fun position v' hv => ?_⟩,
        .refl _⟩
      · exact hfilled.finished position v' (List.mem_filter.mp hmem).1
      · have hv : (w.handedOver ++ [v])[position]? = some v' := hv
        rw [List.getElem?_append, List.getElem?_singleton] at hv
        split at hv
        · exact h.handedOver position v' hv
        · rename_i hge
          split at hv
          · rename_i hzero
            cases hv
            have hnext : position = w.next := Nat.le_antisymm (Nat.sub_eq_zero_iff_le.mp hzero)
              (Nat.le_of_not_lt hge)
            subst hnext
            exact hfilled.finished _ v found
          · cases hv
  | fails found =>
      have honward := (w.wake s).fill.cancelAll_onward s
      refine ⟨⟨bounded_of_onward honward h.bounded, ?_, ?_, ?_⟩, honward⟩
      · intro a ha
        cases ha
      · intro position v hmem
        cases hmem
      · intro position v hv
        exact read_grows honward.grows (h.handedOver position v hv)
  | @polls a rest _ _ known =>
      have hready : Stored { (w.wake s).fill with ready := rest } s :=
        ⟨hfilled.bounded, hfilled.tagged, hfilled.finished, hfilled.handedOver⟩
      exact hready.poll known
  | skips =>
      exact ⟨⟨hfilled.bounded, hfilled.tagged, hfilled.finished, hfilled.handedOver⟩, .refl _⟩

theorem Stored.path {m : Nat} {w w' : Window} {s s' : Session} (hpath : Path m w s w' s')
    (h : Stored w s) : Stored w' s' ∧ s.cache.Onward s'.cache := by
  induction hpath with
  | refl w s => exact ⟨h, .refl _⟩
  | step taken _ ih =>
      obtain ⟨hafter, honward⟩ := h.step taken
      obtain ⟨hend, hrest⟩ := ih hafter
      exact ⟨hend, honward.trans hrest⟩
  | wait _ _ _ _ ih => exact ih (h.onward (.refl _))

theorem Stored.read_of_mem_take {w : Window} {s : Session} (h : Stored w s) {text : String}
    (htext : text ∈ w.texts.take w.next) : ∃ v, s.cache.read text = .ok (some v) := by
  obtain ⟨position, hposition, rfl⟩ := List.mem_iff_getElem.mp htext
  have hboth : position < w.next ∧ position < w.texts.length := by
    simpa using hposition
  have hread := h.handedOver position _ (List.getElem?_eq_getElem hboth.1)
  rw [textAt, List.getD_eq_getElem _ _ hboth.2] at hread
  rw [List.getElem_take]
  exact ⟨_, hread⟩

theorem stored_of_new {w : Window} (hactive : w.active = []) (hfinished : w.finished = [])
    (hhanded : w.handedOver = []) {s : Session}
    (hbound : ∀ call ∈ s.cache.calls, call.id < s.cache.nextCall) : Stored w s := by
  refine ⟨hbound, ?_, ?_, ?_⟩
  · rw [hactive]
    intro a ha
    cases ha
  · rw [hfinished]
    intro position v hmem
    cases hmem
  · rw [hhanded]
    intro position v hv
    simp at hv

end Window

end NearNotes
