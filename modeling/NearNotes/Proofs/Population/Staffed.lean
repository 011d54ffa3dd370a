import Mathlib
import NearNotes.Proofs.Flight.Turn
import NearNotes.Proofs.Population.Path

/-!
# The calls of a window

Where no one but a window uses a cache, every call in progress is that of one position.

* `Window.Manned` : every position goes on under a number of its own, and those in line can go on;
* `Manned.wake`, `Manned.fill`, `Manned.poll`, `Manned.wait` : what a window does keeps it so, and so
  does what goes on beside it (`Manned.beside`);
* `Manned.exists_going` : while somebody is unfinished, some call can go on or computes;
* `Window.Staffed` : all calls are the window's, so unless somebody can go on now there is a moment to
  wait for (`Staffed.exists_due`);
* `Staffed.idle_cancelAll` : nothing is left of the calls when everything is dropped.
-/

namespace NearNotes

open Cache

/-- The number of the call that a position's work is the rest of. -/
def Active.ticket? (a : Active) : Option CallId := a.work.bind Work.ticket?

/-! ## Caches at rest -/

namespace Cache

theorem Idle.orderly {c : Cache} (h : Idle c) : Orderly c := by
  obtain ⟨hcalls, hkeys, hlocks, hgranted⟩ := h
  refine ⟨⟨?_, ?_, ?_, ?_, ?_, ?_, ?_, ?_, ?_, ?_⟩, ?_⟩
  all_goals simp [hcalls, hkeys, hlocks, hgranted]

theorem Orderly.idle {c : Cache} (h : Orderly c) (hcalls : c.calls = []) : Idle c := by
  have hkeys : c.keys = [] := by
    refine List.eq_nil_iff_forall_not_mem.mpr fun key hkey => h.used key hkey ?_
    rw [line, hcalls]
    rfl
  refine ⟨hcalls, hkeys, ?_, List.eq_nil_iff_forall_not_mem.mpr fun id hid => ?_⟩
  · rw [h.locks, hkeys]
    rfl
  · obtain ⟨call, hcall, -⟩ := (h.granted id).mp hid
    rw [hcalls] at hcall
    cases hcall

theorem Orderly.abandon {c : Cache} (h : Orderly c) (id : CallId) :
    Orderly (c.abandon id) ∧ ∀ call, call ∈ (c.abandon id).calls ↔ call ∈ c.calls ∧ call.id ≠ id := by
  cases hfound : c.call? id with
  | some call =>
      obtain ⟨hcall, rfl⟩ := call?_eq_some hfound
      exact ⟨h.finish hcall, fun other => h.mem_calls_finish hcall⟩
  | none =>
      have hstay : c.abandon id = c := by
        unfold Cache.abandon Cache.finish
        rw [hfound]
      rw [hstay]
      refine ⟨h, fun call => (and_iff_left_of_imp fun hcall hid => ?_).symm⟩
      have := List.find?_eq_none.mp hfound call hcall
      simp [hid] at this

end Cache

/-! ## Work -/

namespace Work

variable {p : Provider} {text : String} {s s' : Session} {work : Work} {id : CallId}

/-- Work is the rest of a call that is in progress for its text. -/
theorem Pursues.ticket (h : work.Pursues p text s) :
    ∃ call ∈ s.cache.calls, work.ticket? = some call.id ∧ call.text = text := by
  cases h with
  | line known => exact ⟨_, known, rfl, rfl⟩
  | compute known => exact ⟨_, known, rfl, rfl⟩

theorem Pursues.apart (h : work.Pursues p text s) (hne : work.ticket? ≠ some id)
    (hapart : Apart id s.cache s'.cache) (hnow : s'.now = s.now) : work.Pursues p text s' := by
  cases h with
  | line known =>
      exact .line ((hapart.calls _ fun heq => hne (congrArg some heq)).mpr known)
  | compute known polled due late =>
      exact .compute ((hapart.calls _ fun heq => hne (congrArg some heq)).mpr known) polled due
        (hnow ▸ late)

theorem CanGo.apart {work : Option Work} (h : CanGo s work)
    (hne : work.bind Work.ticket? ≠ some id) (hapart : Apart id s.cache s'.cache)
    (hnow : s'.now = s.now) : CanGo s' work := by
  cases work with
  | none => trivial
  | some work =>
      cases work with
      | line other => exact hapart.granted other (fun heq => hne (congrArg some heq)) h
      | _ =>
          show due? _ = some s'.now
          rw [hnow]
          exact h

theorem Pursues.canGo (h : work.Pursues p text s) (hdue : work.isDue s.now = true) :
    CanGo s (some work) := by
  cases h with
  | line known => cases hdue
  | @compute id lock work moment known polled due late =>
      show work.due? = some s.now
      have hcome : moment ≤ s.now := by
        simpa [isDue, due?, due] using hdue
      rw [due, Nat.le_antisymm hcome late]

theorem Pursues.eq_line (hquiet : p.Quiet) (h : work.Pursues p text s)
    (hline : work.line? = some id) : work = .line id := by
  cases h with
  | line known => rw [Option.some.inj hline]
  | compute known polled due late =>
      have hnone := (polled.fits hquiet).line?
      rw [line?, hnone] at hline
      cases hline

end Work

/-! ## Windows -/

namespace Window

theorem nodup_enroll {ready : List Nat} (h : ready.Nodup) (positions : List Nat) :
    (enroll ready positions).Nodup := by
  induction positions generalizing ready with
  | nil => exact h
  | cons first rest ih =>
      show (enroll (if ready.contains first then ready else ready ++ [first]) rest).Nodup
      split
      · exact ih h
      · rename_i hnew
        rw [List.contains_iff_mem] at hnew
        refine ih ?_
        rw [← List.concat_eq_append]
        exact h.concat hnew

/-- The window has a position that goes on under a call's number. -/
def Holds (w : Window) (id : CallId) : Prop := ∃ a ∈ w.active, a.ticket? = some id

/-- The work of a position is the rest of a call, and no other position's is. The positions in line
can go on, and those that were not polled yet are in line. -/
structure Manned (w : Window) (s : Session) : Prop where
  pursued : ∀ a ∈ w.active, ∀ work, a.work = some work →
    work.Pursues w.provider (w.textAt a.position) s
  apart : ∀ a ∈ w.active, ∀ b ∈ w.active, ∀ id, a.ticket? = some id → b.ticket? = some id →
    a.position = b.position
  once : w.ready.Nodup
  ready : ∀ position ∈ w.ready, ∃ a ∈ w.active, a.position = position ∧ Work.CanGo s a.work
  fresh : ∀ a ∈ w.active, a.work = none → a.position ∈ w.ready

structure Staffed (w : Window) (s : Session) : Prop extends Manned w s where
  owned : ∀ call ∈ s.cache.calls, w.Holds call.id

section Manned

variable {w w' : Window} {s s' : Session} {a : Active}

/-- A position goes on under the number of a call in progress. -/
theorem Manned.call_of_holds (h : Manned w s) {id : CallId} (hholds : w.Holds id) :
    ∃ call ∈ s.cache.calls, call.id = id := by
  obtain ⟨a, ha, hticket⟩ := hholds
  obtain ⟨work, hwork, hid⟩ := Option.bind_eq_some_iff.mp hticket
  obtain ⟨call, hcall, hid', -⟩ := (h.pursued a ha work hwork).ticket
  rw [hid'] at hid
  exact ⟨call, hcall, Option.some.inj hid⟩

/-- The positions in line after waking are there already, or due, or were given their lock. -/
theorem mem_ready_wake {position : Nat} : position ∈ (w.wake s).ready ↔
    position ∈ w.ready ∨ (∃ a ∈ w.active, Active.isDue a s.now = true ∧ a.position = position) ∨
      ∃ id ∈ s.cache.granted, w.waiting? id = some position := by
  show position ∈ enroll (enroll w.ready _) _ ↔ _
  rw [mem_enroll, mem_enroll, List.mem_map, List.mem_filterMap, or_assoc]
  simp only [List.mem_filter, and_assoc]

theorem Manned.wake (h : Manned w s) (hquiet : w.provider.Quiet) : Manned (w.wake s) s := by
  refine ⟨h.pursued, h.apart, nodup_enroll (nodup_enroll h.once _) _,
    fun position hposition => ?_, fun a ha hwork => mem_ready_wake.mpr (Or.inl (h.fresh a ha hwork))⟩
  rcases mem_ready_wake.mp hposition with hold | ⟨a, ha, hdue, rfl⟩ | ⟨id, hid, hwaiting⟩
  · exact h.ready position hold
  · refine ⟨a, ha, rfl, ?_⟩
    cases hwork : a.work with
    | none => trivial
    | some work =>
        rw [Active.isDue, hwork] at hdue
        exact (h.pursued a ha work hwork).canGo hdue
  · obtain ⟨a, hfound, rfl⟩ := Option.map_eq_some_iff.mp hwaiting
    have ha := List.mem_of_find?_eq_some hfound
    have hline : a.work.bind Work.line? = some id := by simpa using List.find?_some hfound
    obtain ⟨work, hwork, hline⟩ := Option.bind_eq_some_iff.mp hline
    refine ⟨a, ha, rfl, ?_⟩
    rw [hwork, (h.pursued a ha work hwork).eq_line hquiet hline]
    exact hid

theorem mem_active_fill (w : Window) {a : Active} (ha : a ∈ w.fill.active) :
    a ∈ w.active ∨ a.work = none ∧ a.position ∈ w.fill.ready := by
  rcases List.mem_append.mp ha with hold | hjoins
  · exact Or.inl hold
  · obtain ⟨position, hposition, rfl⟩ := List.mem_map.mp hjoins
    exact Or.inr ⟨rfl, List.mem_append_right _ hposition⟩

theorem mem_active_of_ticket {w : Window} (ha : a ∈ w.fill.active) {id : CallId}
    (hid : a.ticket? = some id) : a ∈ w.active := by
  refine (mem_active_fill w ha).resolve_right fun hfresh => ?_
  rw [Active.ticket?, hfresh.1] at hid
  cases hid

@[simp] theorem holds_fill (w : Window) (id : CallId) : w.fill.Holds id ↔ w.Holds id := by
  constructor
  · rintro ⟨a, ha, hid⟩
    exact ⟨a, mem_active_of_ticket ha hid, hid⟩
  · rintro ⟨a, ha, hid⟩
    exact ⟨a, List.mem_append_left _ ha, hid⟩

theorem Manned.fill (h : Manned w s) (hbelow : ∀ a ∈ w.active, a.position < w.joined) :
    Manned w.fill s := by
  refine ⟨fun a ha work hwork => ?_, fun a ha b hb id hid hid' => ?_, ?_, ?_, ?_⟩
  · refine h.pursued a ((mem_active_fill w ha).resolve_right fun hfresh => ?_) work hwork
    rw [hfresh.1] at hwork
    cases hwork
  · exact h.apart a (mem_active_of_ticket ha hid) b (mem_active_of_ticket hb hid') id hid hid'
  · refine List.nodup_append'.mpr ⟨h.once, List.nodup_range' .., ?_⟩
    intro position hold hjoins
    obtain ⟨a, ha, rfl, -⟩ := h.ready position hold
    have := List.mem_range'_1.mp hjoins
    have := hbelow a ha
    omega
  · intro position hposition
    rcases List.mem_append.mp hposition with hold | hjoins
    · obtain ⟨a, ha, heq, hgo⟩ := h.ready position hold
      exact ⟨a, List.mem_append_left _ ha, heq, hgo⟩
    · exact ⟨⟨position, none⟩, List.mem_append_right _ (List.mem_map_of_mem hjoins), rfl, trivial⟩
  · intro a ha hwork
    rcases mem_active_fill w ha with hold | hfresh
    · exact List.mem_append_left _ (h.fresh a hold hwork)
    · exact hfresh.2

/-- A position is not in line twice, so once it is polled it is not in line any more. -/
theorem Manned.canGo (h : Manned w s) (hpositions : (w.active.map Active.position).Nodup)
    (ha : a ∈ w.active) (hready : a.position ∈ w.ready) : Work.CanGo s a.work := by
  obtain ⟨b, hb, heq, hgo⟩ := h.ready _ hready
  rwa [← List.inj_on_of_nodup_map hpositions hb ha heq]

/-- A position goes on under a number of its window's, or under a new one. -/
theorem holds_ticket (ha : a ∈ w.active) (c : Cache) :
    w.Holds (c.ticket a.work) ∨ a.ticket? = none ∧ c.ticket a.work = c.nextCall := by
  cases hown : a.ticket? with
  | some id =>
      left
      rw [Cache.ticket, show a.work.bind Work.ticket? = some id from hown]
      exact ⟨a, ha, hown⟩
  | none =>
      right
      rw [Cache.ticket, show a.work.bind Work.ticket? = none from hown]
      exact ⟨rfl, rfl⟩

theorem Manned.ticket_ne (h : Manned w s) (horderly : Orderly s.cache) (ha : a ∈ w.active)
    {b : Active} (hb : b ∈ w.active) (hne : b.position ≠ a.position) :
    b.ticket? ≠ some (s.cache.ticket a.work) := by
  intro hticket
  cases hown : a.ticket? with
  | some id =>
      have heq : s.cache.ticket a.work = id := by
        rw [Cache.ticket, show a.work.bind Work.ticket? = some id from hown]
        rfl
      rw [heq] at hticket
      exact hne (h.apart b hb a ha id hticket hown)
  | none =>
      have heq : s.cache.ticket a.work = s.cache.nextCall := by
        rw [Cache.ticket, show a.work.bind Work.ticket? = none from hown]
        rfl
      rw [heq] at hticket
      obtain ⟨call, hcall, hid⟩ := h.call_of_holds ⟨b, hb, hticket⟩
      exact horderly.id_ne_nextCall hcall hid

/-- A position is polled under the number of its call: what is left of it stands in its place, and
the others are as they were. -/
theorem Manned.poll (h : Manned w s) (horderly : Orderly s.cache) (ha : a ∈ w.active)
    {rest : List Nat} (hfirst : w.ready = a.position :: rest)
    (hapart : Apart (s.cache.ticket a.work) s.cache s'.cache) (hnow : s'.now = s.now)
    {left : List Active}
    (hleft : ∀ b ∈ left, b.position = a.position ∧ ∃ work, b.work = some work ∧
      work.ticket? = some (s.cache.ticket a.work) ∧
      work.Pursues w.provider (w.textAt a.position) s')
    (hprovider : w'.provider = w.provider) (htexts : w'.texts = w.texts)
    (hactive : ∀ b, b ∈ w'.active ↔ b ∈ w.active ∧ b.position ≠ a.position ∨ b ∈ left)
    (hready : w'.ready = rest) : Manned w' s' := by
  have hother : ∀ b ∈ w.active, b.position ≠ a.position →
      b.ticket? ≠ some (s.cache.ticket a.work) :=
    fun b hb hne => h.ticket_ne horderly ha hb hne
  have hown : ∀ b ∈ left, b.ticket? = some (s.cache.ticket a.work) := by
    intro b hb
    obtain ⟨-, work, hwork, hid, -⟩ := hleft b hb
    rw [Active.ticket?, hwork]
    exact hid
  have htextAt : w'.textAt = w.textAt := by
    funext position
    rw [textAt, textAt, htexts]
  have honce := h.once
  rw [hfirst, List.nodup_cons] at honce
  refine ⟨fun b hb work hwork => ?_, fun b hb b' hb' id hid hid' => ?_, ?_,
    fun position hposition => ?_, fun b hb hwork => ?_⟩
  · rw [hprovider, htextAt]
    rcases (hactive b).mp hb with ⟨hb, hne⟩ | hb
    · refine (h.pursued b hb work hwork).apart ?_ hapart hnow
      have hticket := hother b hb hne
      rwa [Active.ticket?, hwork] at hticket
    · obtain ⟨hposition, work', hwork', -, hpursues⟩ := hleft b hb
      rw [hwork] at hwork'
      cases hwork'
      rw [hposition]
      exact hpursues
  · rcases (hactive b).mp hb with ⟨hb, hne⟩ | hb
    · rcases (hactive b').mp hb' with ⟨hb', -⟩ | hb'
      · exact h.apart b hb b' hb' id hid hid'
      · rw [hown b' hb'] at hid'
        exact absurd (hid.trans hid'.symm) (hother b hb hne)
    · rcases (hactive b').mp hb' with ⟨hb', hne'⟩ | hb'
      · rw [hown b hb] at hid
        exact absurd (hid'.trans hid.symm) (hother b' hb' hne')
      · rw [(hleft b hb).1, (hleft b' hb').1]
  · rw [hready]
    exact honce.2
  · rw [hready] at hposition
    obtain ⟨b, hb, rfl, hgo⟩ := h.ready position (hfirst ▸ List.mem_cons_of_mem _ hposition)
    have hne : b.position ≠ a.position := fun heq => honce.1 (heq ▸ hposition)
    exact ⟨b, (hactive b).mpr (Or.inl ⟨hb, hne⟩), rfl, hgo.apart (hother b hb hne) hapart hnow⟩
  · rw [hready]
    rcases (hactive b).mp hb with ⟨hb, hne⟩ | hb
    · have hin := h.fresh b hb hwork
      rw [hfirst] at hin
      exact (List.mem_cons.mp hin).resolve_left hne
    · obtain ⟨-, work, hwork', -⟩ := hleft b hb
      rw [hwork] at hwork'
      cases hwork'

/-- The window goes on under the numbers it had, but for that of the position that was polled. -/
theorem holds_of_ne (hpositions : (w.active.map Active.position).Nodup) (ha : a ∈ w.active)
    {left : List Active}
    (hleft : ∀ b ∈ left, b.ticket? = some (s.cache.ticket a.work))
    (hactive : ∀ b, b ∈ w'.active ↔ b ∈ w.active ∧ b.position ≠ a.position ∨ b ∈ left)
    {id : CallId} (hne : id ≠ s.cache.ticket a.work) : w'.Holds id ↔ w.Holds id := by
  constructor
  · rintro ⟨b, hb, hid⟩
    rcases (hactive b).mp hb with ⟨hb, -⟩ | hb
    · exact ⟨b, hb, hid⟩
    · rw [hleft b hb] at hid
      exact absurd (Option.some.inj hid).symm hne
  · rintro ⟨b, hb, hid⟩
    refine ⟨b, (hactive b).mpr (Or.inl ⟨hb, fun heq => hne ?_⟩), hid⟩
    rw [List.inj_on_of_nodup_map hpositions hb ha heq] at hid
    rw [Cache.ticket, show a.work.bind Work.ticket? = some id from hid]
    rfl

theorem Manned.beside (h : Manned w s) {id : CallId} (hforeign : ¬ w.Holds id)
    (hapart : Apart id s.cache s'.cache) (hnow : s'.now = s.now) : Manned w s' := by
  have hne : ∀ a ∈ w.active, a.ticket? ≠ some id := fun a ha hid => hforeign ⟨a, ha, hid⟩
  refine ⟨fun a ha work hwork => ?_, h.apart, h.once, fun position hposition => ?_, h.fresh⟩
  · refine (h.pursued a ha work hwork).apart ?_ hapart hnow
    have hticket := hne a ha
    rwa [Active.ticket?, hwork] at hticket
  · obtain ⟨a, ha, hposition, hgo⟩ := h.ready position hposition
    exact ⟨a, ha, hposition, hgo.apart (hne a ha) hapart hnow⟩

/-- Time goes on, but no further than to the next moment at which somebody can. -/
theorem Manned.wait (h : Manned w s) {moment : Moment} (hlater : s.now ≤ moment)
    (hdue : ∀ due, w.due? = some due → moment ≤ due) : Manned w { s with now := moment } := by
  have hbelow : ∀ a ∈ w.active, ∀ due, a.work.bind Work.due? = some due → moment ≤ due := by
    intro a ha due hwork
    obtain ⟨first, hfirst⟩ := Option.isSome_iff_exists.mp
      (foldl_earlier?_isSome (fun a : Active => a.work.bind Work.due?) w.active none
        (Or.inr ⟨a, ha, by rw [hwork]; rfl⟩))
    exact (hdue first hfirst).trans ((foldl_earlier?_eq_some _ _ _ hfirst).2.2 a ha due hwork)
  refine ⟨fun a ha work hwork => ?_, h.apart, h.once, fun position hposition => ?_, h.fresh⟩
  · cases h.pursued a ha work hwork with
    | line known => exact .line known
    | compute known polled due late =>
        refine .compute known polled due (hbelow a ha _ ?_)
        rw [hwork]
        exact due
  · obtain ⟨a, ha, hposition, hgo⟩ := h.ready position hposition
    refine ⟨a, ha, hposition, ?_⟩
    cases hwork : a.work with
    | none => trivial
    | some work =>
        rw [hwork] at hgo
        have hnow : ∀ due, work.due? = some due → moment ≤ due := fun due hdue =>
          hbelow a ha due (by rw [hwork]; exact hdue)
        cases work with
        | line id => exact hgo
        | _ =>
            -- whoever is due now keeps the time from going on
            have heq : moment = s.now := Nat.le_antisymm (hnow _ hgo) hlater
            show Work.due? _ = some moment
            rw [heq]
            exact hgo

/-- A call that was given its lock has its position in line. -/
theorem Manned.ready_of_granted (h : Manned w s) (horderly : Orderly s.cache) {id : CallId}
    (hgranted : id ∈ s.cache.granted) (hholds : w.Holds id) : (w.wake s).ready ≠ [] := by
  obtain ⟨a, ha, hticket⟩ := hholds
  obtain ⟨work, hwork, hid⟩ := Option.bind_eq_some_iff.mp hticket
  have hline : work = .line id := by
    cases h.pursued a ha work hwork with
    | line known => rw [Option.some.inj hid]
    | compute known polled due late =>
        obtain ⟨other, hother, hid', hqueued, -⟩ := (horderly.granted _).mp hgranted
        have hsame := horderly.eq_of_id_eq known hother ((Option.some.inj hid).trans hid'.symm)
        rw [← hsame] at hqueued
        cases hqueued
  have hsome : (w.waiting? id).isSome := by
    rw [waiting?, Option.isSome_map, List.find?_isSome]
    exact ⟨a, ha, by simp [hwork, hline, Work.line?]⟩
  obtain ⟨position, hposition⟩ := Option.isSome_iff_exists.mp hsome
  exact List.ne_nil_of_mem (mem_ready_wake.mpr (Or.inr (Or.inr ⟨id, hgranted, hposition⟩)))

/-- A call that computes has its position wait for a moment. -/
theorem Manned.due_of_computing (h : Manned w s) (horderly : Orderly s.cache) {call : Call}
    (hcall : call ∈ s.cache.calls) (hphase : call.phase = .computing)
    (hholds : w.Holds call.id) : ∃ due, w.due? = some due := by
  obtain ⟨a, ha, hticket⟩ := hholds
  obtain ⟨work, hwork, hid⟩ := Option.bind_eq_some_iff.mp hticket
  cases h.pursued a ha work hwork with
  | compute known polled due late =>
      rw [← Option.isSome_iff_exists]
      exact foldl_earlier?_isSome _ _ _ (Or.inr ⟨a, ha, by rw [hwork]; exact Option.isSome_of_eq_some due⟩)
  | line known =>
      have hsame := horderly.eq_of_id_eq known hcall (Option.some.inj hid)
      rw [← hsame] at hphase
      cases hphase

/-- Where somebody is unfinished, the window can go on or some call can, of whichever window: it was
given its lock, or it computes. -/
theorem Manned.exists_going (h : Manned w s) {start : Cache} {f : String → Answer}
    {texts : List String} (hcrew : Crew start f texts s.cache) (ha : a ∈ w.active) :
    (w.wake s).ready ≠ [] ∨
      ∃ call ∈ s.cache.calls, call.id ∈ s.cache.granted ∨ call.phase = .computing := by
  cases hwork : a.work with
  | none => exact Or.inl (List.ne_nil_of_mem (mem_ready_wake.mpr (Or.inl (h.fresh a ha hwork))))
  | some work =>
      right
      obtain ⟨call, hcall, -⟩ := (h.pursued a ha work hwork).ticket
      obtain ⟨first, hfirst, -, -, hon⟩ := hcrew.orderly.exists_first hcall
      refine ⟨first, hfirst, hon.symm.imp id fun hphase => ?_⟩
      rcases hcrew.working first hfirst with hqueued | ⟨hcomputing, -⟩
      · exact absurd hqueued hphase
      · exact hcomputing

end Manned

/-! ## A window alone -/

section Staffed

variable {w : Window} {s s' : Session} {a : Active}

theorem Staffed.exists_due (h : Staffed w s) {start : Cache} {f : String → Answer}
    (hcrew : Crew start f w.texts s.cache) (hidle : (w.wake s).ready = []) (ha : a ∈ w.active) :
    ∃ due, w.due? = some due := by
  rcases h.exists_going hcrew ha with hready | ⟨call, hcall, hgranted | hcomputing⟩
  · exact absurd hidle hready
  · exact absurd hidle (h.ready_of_granted hcrew.orderly hgranted (h.owned call hcall))
  · exact h.due_of_computing hcrew.orderly hcall hcomputing (h.owned call hcall)

/-- Dropping work ends its call and changes neither rows nor log. -/
theorem cancel_of_pursues {p : Provider} (hquiet : p.Quiet) {text : String} {work : Work}
    {s₀ : Session} (h : work.Pursues p text s₀) (s : Session) :
    ∃ id, work.ticket? = some id ∧ work.cancel s = { s with cache := s.cache.abandon id } := by
  cases h with
  | line known => exact ⟨_, rfl, rfl⟩
  | compute known polled due late =>
      refine ⟨_, rfl, ?_⟩
      simp only [Work.cancel, (polled.fits hquiet).cancel s]

/-- What is left when the work of positions is dropped, the last first. -/
theorem foldr_cancel {p : Provider} (hquiet : p.Quiet) {textAt : Nat → String}
    {actives : List Active}
    (hpursued : ∀ a ∈ actives, ∀ work, a.work = some work → work.Pursues p (textAt a.position) s)
    (horderly : Orderly s.cache) :
    let s' := actives.foldr (fun a s => a.work.elim s (·.cancel s)) s
    s'.log = s.log ∧ s'.cache.database = s.cache.database ∧
      s'.cache.dimension = s.cache.dimension ∧ Orderly s'.cache ∧
      ∀ call, call ∈ s'.cache.calls ↔
        call ∈ s.cache.calls ∧ ∀ a ∈ actives, a.ticket? ≠ some call.id := by
  induction actives with
  | nil => simpa using horderly
  | cons a actives ih =>
      obtain ⟨hlog, hdatabase, hdimension, horderly', hcalls⟩ :=
        ih fun b hb => hpursued b (List.mem_cons_of_mem _ hb)
      rw [List.foldr_cons]
      set s₁ := actives.foldr (fun a s => a.work.elim s (·.cancel s)) s
      cases hwork : a.work with
      | none =>
          refine ⟨hlog, hdatabase, hdimension, horderly', fun call => ?_⟩
          have hnone : a.ticket? = none := by rw [Active.ticket?, hwork]; rfl
          rw [List.forall_mem_cons, hnone]
          simpa using hcalls call
      | some work =>
          obtain ⟨id, hticket, hcancel⟩ :=
            cancel_of_pursues hquiet (hpursued a List.mem_cons_self work hwork) s₁
          obtain ⟨horderly'', hafter⟩ := horderly'.abandon id
          have hown : a.ticket? = some id := by rw [Active.ticket?, hwork]; exact hticket
          simp only [Option.elim_some, hcancel]
          refine ⟨hlog, (database_finish _ _).trans hdatabase,
            (dimension_finish _ _).trans hdimension, horderly'', fun call => ?_⟩
          have hid : some id ≠ some call.id ↔ call.id ≠ id := by
            rw [ne_eq, Option.some_inj, eq_comm]
          rw [hafter, hcalls, List.forall_mem_cons, hown, hid]
          tauto

/-- Nothing is left of the calls when everything is dropped, and the rows stay. -/
theorem Staffed.idle_cancelAll (h : Staffed w s) (hquiet : w.provider.Quiet)
    (horderly : Orderly s.cache) :
    (w.cancelAll s).log = s.log ∧ (w.cancelAll s).cache.database = s.cache.database ∧
      (w.cancelAll s).cache.dimension = s.cache.dimension ∧ Idle (w.cancelAll s).cache := by
  obtain ⟨hlog, hdatabase, hdimension, horderly', hcalls⟩ :=
    foldr_cancel hquiet h.pursued horderly
  refine ⟨hlog, hdatabase, hdimension, horderly'.idle ?_⟩
  refine List.eq_nil_iff_forall_not_mem.mpr fun call hcall => ?_
  obtain ⟨hold, hnobody⟩ := (hcalls call).mp hcall
  obtain ⟨a, ha, hticket⟩ := h.owned call hold
  exact hnobody a ha hticket

end Staffed

end Window

end NearNotes
