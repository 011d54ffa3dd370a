import Mathlib
import NearNotes.Population.Job

/-!
# The course of a window

A window takes steps as long as there is something to do and then waits for the next moment.

* `Window.Step` : what a step of a window that was woken and filled can do, with `step?_eq_some`;
* `Window.Path` : steps and waits, one after the other; `Path.eq_of_isOver` : they lead to one end;
* `Window.populate` : a window to its end; `Job.finish_eq_populate` : what any job makes of it;
* `populate_path` : a job goes along a path, and its result is that of the window it comes to;
* `populate_of_path` : a job has fuel for every path that is not longer than its window allows.
-/

namespace NearNotes

namespace Window

/-! ## Steps -/

inductive Step (w : Window) (s : Session) : Window × Session → Prop
  /-- The next position is finished, and its vector is handed over. -/
  | handsOver {v : Embedding} (found : (w.next, .ok v) ∈ w.finished) :
      Step w s ({ w with
        finished := w.finished.filter (·.1 != w.next)
        handedOver := w.handedOver ++ [v] }, s)
  /-- The next position has failed, and everything else is dropped. -/
  | fails {e : EmbedError} (found : (w.next, .error e) ∈ w.finished) :
      Step w s ({ w with active := [], finished := [], ready := [], failure := some e },
        w.cancelAll s)
  /-- The next position is not finished, and the first in line is polled. -/
  | polls {a : Active} {rest : List Nat} (unfinished : ∀ answer, (w.next, answer) ∉ w.finished)
      (first : w.ready = a.position :: rest) (known : a ∈ w.active) :
      Step w s (({ w with ready := rest } : Window).poll a s)
  /-- The first in line is not in the window any more. -/
  | skips {position : Nat} {rest : List Nat} (unfinished : ∀ answer, (w.next, answer) ∉ w.finished)
      (first : w.ready = position :: rest) (unknown : ∀ a ∈ w.active, a.position ≠ position) :
      Step w s ({ w with ready := rest }, s)

theorem step_handOver {w : Window} {s : Session} {answer : Answer}
    (h : (w.next, answer) ∈ w.finished) :
    Step w s (({ w with finished := w.finished.filter (·.1 != w.next) } : Window).handOver s
      answer) := by
  cases answer with
  | ok v => exact .handsOver h
  | error e => exact .fails h

theorem step?_eq_some {w : Window} {s : Session} {after : Window × Session}
    (h : w.step? s = some after) : w.isOver = false ∧ Step (w.wake s).fill s after := by
  unfold step? at h
  split at h
  · cases h
  · rename_i hover
    refine ⟨by simpa using hover, ?_⟩
    simp only at h
    split at h
    · rename_i position answer hfound
      have hnext : position = (w.wake s).fill.next := by simpa using List.find?_some hfound
      subst hnext
      rw [← Option.some.inj h]
      exact step_handOver (List.mem_of_find?_eq_some hfound)
    · rename_i hfound
      have hunfinished : ∀ answer, ((w.wake s).fill.next, answer) ∉ (w.wake s).fill.finished := by
        intro answer hmem
        have := List.find?_eq_none.mp hfound _ hmem
        simp at this
      split at h
      · cases h
      · rename_i position rest hready
        split at h
        · rename_i a ha
          have hposition : a.position = position := by simpa using List.find?_some ha
          subst hposition
          rw [← Option.some.inj h]
          exact .polls hunfinished hready (List.mem_of_find?_eq_some ha)
        · rename_i ha
          rw [← Option.some.inj h]
          refine .skips hunfinished hready fun a hmem => ?_
          simpa using List.find?_eq_none.mp ha a hmem

/-- A step is taken unless nothing is finished for the next position and nobody is in line. -/
theorem step?_isSome {w : Window} {s : Session} (hover : w.isOver = false) :
    (w.step? s).isSome =
      (w.finished.any (·.1 == w.next) || !(w.wake s).fill.ready.isEmpty) := by
  have hfound : (w.wake s).fill.finished.find? (·.1 == (w.wake s).fill.next) =
      w.finished.find? (·.1 == w.next) := rfl
  have hany : w.finished.any (·.1 == w.next) = (w.finished.find? (·.1 == w.next)).isSome := by
    rw [Bool.eq_iff_iff, List.any_eq_true, List.find?_isSome]
  unfold step?
  simp only [hover, Bool.false_eq_true, if_false, hfound, hany]
  cases w.finished.find? (·.1 == w.next) with
  | some found => rfl
  | none =>
      cases (w.wake s).fill.ready with
      | nil => rfl
      | cons position rest =>
          simp only
          split <;> rfl

/-- Somebody is in line after positions have joined if somebody was before or a position joins. -/
theorem ready_fill_isEmpty (w : Window) :
    w.fill.ready.isEmpty =
      (w.ready.isEmpty && !(w.joined < w.texts.length && w.occupied < w.width)) := by
  have hready : w.fill.ready = w.ready ++
      List.range' w.joined (min (w.width - w.occupied) (w.texts.length - w.joined)) := rfl
  rw [hready, Bool.eq_iff_iff]
  simp only [List.isEmpty_iff, List.append_eq_nil_iff, List.range'_eq_nil_iff, Bool.and_eq_true,
    Bool.not_eq_true', Bool.and_eq_false_iff, decide_eq_false_iff_not]
  refine and_congr_right fun _ => ?_
  omega

/-- There is something to do exactly if a step can be taken. -/
theorem isReady_eq (w : Window) (s : Session) : w.isReady s = (w.step? s).isSome := by
  cases hover : w.isOver with
  | true => simp [isReady, step?, hover]
  | false =>
      rw [step?_isSome hover, ready_fill_isEmpty, isReady, hover]
      have hroom : (w.wake s).joined = w.joined ∧ (w.wake s).texts = w.texts ∧
          (w.wake s).occupied = w.occupied ∧ (w.wake s).width = w.width := ⟨rfl, rfl, rfl, rfl⟩
      simp only [hroom]
      cases (w.wake s).ready.isEmpty <;> cases w.finished.any (·.1 == w.next) <;> simp

/-! ## Waiting -/

theorem earlier?_eq_some {a b : Option Moment} {m : Moment} (h : earlier? a b = some m) :
    (a = some m ∨ b = some m) ∧ (∀ x, a = some x → m ≤ x) ∧ ∀ x, b = some x → m ≤ x := by
  unfold earlier? at h
  split at h
  · rename_i x y
    cases h
    rcases Nat.le_total x y with hle | hle
    · simp [hle]
    · simp [hle]
  · cases h
    simp
  · subst h
    simp

/-- The next moment of a list of dues is one of them, and none is earlier. -/
theorem foldl_earlier?_eq_some {α : Type} (due : α → Option Moment) (l : List α)
    (first : Option Moment) {m : Moment}
    (h : l.foldl (fun d a => earlier? d (due a)) first = some m) :
    (first = some m ∨ ∃ a ∈ l, due a = some m) ∧ (∀ x, first = some x → m ≤ x) ∧
      ∀ a ∈ l, ∀ x, due a = some x → m ≤ x := by
  induction l generalizing first with
  | nil =>
      subst h
      simp
  | cons a l ih =>
      obtain ⟨hone, hfirst, hrest⟩ := ih _ h
      have hbelow : ∀ x, first = some x ∨ due a = some x → m ≤ x := by
        intro x hx
        cases hearlier : earlier? first (due a) with
        | none =>
            unfold earlier? at hearlier
            split at hearlier
            · cases hearlier
            · cases hearlier
            · rename_i hb
              rcases hx with hx | hx
              · cases hx
              · rw [hearlier] at hx
                cases hx
        | some y =>
            obtain ⟨-, hleft, hright⟩ := earlier?_eq_some hearlier
            have hy := hfirst y hearlier
            rcases hx with hx | hx
            · exact hy.trans (hleft x hx)
            · exact hy.trans (hright x hx)
      refine ⟨?_, fun x hx => hbelow x (Or.inl hx), ?_⟩
      · rcases hone with hone | ⟨b, hb, hdue⟩
        · rcases (earlier?_eq_some hone).1 with hone | hone
          · exact Or.inl hone
          · exact Or.inr ⟨a, List.mem_cons_self, hone⟩
        · exact Or.inr ⟨b, List.mem_cons_of_mem _ hb, hdue⟩
      · intro b hb x hx
        rcases List.mem_cons.mp hb with rfl | hb
        · exact hbelow x (Or.inr hx)
        · exact hrest b hb x hx

theorem foldl_earlier?_isSome {α : Type} (due : α → Option Moment) (l : List α)
    (first : Option Moment) (h : first.isSome ∨ ∃ a ∈ l, (due a).isSome) :
    (l.foldl (fun d a => earlier? d (due a)) first).isSome := by
  induction l generalizing first with
  | nil => simpa using h
  | cons a l ih =>
      refine ih _ ?_
      have hearlier : ∀ x y : Option Moment, x.isSome ∨ y.isSome → (earlier? x y).isSome := by
        intro x y hxy
        cases x <;> cases y <;> simp_all [earlier?]
      rcases h with h | ⟨b, hb, h⟩
      · exact Or.inl (hearlier _ _ (Or.inl h))
      · rcases List.mem_cons.mp hb with rfl | hb
        · exact Or.inl (hearlier _ _ (Or.inr h))
        · exact Or.inr ⟨b, hb, h⟩

theorem mem_enroll {ready positions : List Nat} {position : Nat} :
    position ∈ enroll ready positions ↔ position ∈ ready ∨ position ∈ positions := by
  induction positions generalizing ready with
  | nil => simp [enroll]
  | cons first rest ih =>
      show position ∈ enroll (if ready.contains first then ready else ready ++ [first]) rest ↔ _
      rw [ih]
      by_cases hfirst : first ∈ ready
      · have : position = first → position ∈ ready := fun h => h ▸ hfirst
        simp only [List.contains_iff_mem, hfirst, if_true, List.mem_cons]
        tauto
      · simp only [List.contains_iff_mem, hfirst, if_false, List.mem_append, List.mem_cons,
          List.not_mem_nil, or_false]
        tauto

theorem mem_ready_wake_of_isDue {w : Window} {s : Session} {a : Active} (ha : a ∈ w.active)
    (hdue : Active.isDue a s.now = true) : a.position ∈ (w.wake s).ready := by
  refine mem_enroll.mpr (Or.inl (mem_enroll.mpr (Or.inr ?_)))
  exact List.mem_map_of_mem (List.mem_filter.mpr ⟨ha, hdue⟩)

theorem step?_isSome_of_due {w : Window} {s : Session} {due : Moment} (hover : w.isOver = false)
    (hdue : w.due? = some due) (hnow : due ≤ s.now) : (w.step? s).isSome = true := by
  obtain ⟨hone, -⟩ := foldl_earlier?_eq_some _ _ _ hdue
  obtain hone | ⟨a, ha, hwork⟩ := hone
  · cases hone
  · obtain ⟨work, hsome, hwork⟩ := Option.bind_eq_some_iff.mp hwork
    have hisDue : Active.isDue a s.now = true := by
      simp [Active.isDue, hsome, Work.isDue, hwork, hnow]
    have hready : (w.wake s).ready.isEmpty = false := by
      rw [List.isEmpty_eq_false_iff]
      exact List.ne_nil_of_mem (mem_ready_wake_of_isDue ha hisDue)
    rw [step?_isSome hover, ready_fill_isEmpty, hready]
    simp

/-! ## Paths -/

/-- Steps and waits, one after the other. The number counts the steps. -/
inductive Path : Nat → Window → Session → Window → Session → Prop
  | refl (w : Window) (s : Session) : Path 0 w s w s
  | step {m : Nat} {w w₁ w' : Window} {s s₁ s' : Session} (taken : w.step? s = some (w₁, s₁))
      (rest : Path m w₁ s₁ w' s') : Path (m + 1) w s w' s'
  /-- There is nothing to do until the next moment. -/
  | wait {m : Nat} {w w' : Window} {s s' : Session} {due : Moment} (idle : w.step? s = none)
      (running : w.isOver = false) (next : w.due? = some due)
      (rest : Path m w { s with now := max s.now due } w' s') : Path m w s w' s'

theorem step?_of_isOver {w : Window} (h : w.isOver = true) (s : Session) : w.step? s = none := by
  simp [step?, h]

namespace Path

variable {m n : Nat} {w w₁ w₂ : Window} {s s₁ s₂ : Session}

theorem trans (h : Path m w s w₁ s₁) (h' : Path n w₁ s₁ w₂ s₂) : Path (m + n) w s w₂ s₂ := by
  induction h with
  | refl w s => simpa using h'
  | step taken _ ih =>
      rw [Nat.add_right_comm]
      exact .step taken (ih h')
  | wait idle running next _ ih => exact .wait idle running next (ih h')

theorem of_isOver (h : Path m w s w₁ s₁) (hover : w.isOver = true) : m = 0 ∧ w₁ = w ∧ s₁ = s := by
  cases h with
  | refl => exact ⟨rfl, rfl, rfl⟩
  | step taken _ =>
      rw [step?_of_isOver hover] at taken
      cases taken
  | wait idle running next _ =>
      rw [hover] at running
      cases running

theorem eq_of_isOver (h : Path m w s w₁ s₁) (hover : w₁.isOver = true) (h' : Path n w s w₂ s₂)
    (hover' : w₂.isOver = true) : w₂ = w₁ ∧ s₂ = s₁ := by
  induction h generalizing n with
  | refl w s => exact (h'.of_isOver hover).2
  | step taken rest ih =>
      cases h' with
      | refl =>
          rw [step?_of_isOver hover'] at taken
          cases taken
      | step taken' rest' =>
          rw [taken] at taken'
          cases taken'
          exact ih hover rest'
      | wait idle _ _ _ =>
          rw [taken] at idle
          cases idle
  | wait idle running next rest ih =>
      cases h' with
      | refl =>
          rw [hover'] at running
          cases running
      | step taken' _ =>
          rw [idle] at taken'
          cases taken'
      | wait _ _ next' rest' =>
          rw [next] at next'
          cases next'
          exact ih hover rest'

end Path

def textAt (w : Window) (position : Nat) : String := w.texts.getD position ""

def polled (w : Window) (a : Active) (s : Session) : FlightPoll :=
  w.provider.fetch (w.textAt a.position) a.work s

theorem poll_of_pending {w : Window} {a : Active} {s : Session} {work : Work}
    (h : (w.polled a s).progress = .pending work) :
    w.poll a s = ({ w with
      computed := w.computed + (w.polled a s).started.toNat
      active := w.active.map fun b =>
        if b.position == a.position then { b with work := some work } else b },
      (w.polled a s).session) := by
  unfold poll
  simp only [polled, textAt] at h ⊢
  rw [h]

theorem poll_of_done {w : Window} {a : Active} {s : Session} {answer : Answer}
    (h : (w.polled a s).progress = .done answer) :
    w.poll a s = ({ w with
      computed := w.computed + (w.polled a s).started.toNat
      active := w.active.filter (·.position != a.position)
      finished := w.finished ++ [(a.position, answer)] }, (w.polled a s).session) := by
  unfold poll
  simp only [polled, textAt] at h ⊢
  rw [h]

theorem poll_keeps (w : Window) (a : Active) (s : Session) :
    (w.poll a s).1.texts = w.texts ∧ (w.poll a s).1.provider = w.provider := by
  unfold poll
  simp only
  split <;> exact ⟨rfl, rfl⟩

theorem step?_keeps {w : Window} {s : Session} {after : Window × Session}
    (h : w.step? s = some after) :
    after.1.texts = w.texts ∧ after.1.provider = w.provider := by
  cases (step?_eq_some h).2 with
  | handsOver => exact ⟨rfl, rfl⟩
  | fails => exact ⟨rfl, rfl⟩
  | @polls a rest => exact poll_keeps { (w.wake s).fill with ready := rest } a s
  | skips => exact ⟨rfl, rfl⟩

theorem steps_of_step? {w : Window} {s : Session} {after : Window × Session}
    (h : w.step? s = some after) : after.1.steps = w.steps := by
  obtain ⟨htexts, hprovider⟩ := step?_keeps h
  rw [steps, steps, htexts, hprovider]

theorem Path.keeps {m : Nat} {w w' : Window} {s s' : Session} (h : Path m w s w' s') :
    w'.texts = w.texts ∧ w'.provider = w.provider := by
  induction h with
  | refl w s => exact ⟨rfl, rfl⟩
  | step taken _ ih =>
      obtain ⟨htexts, hprovider⟩ := step?_keeps taken
      exact ⟨ih.1.trans htexts, ih.2.trans hprovider⟩
  | wait _ _ _ _ ih => exact ih

/-! ## Steps in a row -/

/-- Steps in a row are a path, and it stops where there is nothing to do, or no fuel. -/
theorem advance_path (fuel : Nat) (w : Window) (s : Session) :
    ∃ m, Path m w s (w.advance fuel s).1 (w.advance fuel s).2 := by
  induction fuel generalizing w s with
  | zero => exact ⟨0, .refl w s⟩
  | succ fuel ih =>
      cases hstep : w.step? s with
      | none =>
          simp only [advance, hstep]
          exact ⟨0, .refl w s⟩
      | some after =>
          obtain ⟨m, hpath⟩ := ih after.1 after.2
          simp only [advance, hstep]
          exact ⟨m + 1, .step hstep hpath⟩

/-- Steps in a row take a path to its end as far as there is something to do. -/
theorem advance_of_path {m fuel : Nat} {w w' : Window} {s s' : Session} (h : Path m w s w' s')
    (hover : w'.isOver = true) (hfuel : m ≤ fuel) :
    ∃ rest, Path rest (w.advance fuel s).1 (w.advance fuel s).2 w' s' ∧ rest ≤ m ∧
      (w.advance fuel s).1.steps = w.steps ∧
      ((w.step? s).isSome → rest < m) := by
  induction h generalizing fuel with
  | refl w s =>
      have hnone := step?_of_isOver hover s
      refine ⟨0, ?_, Nat.le_refl _, ?_, by simp [hnone]⟩
      · cases fuel with
        | zero => exact .refl w s
        | succ fuel =>
            simp only [advance, hnone]
            exact .refl w s
      · cases fuel with
        | zero => rfl
        | succ fuel => simp only [advance, hnone]
  | @step m w w₁ w' s s₁ s' taken path ih =>
      obtain ⟨fuel, rfl⟩ : ∃ k, fuel = k + 1 := ⟨fuel - 1, by omega⟩
      obtain ⟨rest, hpath, hle, hsteps, -⟩ := ih hover (Nat.le_of_succ_le_succ hfuel)
      simp only [advance, taken]
      exact ⟨rest, hpath, by omega, hsteps.trans (steps_of_step? taken), fun _ => by omega⟩
  | @wait m w w' s s' due idle running next path ih =>
      have hstay : w.advance fuel s = (w, s) := by
        cases fuel with
        | zero => rfl
        | succ fuel => simp only [advance, idle]
      rw [hstay]
      exact ⟨m, .wait idle running next path, Nat.le_refl _, rfl, by simp [idle]⟩

end Window

/-! ## Jobs -/

namespace Job

variable {α : Type}

theorem poll_of_running {job : Job α} (h : job.result = none) (s : Session) :
    job.poll s =
      ((job.window.advance job.window.steps s).2,
        { job with
          window := (job.window.advance job.window.steps s).1
          result := job.resultOf (job.window.advance job.window.steps s).1
            (job.window.advance job.window.steps s).2.cache }) := by
  unfold poll
  rw [h]

theorem passes_of_result {job : Job α} (h : job.result.isSome) (fuel : Nat) (s : Session) :
    Task.passes fuel [job] s = (s, [job]) := by
  cases fuel with
  | zero => rfl
  | succ fuel =>
      have hready : job.isReady s = false := by
        simp [isReady, Option.isNone_eq_false_iff.mpr h]
      have hdue : job.due? = none := by simp [due?, h]
      have hnext : Task.nextDue? [job] = none := by
        show earlier? none job.due? = none
        rw [hdue]
        rfl
      have hany : [job].any (Task.isReady · s) = false := by
        show (job.isReady s || false) = false
        rw [hready]
        rfl
      simp only [Task.passes, hany, hnext, Bool.false_eq_true, if_false]

/-- A job without a result is polled if it can go on, and else waits. -/
theorem passes_of_running {job : Job α} (h : job.result = none) (fuel : Nat) (s : Session) :
    Task.passes (fuel + 1) [job] s =
      if job.window.isOver || job.window.isReady s then
        Task.passes fuel [(job.poll s).2] (job.poll s).1
      else
        match job.window.due? with
        | some due => Task.passes fuel [job] { s with now := max s.now due }
        | none => (s, [job]) := by
  have hnext : Task.nextDue? [job] = job.window.due? := by
    show earlier? none job.due? = _
    rw [due?, h]
    rfl
  have hany : [job].any (Task.isReady · s) = (job.window.isOver || job.window.isReady s) := by
    show (job.isReady s || false) = _
    rw [isReady, h]
    simp
  simp only [Task.passes, hany, hnext]
  rfl

/-- The vectors and the number of those computed, as they are. -/
def plain (w : Window) : Job (List Embedding × Nat) :=
  { window := w, conclude := fun vectors computed _ => .ok (vectors, computed) }

@[simp] theorem window_plain (w : Window) : (plain w).window = w := rfl

@[simp] theorem result_plain (w : Window) : (plain w).result = none := rfl

def outcome (job : Job α) (cache : Cache)
    (result : Option (Except RunError (List Embedding × Nat))) : Option (Except RunError α) :=
  result.map (·.bind fun found => job.conclude found.1 found.2 cache)

theorem resultOf_of_failure (job : Job α) {w : Window} {e : EmbedError} (h : w.failure = some e)
    (cache : Cache) : job.resultOf w cache = some (.error (.embedding e)) := by
  rw [resultOf, h]

theorem resultOf_of_done (job : Job α) {w : Window} (hfailure : w.failure = none)
    (hover : w.isOver = true) (cache : Cache) :
    job.resultOf w cache = some (job.conclude w.handedOver w.computed cache) := by
  rw [resultOf, hfailure]
  exact if_pos hover

theorem resultOf_eq (job : Job α) (w : Window) (cache : Cache) :
    job.resultOf w cache = job.outcome cache ((plain w).resultOf w cache) := by
  unfold resultOf
  split
  · rfl
  · split
    · rfl
    · rfl

/-- Jobs on one window go on together, whatever they make of the vectors. -/
theorem passes_eq_plain {job : Job α} (h : job.result = none) (fuel : Nat) (s : Session) :
    (Task.passes fuel [job] s).1 = (Task.passes fuel [plain job.window] s).1 ∧
      (Task.passes fuel [job] s).2.map result =
        (Task.passes fuel [plain job.window] s).2.map fun p =>
          job.outcome (Task.passes fuel [plain job.window] s).1.cache p.result := by
  induction fuel generalizing job s with
  | zero =>
      refine ⟨rfl, ?_⟩
      show [job.result] = [job.outcome s.cache none]
      rw [h]
      rfl
  | succ fuel ih =>
      rw [passes_of_running h, passes_of_running (result_plain job.window)]
      cases hgo : (job.window.isOver || job.window.isReady s) with
      | true =>
          simp only [window_plain, hgo, if_true]
          rw [poll_of_running h, poll_of_running (result_plain job.window)]
          simp only [window_plain]
          set w₁ := (job.window.advance job.window.steps s).1
          set s₁ := (job.window.advance job.window.steps s).2
          have hresult : job.resultOf w₁ s₁.cache =
              job.outcome s₁.cache ((plain job.window).resultOf w₁ s₁.cache) :=
            resultOf_eq job w₁ s₁.cache
          cases hplain : (plain job.window).resultOf w₁ s₁.cache with
          | none =>
              rw [hplain] at hresult
              exact @ih { job with window := w₁, result := job.resultOf w₁ s₁.cache } hresult s₁
          | some r =>
              rw [hplain] at hresult
              rw [passes_of_result (by simp [hresult, outcome]), passes_of_result rfl]
              exact ⟨rfl, by simp [hresult]⟩
      | false =>
          simp only [window_plain, hgo, Bool.false_eq_true, if_false]
          cases job.window.due? with
          | none =>
              refine ⟨rfl, ?_⟩
              show [job.result] = [job.outcome s.cache none]
              rw [h]
              rfl
          | some due => exact ih h _

/-- A job goes along a path of its window, and has no result or that of the window it is at. -/
theorem passes_path {job : Job α} (h : job.result = none) (fuel : Nat) (s : Session) :
    ∃ job' m, (Task.passes fuel [job] s).2 = [job'] ∧
      Window.Path m job.window s job'.window (Task.passes fuel [job] s).1 ∧
      (job'.result = none ∨
        job'.result = job.resultOf job'.window (Task.passes fuel [job] s).1.cache) := by
  induction fuel generalizing job s with
  | zero => exact ⟨job, 0, rfl, .refl _ _, Or.inl h⟩
  | succ fuel ih =>
      rw [passes_of_running h]
      split
      · rw [poll_of_running h]
        simp only
        obtain ⟨m, hpath⟩ := Window.advance_path job.window.steps job.window s
        set w₁ := (job.window.advance job.window.steps s).1
        set s₁ := (job.window.advance job.window.steps s).2
        cases hresult : job.resultOf w₁ s₁.cache with
        | none =>
            obtain ⟨job', n, hjob, hrest, hend⟩ :=
              @ih { job with window := w₁, result := none } rfl s₁
            exact ⟨job', m + n, hjob, hpath.trans hrest, hend⟩
        | some r =>
            rw [passes_of_result rfl]
            exact ⟨_, m, rfl, hpath, Or.inr hresult.symm⟩
      · rename_i hidle
        simp only [Bool.or_eq_true, not_or, Bool.not_eq_true] at hidle
        cases hdue : job.window.due? with
        | none => exact ⟨job, 0, rfl, .refl _ _, Or.inl h⟩
        | some due =>
            obtain ⟨job', m, hjob, hrest, hend⟩ := ih h { s with now := max s.now due }
            have hnone : job.window.step? s = none := by
              rw [← Option.not_isSome_iff_eq_none, ← Window.isReady_eq, hidle.2]
              exact Bool.false_ne_true
            exact ⟨job', m, hjob, .wait hnone hidle.1 hdue hrest, hend⟩

theorem resultOf_isSome_iff (job : Job α) (w : Window) (cache : Cache) :
    (job.resultOf w cache).isSome = w.isOver := by
  unfold resultOf Window.isOver
  cases w.failure with
  | some e => rfl
  | none =>
      simp only [Option.isSome_none, Bool.false_or]
      split
      · rename_i hnext
        rw [hnext]
        rfl
      · rename_i hnext
        simpa using hnext

theorem resultOf_of_not_isOver (job : Job α) {w : Window} (hover : w.isOver = false)
    (cache : Cache) : job.resultOf w cache = none := by
  rw [← Option.not_isSome_iff_eq_none, resultOf_isSome_iff, hover]
  exact Bool.false_ne_true

/-- A job at the end of its window has its result after one poll. -/
theorem passes_of_isOver {job : Job α} (h : job.result = none) (hover : job.window.isOver = true)
    (fuel : Nat) (s : Session) :
    Task.passes (fuel + 1) [job] s =
      (s, [{ job with result := job.resultOf job.window s.cache }]) := by
  have hstay : job.window.advance job.window.steps s = (job.window, s) := by
    rw [show job.window.steps = job.window.texts.length * (job.window.provider.waits + 4) + 1
      from rfl]
    simp only [Window.advance, Window.step?_of_isOver hover]
  have hsome : (job.resultOf job.window s.cache).isSome := by
    rw [resultOf_isSome_iff, hover]
  rw [passes_of_running h, hover, Bool.true_or, if_pos rfl, poll_of_running h, hstay]
  exact passes_of_result hsome fuel s

theorem passes_of_path {job : Job α} (h : job.result = none) {m fuel : Nat} {w' : Window}
    {s s' : Session} (hpath : Window.Path m job.window s w' s') (hover : w'.isOver = true)
    (hsteps : m < job.window.steps) (hfuel : 2 * m + 1 ≤ fuel) :
    Task.passes fuel [job] s =
      (s', [{ job with window := w', result := job.resultOf w' s'.cache }]) := by
  induction m using Nat.strong_induction_on generalizing job fuel s with
  | _ m ih =>
      -- Where a step can be taken, a poll leaves fewer of them to go.
      have hpoll : ∀ fuel s, Window.Path m job.window s w' s' → 2 * m ≤ fuel + 1 →
          (job.window.step? s).isSome →
          Task.passes (fuel + 1) [job] s =
            (s', [{ job with window := w', result := job.resultOf w' s'.cache }]) := by
        intro fuel s hpath hfuel hstep
        obtain ⟨rest, hrest, -, hkept, hless⟩ :=
          Window.advance_of_path hpath hover (Nat.le_of_lt hsteps)
        have hlt := hless hstep
        rw [passes_of_running h, Window.isReady_eq, hstep, Bool.or_true, if_pos rfl,
          poll_of_running h]
        simp only
        set w₁ := (job.window.advance job.window.steps s).1
        set s₁ := (job.window.advance job.window.steps s).2
        cases hend : w₁.isOver with
        | true =>
            obtain ⟨-, rfl, rfl⟩ := hrest.of_isOver hend
            refine passes_of_result ?_ fuel s₁
            rw [resultOf_isSome_iff, hend]
        | false =>
            have hrunning := job.resultOf_of_not_isOver hend s₁.cache
            exact @ih rest hlt { job with window := w₁, result := job.resultOf w₁ s₁.cache }
              hrunning fuel s₁ hrest (hkept ▸ hlt.trans hsteps) (by omega)
      obtain ⟨fuel, rfl⟩ : ∃ k, fuel = k + 1 := ⟨fuel - 1, by omega⟩
      cases hpath with
      | refl => exact passes_of_isOver h hover fuel _
      | step taken rest =>
          exact hpoll fuel s (.step taken rest) (by omega) (by rw [taken]; rfl)
      | @wait _ _ _ _ _ due idle running next rest =>
          have hstep : (job.window.step? { s with now := max s.now due }).isSome :=
            Window.step?_isSome_of_due running next (Nat.le_max_right _ _)
          have hm : 0 < m := by
            cases rest with
            | refl =>
                rw [hover] at running
                cases running
            | step => exact Nat.succ_pos _
            | wait idle' _ _ _ =>
                rw [idle'] at hstep
                cases hstep
          obtain ⟨fuel, rfl⟩ : ∃ k, fuel = k + 1 := ⟨fuel - 1, by omega⟩
          have hstay : (job.window.isOver || job.window.isReady s) = false := by
            rw [Window.isReady_eq, running, idle]
            rfl
          rw [passes_of_running h, hstay, if_neg Bool.false_ne_true, next]
          exact hpoll fuel _ rest (by omega) hstep

/-- What the jobs on a window, polled to its end, make of it. -/
theorem finish_singleton (job : Job α) (s : Session) :
    finish [job] s =
      ((Task.passes (2 * (job.window.steps + 1) + 1) [job] s).1,
        (Task.passes (2 * (job.window.steps + 1) + 1) [job] s).2.map result) := rfl

end Job

namespace Window

/-- A window to its end: the vectors in order, and how many of them were computed. -/
def populate (w : Window) (s : Session) :
    Session × Option (Except RunError (List Embedding × Nat)) :=
  let (s, results) := Job.finish [Job.plain w] s
  (s, results.head?.join)

/-- A window that is populated comes to a place on its path, and if there is a result then it is
that of this place. -/
theorem populate_path (w : Window) (s : Session) :
    ∃ m w', Path m w s w' (w.populate s).1 ∧
      ((w.populate s).2 = none ∨
        (w.populate s).2 = (Job.plain w).resultOf w' (w.populate s).1.cache) := by
  obtain ⟨job, m, hjob, hpath, hresult⟩ :=
    Job.passes_path (Job.result_plain w) (2 * (w.steps + 1) + 1) s
  have hpopulate : w.populate s =
      ((Task.passes (2 * (w.steps + 1) + 1) [Job.plain w] s).1, job.result) := by
    simp only [populate, Job.finish_singleton]
    rw [Job.window_plain, hjob]
    simp
  rw [hpopulate]
  exact ⟨m, job.window, hpath, hresult⟩

theorem populate_of_path {m : Nat} {w w' : Window} {s s' : Session} (hpath : Path m w s w' s')
    (hover : w'.isOver = true) (hsteps : m < w.steps) :
    w.populate s = (s', (Job.plain w).resultOf w' s'.cache) := by
  have hfuel : 2 * m + 1 ≤ 2 * (w.steps + 1) + 1 := by omega
  have hpasses := Job.passes_of_path (Job.result_plain w) hpath hover hsteps hfuel
  simp only [populate, Job.finish_singleton]
  rw [Job.window_plain, hpasses]
  rfl

end Window

theorem Job.finish_eq_populate {α : Type} {job : Job α} (h : job.result = none) (s : Session) :
    finish [job] s =
      ((job.window.populate s).1,
        [job.outcome (job.window.populate s).1.cache (job.window.populate s).2]) := by
  obtain ⟨hsession, hresults⟩ := passes_eq_plain h (2 * (job.window.steps + 1) + 1) s
  obtain ⟨p, -, hp, -⟩ :=
    passes_path (result_plain job.window) (2 * (job.window.steps + 1) + 1) s
  rw [hp] at hresults
  rw [finish_singleton, hsession, hresults, Window.populate, finish_singleton, window_plain, hp]
  simp

end NearNotes
