import Mathlib
import NearNotes.Proofs.Population.Course
import NearNotes.Proofs.Population.Sequential

/-!
# The width of a window

Whatever the provider is, and whatever others do to the cache in between, the positions that have
been polled and are not handed over lie within the width of the window, next to each other.

* `Window.Goes` : the states that a window can come to, beside other users of its cache;
  `Window.Path.goes` : those on the path of a run are among them, and `Job.Course.goes`,
  `Job.passes_goes` : so are those of jobs beside each other;
* `Window.Narrow` : the invariant, with a lemma for joining, for a poll and for a step;
* `Window.Started` : the positions that have been polled;
* `Pipeline.window_stays_narrow` : what holds of every such state and of the next step.
-/

namespace NearNotes

namespace Window

/-! ## States -/

/-- The states that a window can come to: positions join, steps are taken, and in between time passes
and others use the cache. -/
inductive Goes (w : Window) (s : Session) : Window → Session → Prop
  | start : Goes w s w s
  | joins {w₁ : Window} {s₁ : Session} (before : Goes w s w₁ s₁) (running : w₁.isOver = false) :
      Goes w s (w₁.wake s₁).fill s₁
  | step {w₁ w₂ : Window} {s₁ s₂ : Session} (before : Goes w s w₁ s₁)
      (taken : w₁.step? s₁ = some (w₂, s₂)) : Goes w s w₂ s₂
  | others {w₁ : Window} {s₁ s₂ : Session} (before : Goes w s w₁ s₁)
      (onward : s₁.cache.Onward s₂.cache) : Goes w s w₁ s₂

theorem Goes.trans {w w₁ w₂ : Window} {s s₁ s₂ : Session} (h : Goes w s w₁ s₁)
    (h' : Goes w₁ s₁ w₂ s₂) : Goes w s w₂ s₂ := by
  induction h' with
  | start => exact h
  | joins _ running ih => exact ih.joins running
  | step _ taken ih => exact ih.step taken
  | others _ onward ih => exact ih.others onward

theorem Path.goes {m : Nat} {w w' : Window} {s s' : Session} (h : Path m w s w' s') :
    Goes w s w' s' := by
  induction h with
  | refl w s => exact .start
  | step taken _ ih => exact (Goes.start.step taken).trans ih
  | @wait _ w _ s _ due _ _ _ _ ih =>
      have hwaits : Goes w s w { s with now := max s.now due } := .others .start (.refl _)
      exact hwaits.trans ih

theorem onward_of_step? {w : Window} {s : Session} {after : Window × Session}
    (h : w.step? s = some after) : s.cache.Onward after.2.cache := by
  cases (step?_eq_some h).2 with
  | handsOver => exact .refl _
  | fails => exact (w.wake s).fill.cancelAll_onward s
  | @polls a rest _ _ _ =>
      rw [session_poll]
      exact w.provider.fetch_onward _ a.work s
  | skips => exact .refl _

end Window

namespace Job

variable {α : Type} {jobs jobs₁ : List (Job α)} {s s₁ : Session} {k : Nat} {job₁ : Job α}

/-- A list in which one element is another one has this in its place, or else what it had. -/
theorem getElem?_replaced {before after : List (Job α)} {old new found : Job α}
    (hk : (before ++ new :: after)[k]? = some found) :
    found = new ∧ (before ++ old :: after)[k]? = some old ∨
      (before ++ old :: after)[k]? = some found := by
  rcases Nat.lt_trichotomy k before.length with hlt | rfl | hgt
  · rw [List.getElem?_append_left hlt] at hk ⊢
    exact Or.inr hk
  · rw [List.getElem?_append_right (Nat.le_refl _), Nat.sub_self] at hk ⊢
    exact Or.inl ⟨(Option.some.inj hk).symm, rfl⟩
  · rw [List.getElem?_append_right hgt.le] at hk ⊢
    obtain ⟨j, hj⟩ := Nat.exists_eq_succ_of_ne_zero (Nat.sub_ne_zero_of_lt hgt)
    rw [hj] at hk ⊢
    exact Or.inr hk

/-- Where one job moves, its window takes a step or stays, and beside the others somebody uses the
cache. -/
theorem Move.goes {called : List String} (h : Move called jobs s jobs₁ s₁)
    (hk : jobs₁[k]? = some job₁) :
    ∃ job, jobs[k]? = some job ∧ job.window.Goes s job₁.window s₁ := by
  cases h with
  | @steps before after job w _ _ running taken =>
      rcases getElem?_replaced hk with ⟨rfl, hjob⟩ | hsame
      · exact ⟨job, hjob, .step .start taken⟩
      · exact ⟨job₁, hsame, .others .start (Window.onward_of_step? taken)⟩
  | @concludes before after job _ running ended =>
      rcases getElem?_replaced hk with ⟨rfl, hjob⟩ | hsame
      · exact ⟨job, hjob, .start⟩
      · exact ⟨job₁, hsame, .start⟩

theorem Course.goes {m : Nat} {called : List String} {jobs' : List (Job α)} {s' : Session}
    (h : Course m called jobs s jobs' s') {job' : Job α} (hk : jobs'[k]? = some job') :
    ∃ job, jobs[k]? = some job ∧ job.window.Goes s job'.window s' := by
  induction h with
  | refl => exact ⟨job', hk, .start⟩
  | move moved _ ih =>
      obtain ⟨job₁, hk₁, hlater⟩ := ih hk
      obtain ⟨job, hjob, hfirst⟩ := moved.goes hk₁
      exact ⟨job, hjob, hfirst.trans hlater⟩
  | @wait _ _ _ _ s _ moment _ _ _ ih =>
      obtain ⟨job, hjob, hlater⟩ := ih hk
      have hwaits : job.window.Goes s job.window { s with now := moment } := .others .start (.refl _)
      exact ⟨job, hjob, hwaits.trans hlater⟩

/-- Jobs that are polled beside each other, however often, go along such states. -/
theorem passes_goes (fuel : Nat) (jobs : List (Job α)) (s : Session) {job' : Job α}
    (hk : (Task.passes fuel jobs s).2[k]? = some job') :
    ∃ job, jobs[k]? = some job ∧ job.window.Goes s job'.window (Task.passes fuel jobs s).1 := by
  induction fuel generalizing jobs s with
  | zero => exact ⟨job', hk, .start⟩
  | succ fuel ih =>
      by_cases hready : jobs.any (Task.isReady · s) = true
      · have hpass : Task.passes (fuel + 1) jobs s =
            Task.passes fuel (Task.pass jobs s).2 (Task.pass jobs s).1 := by
          simp only [Task.passes, hready, if_true]
        rw [hpass] at hk ⊢
        obtain ⟨job₁, hk₁, hlater⟩ := ih _ _ hk
        obtain ⟨m, called, hcourse, -⟩ := pass_course jobs [] s
        obtain ⟨job, hjob, hfirst⟩ := hcourse.goes hk₁
        exact ⟨job, hjob, hfirst.trans hlater⟩
      · cases hdue : Task.nextDue? jobs with
        | none =>
            have hstay : Task.passes (fuel + 1) jobs s = (s, jobs) := by
              simp only [Task.passes, hready, hdue, Bool.false_eq_true, if_false]
            rw [hstay] at hk ⊢
            exact ⟨job', hk, .start⟩
        | some due =>
            have hwait : Task.passes (fuel + 1) jobs s =
                Task.passes fuel jobs { s with now := max s.now due } := by
              simp only [Task.passes, hready, hdue, Bool.false_eq_true, if_false]
            rw [hwait] at hk ⊢
            obtain ⟨job, hjob, hlater⟩ := ih _ _ hk
            have hwaits : job.window.Goes s job.window { s with now := max s.now due } :=
              .others .start (.refl _)
            exact ⟨job, hjob, hwaits.trans hlater⟩

end Job

namespace Window

/-! ## The invariant -/

/-- The position has been polled: there is work for it, or it is finished or handed over. -/
def Started (w : Window) (position : Nat) : Prop :=
  position < w.next ∨ (∃ a ∈ w.active, a.position = position ∧ a.work.isSome) ∨
    ∃ answer, (position, answer) ∈ w.finished

/-- No more positions have joined than the width allows beyond those that are handed over, and these
are in the window. After a failure none is. -/
structure Narrow (w : Window) : Prop where
  entered : w.next ≤ w.joined
  narrow : w.joined ≤ w.next + w.width
  aligned : w.failure = none → w.Aligned
  dropped : w.failure ≠ none → w.active = [] ∧ w.finished = []

variable {w : Window} {s : Session} {a : Active}

theorem Narrow.started_lt (h : w.Narrow) {position : Nat} (hstarted : w.Started position) :
    position < w.joined := by
  have hpositions : ∀ {position}, position ∈ w.active.map Active.position ++ w.finished.map Prod.fst →
      position < w.joined := by
    intro position hmem
    by_cases hfailure : w.failure = none
    · exact (((h.aligned hfailure).mem_positions h.entered).mp hmem).2
    · obtain ⟨hactive, hfinished⟩ := h.dropped hfailure
      rw [hactive, hfinished] at hmem
      cases hmem
  rcases hstarted with hhanded | ⟨a, ha, rfl, -⟩ | ⟨answer, hanswer⟩
  · exact hhanded.trans_le h.entered
  · exact hpositions (List.mem_append_left _ (List.mem_map_of_mem ha))
  · exact hpositions (List.mem_append_right _ (List.mem_map_of_mem hanswer))

theorem Narrow.occupied_le (h : w.Narrow) : w.occupied ≤ w.width := by
  by_cases hfailure : w.failure = none
  · have hoccupied := (h.aligned hfailure).occupied_eq
    have hnarrow := h.narrow
    omega
  · obtain ⟨hactive, hfinished⟩ := h.dropped hfailure
    rw [occupied, hactive, hfinished]
    exact Nat.zero_le _

theorem narrow_of_new {p : Provider} {width : Nat} {texts : List String} :
    Narrow { provider := p, width, texts } where
  entered := Nat.le_refl _
  narrow := Nat.zero_le _
  aligned _ := .refl _
  dropped h := absurd rfl h

theorem Narrow.wake (h : w.Narrow) (s : Session) : (w.wake s).Narrow :=
  ⟨h.entered, h.narrow, h.aligned, h.dropped⟩

theorem Narrow.fill (h : w.Narrow) (hrunning : w.failure = none) : w.fill.Narrow := by
  have hoccupied := (h.aligned hrunning).occupied_eq
  have hentered := h.entered
  have hnarrow := h.narrow
  refine ⟨?_, ?_, fun _ => (h.aligned hrunning).fill h.entered, fun hne => absurd hrunning hne⟩
  · exact h.entered.trans (Nat.le_add_right _ _)
  · show w.joined + min (w.width - w.occupied) (w.texts.length - w.joined) ≤ w.next + w.width
    omega

theorem poll_still (w : Window) (a : Active) (s : Session) :
    (w.poll a s).1.joined = w.joined ∧ (w.poll a s).1.handedOver = w.handedOver ∧
      (w.poll a s).1.width = w.width ∧ (w.poll a s).1.failure = w.failure := by
  unfold poll
  simp only
  split <;> exact ⟨rfl, rfl, rfl, rfl⟩

theorem failure_of_not_isOver (h : w.isOver = false) : w.failure = none := by
  rw [isOver, Bool.or_eq_false_iff] at h
  exact Option.not_isSome_iff_eq_none.mp (by rw [h.1]; exact Bool.false_ne_true)

/-- What is handed over in a step, if anything, is the vector of the next position, which was finished
before. -/
theorem handedOver_of_step? {after : Window × Session} (h : w.step? s = some after) :
    after.1.handedOver = w.handedOver ∨ ∃ v, (w.next, .ok v) ∈ w.finished ∧
      after.1.handedOver = w.handedOver ++ [v] := by
  cases (step?_eq_some h).2 with
  | handsOver found => exact Or.inr ⟨_, found, rfl⟩
  | fails => exact Or.inl rfl
  | polls => exact Or.inl (poll_still _ _ s).2.1
  | skips => exact Or.inl rfl

/-- **One step** keeps the window narrow, and nobody joins in it before there is room. -/
theorem Narrow.step (h : w.Narrow) {after : Window × Session} (hstep : w.step? s = some after) :
    after.1.Narrow ∧ after.1.joined ≤ w.next + w.width := by
  obtain ⟨hover, hafter⟩ := step?_eq_some hstep
  have hrunning := failure_of_not_isOver hover
  have hfilled : (w.wake s).fill.Narrow := (h.wake s).fill hrunning
  have haligned := hfilled.aligned hrunning
  cases hafter with
  | @handsOver v found =>
      have hless : (w.wake s).fill.next < (w.wake s).fill.joined :=
        hfilled.started_lt (Or.inr (Or.inr ⟨_, found⟩))
      refine ⟨⟨?_, ?_, fun _ => haligned.handsOver hless found, fun hne => absurd hrunning hne⟩,
        hfilled.narrow⟩
      · show (w.handedOver ++ [v]).length ≤ _
        rw [List.length_append]
        exact hless
      · show _ ≤ (w.handedOver ++ [v]).length + _
        rw [List.length_append]
        exact hfilled.narrow.trans (Nat.add_le_add_right (Nat.le_add_right _ _) _)
  | fails found =>
      refine ⟨⟨hfilled.entered, hfilled.narrow, fun hnone => ?_, fun _ => ⟨rfl, rfl⟩⟩,
        hfilled.narrow⟩
      cases hnone
  | @polls a rest unfinished first known =>
      have hpolled := Aligned.poll
        (show Aligned { (w.wake s).fill with ready := rest } from haligned) known s
      obtain ⟨hjoined, hhanded, hwidth, hfailure⟩ :=
        poll_still { (w.wake s).fill with ready := rest } a s
      refine ⟨⟨?_, ?_, fun _ => hpolled, fun hne => absurd (hfailure.trans hrunning) hne⟩, ?_⟩
      · rw [next, hhanded, hjoined]
        exact hfilled.entered
      · rw [next, hhanded, hjoined, hwidth]
        exact hfilled.narrow
      · rw [hjoined]
        exact hfilled.narrow
  | skips =>
      exact ⟨⟨hfilled.entered, hfilled.narrow, fun _ => haligned, fun hne => absurd hrunning hne⟩,
        hfilled.narrow⟩

theorem width_of_step? {after : Window × Session} (h : w.step? s = some after) :
    after.1.width = w.width := by
  cases (step?_eq_some h).2 with
  | handsOver => rfl
  | fails => rfl
  | polls => exact (poll_still _ _ s).2.2.1
  | skips => rfl

/-! ## Every state -/

variable {w' : Window} {s' : Session}

/-- **Every state** is narrow, and the window is over the same texts. -/
theorem Goes.narrow (h : Goes w s w' s') (hnarrow : w.Narrow) :
    w'.Narrow ∧ w'.width = w.width ∧ w'.texts = w.texts := by
  induction h with
  | start => exact ⟨hnarrow, rfl, rfl⟩
  | @joins w₁ s₁ _ running ih =>
      exact ⟨(ih.1.wake s₁).fill (failure_of_not_isOver running), ih.2⟩
  | step _ taken ih =>
      exact ⟨(ih.1.step taken).1, (width_of_step? taken).trans ih.2.1,
        (step?_keeps taken).1.trans ih.2.2⟩
  | others _ _ ih => exact ih

theorem Goes.stored (h : Goes w s w' s') (hstored : w.Stored s) : w'.Stored s' := by
  induction h with
  | start => exact hstored
  | @joins w₁ s₁ _ _ ih => exact (ih.wake s₁).fill
  | step _ taken ih => exact (ih.step taken).1
  | others _ onward ih => exact ih.onward onward

/-- At most one call of the provider is in progress for a position. -/
theorem computing_le (w : Window) : w.computing ≤ w.active.length := by
  have hone : ∀ n ∈ w.active.map fun a => Work.computing a.work, n ≤ 1 := by
    intro n hn
    obtain ⟨a, -, rfl⟩ := List.mem_map.mp hn
    unfold Work.computing
    split <;> decide
  have hsum := List.sum_le_card_nsmul _ 1 hone
  rwa [List.length_map, smul_eq_mul, Nat.mul_one] at hsum

/-- What lies a whole width before a position that has joined is handed over, and has a row. -/
theorem Stored.read_of_joined (h : w.Stored s) {joined i : Nat} (hjoined : joined ≤ w.next + w.width)
    (hi : i + w.width < joined) :
    ∃ v, w.handedOver[i]? = some v ∧ s.cache.read (w.textAt i) = .ok (some v) := by
  have hless : i < w.handedOver.length := by
    have : i + w.width < w.handedOver.length + w.width := hi.trans_le hjoined
    omega
  exact ⟨w.handedOver[i], List.getElem?_eq_getElem hless,
    h.handedOver i _ (List.getElem?_eq_getElem hless)⟩

end Window

namespace Pipeline

/-- **The window stays narrow.** In every state that a run can come to, beside whatever others do, the
sections that have been polled and are not handed over lie within so many positions from the next one;
a section has only been polled if the one so many positions before it is handed over, and stored; and
no more calls of the provider than that are in progress. In the next step, what is handed over is the
vector of the next section, and no section is polled that is too far ahead. Among these states are
those of the window of any job, however often it and others are polled beside each other. -/
theorem window_stays_narrow (p : Pipeline) (document : String) {s : Session}
    (hbound : ∀ call ∈ s.cache.calls, call.id < s.cache.nextCall) :
    (∀ {w : Window} {s' : Session}, (p.window (p.splitter.sections document)).Goes s w s' →
      w.texts = (p.splitter.sections document).map Section.text ∧
      (∀ i, w.Started i → w.handedOver[i]? = none → w.next ≤ i ∧ i < w.next + p.concurrency) ∧
      (∀ i, w.Started (i + p.concurrency) →
        ∃ v, w.handedOver[i]? = some v ∧ s'.cache.read (w.textAt i) = .ok (some v)) ∧
      w.computing ≤ p.concurrency ∧
      ∀ after, w.step? s' = some after →
        (after.1.handedOver = w.handedOver ∨ ∃ v, (w.next, .ok v) ∈ w.finished ∧
          after.1.handedOver = w.handedOver ++ [v]) ∧
        ∀ i, after.1.Started (i + p.concurrency) →
          ∃ v, w.handedOver[i]? = some v ∧ s'.cache.read (w.textAt i) = .ok (some v)) ∧
    ∀ {α : Type} (jobs : List (Job α)) (fuel k : Nat) (job job' : Job α), jobs[k]? = some job →
      job.window = p.window (p.splitter.sections document) →
      (Task.passes fuel jobs s).2[k]? = some job' →
      (p.window (p.splitter.sections document)).Goes s job'.window (Task.passes fuel jobs s).1 := by
  refine ⟨fun {w s'} hgoes => ?_, fun jobs fuel k job job' hjob hwindow hk => ?_⟩
  · obtain ⟨hnarrow, hwidth, htexts⟩ := hgoes.narrow Window.narrow_of_new
    have hwidth : w.width = p.concurrency := hwidth
    have hstored := hgoes.stored (Window.stored_of_new rfl rfl rfl hbound)
    rw [← hwidth]
    refine ⟨htexts, fun i hstarted hnone => ?_, fun i hstarted => ?_, ?_, fun after hstep => ?_⟩
    · exact ⟨List.getElem?_eq_none_iff.mp hnone,
        (hnarrow.started_lt hstarted).trans_le hnarrow.narrow⟩
    · exact hstored.read_of_joined hnarrow.narrow (hnarrow.started_lt hstarted)
    · exact w.computing_le.trans ((Nat.le_add_right _ _).trans hnarrow.occupied_le)
    · obtain ⟨hafter, hjoined⟩ := hnarrow.step hstep
      exact ⟨Window.handedOver_of_step? hstep, fun i hstarted =>
        hstored.read_of_joined hjoined (hafter.started_lt hstarted)⟩
  · obtain ⟨first, hfirst, hpasses⟩ := Job.passes_goes fuel jobs s hk
    rw [hjob, Option.some.injEq] at hfirst
    rwa [← hfirst, hwindow] at hpasses

/-- The window over three letters, two at a time, while the first two are computed. -/
def firstTwo : Window × Session :=
  (rivalled.window (rivalled.splitter.sections "abc")).advance 2 { cache := { database := oneRow } }

/-- The same window a millisecond later, when these are handed over and the last one is computed. -/
def lastOne : Window × Session := firstTwo.1.advance 5 { firstTwo.2 with now := 1000000 }

theorem window_stays_narrow_rivalled :
    firstTwo.1.computing = 2 ∧ lastOne.1.Started 2 ∧ 2 < lastOne.1.next + rivalled.concurrency ∧
      ∃ v, lastOne.1.handedOver[0]? = some v ∧
        lastOne.2.cache.read (lastOne.1.textAt 0) = .ok (some v) := by
  obtain ⟨m, hfirst⟩ := Window.advance_path 2
    (rivalled.window (rivalled.splitter.sections "abc")) { cache := { database := oneRow } }
  obtain ⟨n, hlast⟩ := Window.advance_path 5 firstTwo.1 { firstTwo.2 with now := 1000000 }
  have hwaits : Window.Goes _ _ firstTwo.1 { firstTwo.2 with now := 1000000 } :=
    .others hfirst.goes (.refl _)
  have hactive : lastOne.1.active[0]? = some ⟨2, some (.compute 2 (.answer 2000000 (.ok [⟨0⟩])))⟩ :=
    rfl
  have hstarted : lastOne.1.Started 2 :=
    Or.inr (Or.inl ⟨_, List.mem_of_getElem? hactive, rfl, rfl⟩)
  obtain ⟨-, hbetween, hbehind, -, -⟩ :=
    (rivalled.window_stays_narrow "abc" (by simp)).1 (hwaits.trans hlast.goes)
  exact ⟨rfl, hstarted, (hbetween 2 hstarted rfl).2, hbehind 0 hstarted⟩

end Pipeline

end NearNotes
