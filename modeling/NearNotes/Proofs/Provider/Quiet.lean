import Mathlib
import NearNotes.Provider.Work

/-!
# Providers that keep to themselves

A source with no other writer beside it, and layers of retries around it. Calls on such a provider
leave the cache alone, and each ends after a number of polls that is known beforehand.

* `Provider.Quiet` : the provider has no use for the cache;
* `Session.Asked` : calls on the source were recorded, and nothing else changed;
* `Provider.Fits` : work as such a provider has it; `pollsLeft`, `triesLeft` : how often it can still
  be polled, and ask the source; `tries` : how often one call asks the source at most;
* `start_comes`, `resume_comes` : what the first poll, and a poll at the moment it is due, come to;
* `Provider.Computes` : whenever it is polled on time, the provider's answer is that of a function of
  the text; `computes_source` : so it is for a source with such outcomes, whatever its delays.
-/

namespace NearNotes

/-- Calls on the source for a text were recorded, and nothing else has changed. -/
structure Session.Asked (text : String) (calls : Nat) (s s' : Session) : Prop where
  now : s'.now = s.now
  cache : s'.cache = s.cache
  log : ∃ records, s'.log = s.log ++ records ∧ records.length = calls ∧
    ∀ record ∈ records, record.input = .one text

theorem Session.Asked.refl (text : String) (s : Session) : Asked text 0 s s :=
  ⟨rfl, rfl, [], (List.append_nil _).symm, rfl, by simp⟩

theorem Session.Asked.trans {text : String} {j k : Nat} {s₁ s₂ s₃ : Session}
    (h : Asked text j s₁ s₂) (h' : Asked text k s₂ s₃) : Asked text (j + k) s₁ s₃ := by
  obtain ⟨records, hlog, hlength, hinputs⟩ := h.log
  obtain ⟨records', hlog', hlength', hinputs'⟩ := h'.log
  refine ⟨h'.now.trans h.now, h'.cache.trans h.cache, records ++ records', ?_, ?_, ?_⟩
  · rw [hlog', hlog, List.append_assoc]
  · rw [List.length_append, hlength, hlength']
  · intro record hrecord
    rcases List.mem_append.mp hrecord with hmem | hmem
    · exact hinputs record hmem
    · exact hinputs' record hmem

namespace Provider

/-- The provider does not use the cache, and no other writer stands beside its source. -/
def Quiet : Provider → Prop
  | source src => ∀ earlier text, (src.reply earlier text).rival = none
  | resilient inner _ => inner.Quiet
  | cached _ => False

def tries : Provider → Nat
  | source _ => 1
  | resilient inner plan => (plan.maxRetries + 1) * inner.tries
  | cached inner => inner.tries

/-- Work as a quiet provider has it. -/
def Fits : Provider → Work → Prop
  | source _, .answer _ _ => True
  | resilient inner plan, .attempt _ retry work => retry ≤ plan.maxRetries ∧ inner.Fits work
  | resilient _ plan, .pause _ retry => retry ≤ plan.maxRetries
  | _, _ => False

def pollsLeft : Provider → Work → Nat
  | resilient inner plan, .attempt _ retry work =>
    inner.pollsLeft work + (plan.maxRetries - retry) * (inner.waits + 1)
  | resilient inner plan, .pause _ retry => (plan.maxRetries - retry + 1) * (inner.waits + 1)
  | _, _ => 1

def triesLeft : Provider → Work → Nat
  | resilient inner plan, .attempt _ retry work =>
    inner.triesLeft work + (plan.maxRetries - retry) * inner.tries
  | resilient inner plan, .pause _ retry => (plan.maxRetries - retry + 1) * inner.tries
  | _, _ => 0

/-- Unfinished work is the provider's, is not late, and has only so many polls and calls left. -/
def Leaves (p : Provider) (now : Moment) (polls tries : Nat) : Progress → Prop
  | .done _ => True
  | .pending work => p.Fits work ∧ p.pollsLeft work ≤ polls ∧ p.triesLeft work ≤ tries ∧
    ∃ due, work.due? = some due ∧ now ≤ due

/-- What a poll for a text comes to: it asks the source at least `fewest` and at most `most` times,
and what it leaves has no more calls left than these and only so many polls. -/
def Comes (p : Provider) (text : String) (fewest most polls : Nat) (s : Session)
    (after : Session × Progress) : Prop :=
  ∃ calls, s.Asked text calls after.1 ∧ fewest ≤ calls ∧ calls ≤ most ∧
    p.Leaves s.now polls (most - calls) after.2

variable {p : Provider} {text : String} {work : Work} {s : Session}

theorem pollsLeft_pos (h : p.Fits work) : 0 < p.pollsLeft work := by
  induction p generalizing work with
  | source src => exact Nat.one_pos
  | resilient inner plan ih =>
      cases work with
      | attempt limit retry work => exact Nat.add_pos_left (ih h.2) _
      | pause due retry => exact Nat.mul_pos (Nat.succ_pos _) (Nat.succ_pos _)
      | answer => exact h.elim
      | line => exact h.elim
      | compute => exact h.elim
  | cached inner => exact h.elim

theorem Fits.due? (h : p.Fits work) : ∃ due, work.due? = some due := by
  induction p generalizing work with
  | source src =>
      cases work with
      | answer due outcome => exact ⟨due, rfl⟩
      | _ => exact h.elim
  | resilient inner plan ih =>
      cases work with
      | attempt limit retry work =>
          obtain ⟨due, hdue⟩ := ih h.2
          exact ⟨min limit due, by simp only [Work.due?, hdue, earlier?]⟩
      | pause due retry => exact ⟨due, rfl⟩
      | _ => exact h.elim
  | cached inner => exact h.elim

theorem Fits.cancel (h : p.Fits work) (s : Session) : work.cancel s = s := by
  induction p generalizing work with
  | source src =>
      cases work with
      | answer => rfl
      | _ => exact h.elim
  | resilient inner plan ih =>
      cases work with
      | attempt limit retry work =>
          show work.cancel s = s
          exact ih h.2
      | pause => rfl
      | _ => exact h.elim
  | cached inner => exact h.elim

theorem Fits.line? (h : p.Fits work) : work.line? = none := by
  induction p generalizing work with
  | source src =>
      cases work with
      | answer => rfl
      | _ => exact h.elim
  | resilient inner plan ih =>
      cases work with
      | attempt limit retry work =>
          show work.line? = none
          exact ih h.2
      | pause => rfl
      | _ => exact h.elim
  | cached inner => exact h.elim

end Provider

/-! ## Attempts -/

namespace RetryPlan

variable (plan : RetryPlan)

/-- The verdict on an attempt that needs no cleaning up: an answer, more waiting before the limit,
or another attempt if one is left. -/
theorem judge_cases (retry : Nat) (limit : Moment) {s : Session} {progress : Progress}
    (hcancel : ∀ work, progress = .pending work → work.cancel s = s) :
    (∃ a, plan.judge retry limit s progress = (s, .answer a)) ∨
    (∃ work, progress = .pending work ∧ s.now < limit ∧
      plan.judge retry limit s progress = (s, .wait work)) ∨
    ∃ due, retry < plan.maxRetries ∧ s.now ≤ due ∧
      plan.judge retry limit s progress = (s, .again due) := by
  have hfailure : ∀ e, (∃ a, judge.afterFailure plan retry e s = .answer a) ∨
      ∃ due, retry < plan.maxRetries ∧ s.now ≤ due ∧
        judge.afterFailure plan retry e s = .again due := by
    intro e
    unfold judge.afterFailure
    split
    · rename_i hagain
      rw [Bool.and_eq_true, decide_eq_true_eq] at hagain
      exact Or.inr ⟨_, hagain.2, Nat.le_add_right _ _, rfl⟩
    · exact Or.inl ⟨_, rfl⟩
  have hafter : ∀ e, (∃ a, (s, judge.afterFailure plan retry e s) = (s, .answer a)) ∨
      ∃ due, retry < plan.maxRetries ∧ s.now ≤ due ∧
        (s, judge.afterFailure plan retry e s) = (s, .again due) := by
    intro e
    rcases hfailure e with ⟨a, ha⟩ | ⟨due, hless, hlate, hdue⟩
    · exact Or.inl ⟨a, by rw [ha]⟩
    · exact Or.inr ⟨due, hless, hlate, by rw [hdue]⟩
  cases progress with
  | pending work =>
      have hstay := hcancel work rfl
      by_cases hlimit : limit ≤ s.now
      · simp only [judge, hlimit, if_true, hstay]
        rcases hafter plan.timeoutError with h | h
        · exact Or.inl h
        · exact Or.inr (Or.inr h)
      · simp only [judge, hlimit, if_false]
        exact Or.inr (Or.inl ⟨work, rfl, Nat.lt_of_not_le hlimit, rfl⟩)
  | done a =>
      cases a with
      | ok v => exact Or.inl ⟨.ok v, rfl⟩
      | error e =>
          rcases hafter e with h | h
          · exact Or.inl h
          · exact Or.inr (Or.inr h)

end RetryPlan

namespace Provider

variable {p : Provider} {text : String} {work : Work} {s : Session}

theorem Leaves.mono {now : Moment} {polls polls' tries tries' : Nat} {progress : Progress}
    (h : p.Leaves now polls tries progress) (hpolls : polls ≤ polls') (htries : tries ≤ tries') :
    p.Leaves now polls' tries' progress := by
  cases progress with
  | done a => trivial
  | pending work =>
      obtain ⟨hfits, hpolls', htries', hdue⟩ := h
      exact ⟨hfits, hpolls'.trans hpolls, htries'.trans htries, hdue⟩

theorem Leaves.attempt {inner : Provider} {plan : RetryPlan} {now limit : Moment}
    {polls tries retry : Nat} (h : inner.Leaves now polls tries (.pending work))
    (hlimit : now < limit) (hretry : retry ≤ plan.maxRetries) :
    (resilient inner plan).Leaves now (polls + (plan.maxRetries - retry) * (inner.waits + 1))
      (tries + (plan.maxRetries - retry) * inner.tries) (.pending (.attempt limit retry work)) := by
  obtain ⟨hfits, hpolls, htries, due, hdue, hlate⟩ := h
  refine ⟨⟨hretry, hfits⟩, Nat.add_le_add_right hpolls _, Nat.add_le_add_right htries _,
    min limit due, ?_, Nat.le_min.mpr ⟨Nat.le_of_lt hlimit, hlate⟩⟩
  simp only [Work.due?, hdue, earlier?]

theorem leaves_pause {inner : Provider} {plan : RetryPlan} {now due : Moment} {retry : Nat}
    (hretry : retry ≤ plan.maxRetries) (hlate : now ≤ due) :
    (resilient inner plan).Leaves now ((plan.maxRetries - retry + 1) * (inner.waits + 1))
      ((plan.maxRetries - retry + 1) * inner.tries) (.pending (.pause due retry)) :=
  ⟨hretry, Nat.le_refl _, Nat.le_refl _, due, rfl, hlate⟩

theorem Leaves.cancel {now : Moment} {polls tries : Nat} {progress : Progress}
    (h : p.Leaves now polls tries progress) (s : Session) :
    ∀ work, progress = .pending work → work.cancel s = s := by
  rintro work rfl
  exact h.1.cancel s

theorem judge_leaves {inner : Provider} {plan : RetryPlan} {polls tries retry : Nat}
    {limit : Moment} {progress : Progress} (hretry : retry ≤ plan.maxRetries)
    (hcancel : ∀ work, progress = .pending work → work.cancel s = s)
    (h : s.now < limit → inner.Leaves s.now polls tries progress) :
    ∃ verdict, plan.judge retry limit s progress = (s, verdict) ∧
      (∀ work, verdict = .wait work →
        (resilient inner plan).Leaves s.now (polls + (plan.maxRetries - retry) * (inner.waits + 1))
          (tries + (plan.maxRetries - retry) * inner.tries)
          (.pending (.attempt limit retry work))) ∧
      ∀ due, verdict = .again due → retry < plan.maxRetries ∧ s.now ≤ due := by
  rcases plan.judge_cases retry limit hcancel with
    ⟨a, hverdict⟩ | ⟨work, hwork, hlimit, hverdict⟩ | ⟨due, hagain, hlate, hverdict⟩
  · exact ⟨_, hverdict, by simp, by simp⟩
  · refine ⟨_, hverdict, fun work' heq => ?_, by simp⟩
    cases heq
    rw [hwork] at h
    exact (h hlimit).attempt hlimit hretry
  · refine ⟨_, hverdict, by simp, fun due' heq => ?_⟩
    cases heq
    exact ⟨hagain, hlate⟩

theorem attempts_comes {inner : Provider} {plan : RetryPlan}
    (hstart : ∀ s, inner.Comes text 1 inner.tries inner.waits s (inner.start text s))
    (left retry : Nat) (hleft : retry + left = plan.maxRetries) (s : Session) :
    (resilient inner plan).Comes text 1 ((left + 1) * inner.tries)
      (inner.waits + left * (inner.waits + 1)) s
      (plan.attempts (inner.start text) left retry s) := by
  induction left generalizing retry s with
  | zero =>
      obtain ⟨calls, hasked, hfewest, hmost, hleaves⟩ := hstart s
      rw [← hasked.now] at hleaves
      obtain ⟨verdict, hverdict, hwait, hagain⟩ :=
        judge_leaves (show retry ≤ plan.maxRetries by omega)
          (hleaves.cancel (inner.start text s).1) fun _ : _ < s.now + plan.timeout.nanos => hleaves
      unfold RetryPlan.attempts
      simp only [hverdict]
      cases verdict with
      | answer a => exact ⟨calls, hasked, hfewest, by omega, trivial⟩
      | wait work =>
          refine ⟨calls, hasked, hfewest, by omega, ?_⟩
          have hrest : plan.maxRetries - retry = 0 := by omega
          have hpending := hwait work rfl
          rw [hasked.now, hrest] at hpending
          simpa using hpending
      | again due =>
          have := (hagain due rfl).1
          omega
  | succ left ih =>
      obtain ⟨calls, hasked, hfewest, hmost, hleaves⟩ := hstart s
      rw [← hasked.now] at hleaves
      obtain ⟨verdict, hverdict, hwait, hagain⟩ :=
        judge_leaves (show retry ≤ plan.maxRetries by omega)
          (hleaves.cancel (inner.start text s).1) fun _ : _ < s.now + plan.timeout.nanos => hleaves
      have htries : (left + 1 + 1) * inner.tries = (left + 1) * inner.tries + inner.tries :=
        Nat.succ_mul _ _
      have hpolls : (left + 1) * (inner.waits + 1) = left * (inner.waits + 1) + (inner.waits + 1) :=
        Nat.succ_mul _ _
      unfold RetryPlan.attempts
      simp only [hverdict]
      cases verdict with
      | answer a => exact ⟨calls, hasked, hfewest, by omega, trivial⟩
      | wait work =>
          refine ⟨calls, hasked, hfewest, by omega, ?_⟩
          have hrest : plan.maxRetries - retry = left + 1 := by omega
          have hpending := hwait work rfl
          rw [hasked.now, hrest] at hpending
          exact hpending.mono (Nat.le_refl _) (by omega)
      | again due =>
          simp only
          split
          · obtain ⟨calls', hasked', hfewest', hmost', hleaves'⟩ :=
              ih (retry + 1) (by omega) (inner.start text s).1
            rw [hasked.now] at hleaves'
            exact ⟨calls + calls', hasked.trans hasked', by omega, by omega,
              hleaves'.mono (by omega) (by omega)⟩
          · rename_i hlate
            refine ⟨calls, hasked, hfewest, by omega, ?_⟩
            have hrest : plan.maxRetries - (retry + 1) = left := by omega
            have hpause := @leaves_pause inner plan (inner.start text s).1.now due (retry + 1)
              (by omega) (Nat.le_of_not_le hlate)
            rw [hasked.now, hrest] at hpause
            exact hpause.mono (by omega) (by omega)

/-! ## Polls -/

theorem start_comes (hquiet : p.Quiet) (text : String) (s : Session) :
    p.Comes text 1 p.tries p.waits s (p.start text s) := by
  induction p generalizing s with
  | source src =>
      have hrival : (src.reply s.log.length text).rival = none := hquiet _ _
      have hasked : s.Asked text 1
          { s with log := s.log ++ [⟨.one text, s.now, s.cache.textsInProgress⟩] } :=
        ⟨rfl, rfl, _, rfl, rfl, by simp⟩
      simp only [start, Source.start, hrival]
      split
      · exact ⟨1, hasked, Nat.le_refl _, Nat.le_refl _, trivial⟩
      · exact ⟨1, hasked, Nat.le_refl _, Nat.le_refl _, trivial, Nat.le_refl _, Nat.zero_le _, _,
          rfl, Nat.le_add_right _ _⟩
  | resilient inner plan ih =>
      obtain ⟨calls, hasked, hfewest, hmost, hleaves⟩ :=
        attempts_comes (ih hquiet) plan.maxRetries 0 (Nat.zero_add _) s
      refine ⟨calls, hasked, hfewest, hmost, hleaves.mono ?_ (Nat.le_refl _)⟩
      show _ ≤ (plan.maxRetries + 1) * (inner.waits + 2)
      have hsmall : (plan.maxRetries + 1) * (inner.waits + 1) ≤
          (plan.maxRetries + 1) * (inner.waits + 2) := Nat.mul_le_mul_left _ (Nat.le_succ _)
      have hsplit : (plan.maxRetries + 1) * (inner.waits + 1) =
          plan.maxRetries * (inner.waits + 1) + (inner.waits + 1) := Nat.succ_mul _ _
      omega
  | cached inner => exact hquiet.elim

theorem resume_early (hfits : p.Fits work) {due : Moment} (hdue : work.due? = some due)
    (hearly : s.now < due) (text : String) : p.resume text work s = (s, .pending work) := by
  induction p generalizing work due with
  | source src =>
      cases work with
      | answer due' outcome =>
          cases hdue
          simp only [resume, Nat.not_le.mpr hearly, if_false]
      | _ => exact hfits.elim
  | resilient inner plan ih =>
      cases work with
      | attempt limit retry work =>
          obtain ⟨due', hdue'⟩ := hfits.2.due?
          simp only [Work.due?, hdue', earlier?, Option.some.injEq] at hdue
          obtain ⟨hlimit, hearly'⟩ := lt_min_iff.mp (hdue ▸ hearly)
          have hinner := ih hfits.2 hdue' hearly'
          simp only [resume, hinner, RetryPlan.judge, Nat.not_le.mpr hlimit, if_false]
      | pause due' retry =>
          cases hdue
          simp only [resume, Nat.not_le.mpr hearly, if_false]
      | _ => exact hfits.elim
  | cached inner => exact hfits.elim

/-- A poll of an attempt when it is due: the call itself is due, or else the limit has come and the
call has not gone on. -/
theorem resume_within {limit : Moment} {retry : Nat} (hfits : p.Fits work)
    (hdue : (Work.attempt limit retry work).due? = some s.now)
    (hresume : work.due? = some s.now →
      p.Comes text 0 (p.triesLeft work) (p.pollsLeft work - 1) s (p.resume text work s)) :
    ∃ calls, s.Asked text calls (p.resume text work s).1 ∧ calls ≤ p.triesLeft work ∧
      (∀ rest, (p.resume text work s).2 = .pending rest → p.Fits rest) ∧
      (s.now < limit → p.Leaves s.now (p.pollsLeft work - 1) (p.triesLeft work - calls)
        (p.resume text work s).2) := by
  obtain ⟨due, hdue'⟩ := hfits.due?
  simp only [Work.due?, hdue', earlier?, Option.some.injEq] at hdue
  by_cases hon : due = s.now
  · obtain ⟨calls, hasked, -, hmost, hleaves⟩ := hresume (hon ▸ hdue')
    refine ⟨calls, hasked, hmost, fun rest hrest => ?_, fun _ => hleaves⟩
    rw [hrest] at hleaves
    exact hleaves.1
  · have hearly : s.now < due := lt_of_le_of_ne (hdue ▸ min_le_right limit due) (Ne.symm hon)
    rw [resume_early hfits hdue' hearly]
    refine ⟨0, .refl text s, Nat.zero_le _, fun rest hrest => ?_, fun hlimit => ?_⟩
    · cases hrest
      exact hfits
    · have hbefore := lt_min hlimit hearly
      rw [hdue] at hbefore
      exact absurd hbefore (lt_irrefl _)

theorem resume_attempt_comes {inner : Provider} {plan : RetryPlan} {limit : Moment} {retry : Nat}
    (hquiet : inner.Quiet) (hretry : retry ≤ plan.maxRetries) (hfits : inner.Fits work)
    (hdue : (Work.attempt limit retry work).due? = some s.now)
    (hresume : work.due? = some s.now →
      inner.Comes text 0 (inner.triesLeft work) (inner.pollsLeft work - 1) s
        (inner.resume text work s)) :
    (resilient inner plan).Comes text 0
      (inner.triesLeft work + (plan.maxRetries - retry) * inner.tries)
      (inner.pollsLeft work + (plan.maxRetries - retry) * (inner.waits + 1) - 1) s
      ((resilient inner plan).resume text (.attempt limit retry work) s) := by
  have hpos := pollsLeft_pos hfits
  obtain ⟨calls, hasked, hmost, hrest, hleaves⟩ := resume_within hfits hdue hresume
  rw [← hasked.now] at hleaves
  obtain ⟨verdict, hverdict, hwait, hagain⟩ := judge_leaves hretry
    (fun rest hpending => (hrest rest hpending).cancel _) hleaves
  simp only [resume, hverdict]
  cases verdict with
  | answer a => exact ⟨calls, hasked, Nat.zero_le _, Nat.le_add_right_of_le hmost, trivial⟩
  | wait rest =>
      have hpending := hwait rest rfl
      rw [hasked.now] at hpending
      exact ⟨calls, hasked, Nat.zero_le _, Nat.le_add_right_of_le hmost,
        hpending.mono (by omega) (by omega)⟩
  | again due =>
      obtain ⟨hless, -⟩ := hagain due rfl
      obtain ⟨left, hleft⟩ : ∃ left, plan.maxRetries - retry = left + 1 :=
        ⟨plan.maxRetries - (retry + 1), by omega⟩
      have hnext : plan.maxRetries - (retry + 1) = left := by omega
      have hpolls : (left + 1) * (inner.waits + 1) = left * (inner.waits + 1) + (inner.waits + 1) :=
        Nat.succ_mul _ _
      simp only [hnext, hleft]
      split
      · obtain ⟨calls', hasked', -, hmost', hleaves'⟩ :=
          @attempts_comes text inner plan (start_comes hquiet text) left (retry + 1) (by omega)
            (inner.resume text work s).1
        rw [hasked.now] at hleaves'
        exact ⟨calls + calls', hasked.trans hasked', Nat.zero_le _, by omega,
          hleaves'.mono (by omega) (by omega)⟩
      · rename_i hlate
        have hpause := @leaves_pause inner plan (inner.resume text work s).1.now due
          (retry + 1) hless (Nat.le_of_not_le hlate)
        rw [hasked.now, hnext] at hpause
        exact ⟨calls, hasked, Nat.zero_le _, by omega, hpause.mono (by omega) (by omega)⟩

theorem resume_comes (hquiet : p.Quiet) (text : String) (hfits : p.Fits work)
    (hdue : work.due? = some s.now) :
    p.Comes text 0 (p.triesLeft work) (p.pollsLeft work - 1) s (p.resume text work s) := by
  induction p generalizing work s with
  | source src =>
      cases work with
      | answer due outcome =>
          cases hdue
          simp only [resume, Nat.le_refl, if_true]
          exact ⟨0, .refl text s, Nat.le_refl _, Nat.le_refl _, trivial⟩
      | _ => exact hfits.elim
  | resilient inner plan ih =>
      have hquiet : inner.Quiet := hquiet
      cases work with
      | attempt limit retry work =>
          exact resume_attempt_comes hquiet hfits.1 hfits.2 hdue (ih hquiet hfits.2)
      | pause due retry =>
          cases hdue
          simp only [resume, Nat.le_refl, if_true]
          obtain ⟨calls, hasked, -, hmost, hleaves⟩ := @attempts_comes text inner plan
            (start_comes hquiet text) (plan.maxRetries - retry) retry (Nat.add_sub_cancel' hfits) s
          refine ⟨calls, hasked, Nat.zero_le _, hmost, hleaves.mono ?_ (Nat.le_refl _)⟩
          have hsplit : (plan.maxRetries - retry + 1) * (inner.waits + 1) =
              (plan.maxRetries - retry) * (inner.waits + 1) + (inner.waits + 1) := Nat.succ_mul _ _
          show _ ≤ (plan.maxRetries - retry + 1) * (inner.waits + 1) - 1
          omega
      | _ => exact hfits.elim
  | cached inner => exact hfits.elim

/-! ## Answers -/

/-- What a call on a provider can come to if it is polled on time, whatever else goes on between
the polls. -/
inductive Polled (p : Provider) (text : String) : Progress → Prop
  | start (s : Session) : Polled p text (p.start text s).2
  | resume {work : Work} {s : Session} (earlier : Polled p text (.pending work))
      (due : work.due? = some s.now) : Polled p text (p.resume text work s).2

/-- The provider keeps to itself, and its answer is a function of the text, whatever the delays. -/
structure Computes (p : Provider) (f : String → Answer) : Prop where
  quiet : p.Quiet
  answers : ∀ {text : String} {a : Answer}, p.Polled text (.done a) → a = f text

theorem Polled.fits (hquiet : p.Quiet) (h : p.Polled text (.pending work)) : p.Fits work := by
  generalize hprogress : Progress.pending work = progress at h
  induction h generalizing work with
  | start s =>
      obtain ⟨calls, -, -, -, hleaves⟩ := start_comes hquiet text s
      rw [← hprogress] at hleaves
      exact hleaves.1
  | resume _ due ih =>
      obtain ⟨calls, -, -, -, hleaves⟩ := resume_comes hquiet text (ih rfl) due
      rw [← hprogress] at hleaves
      exact hleaves.1

theorem computes_source {src : Source} {f : String → Answer}
    (houtcome : ∀ earlier text, (src.reply earlier text).outcome = f text)
    (hrival : ∀ earlier text, (src.reply earlier text).rival = none) :
    (source src).Computes f := by
  refine ⟨hrival, fun {text a} h => ?_⟩
  have hpolled : ∀ progress, (source src).Polled text progress →
      progress = .done (f text) ∨ ∃ due, progress = .pending (.answer due (f text)) := by
    intro progress h
    induction h with
    | start s =>
        simp only [Provider.start, Source.start, hrival, houtcome]
        split
        · exact Or.inl rfl
        · exact Or.inr ⟨_, rfl⟩
    | resume _ due ih =>
        obtain ih | ⟨due', ih⟩ := ih
        · cases ih
        · cases ih
          cases due
          simp [Provider.resume]
  obtain h | ⟨due, h⟩ := hpolled _ h
  · cases h
    rfl
  · cases h

end Provider

end NearNotes
