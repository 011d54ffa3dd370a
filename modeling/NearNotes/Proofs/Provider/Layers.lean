import Mathlib
import NearNotes.Proofs.Population.Sequential
import NearNotes.Proofs.Provider.Paired

/-!
# Layers around a source

Retries and the cache, in any order and number, around a source that answers at once. A layer of
retries passes a vector through. So does a layer of the cache, but two of them are one too many for a
text without a row: the outer one holds the lock of the text and waits for the inner one, which waits
for the lock.

* `Provider.cachedLayers` : the number of layers that read through the cache;
* `Source.Prompt` : the source answers at once with a vector;
* `start_of_uncached`, `start_of_present`, `start_of_absent` : the first poll, which is the whole call;
  `computes_of_prompt` : retries compute what the source does;
* `Guards`, `Blocked` : a call that times out or does not end, however often it is tried again;
  `attempts_guards`, `resume_guards` : layers of retries keep to that;
* `Cache.Occupied` : one call for a text computes and at most one other waits for its lock;
* `start_behind`, `resume_behind` : a layer of the cache that comes to a lock that is held;
* `start_above`, `resume_above` : one that holds the lock and computes by way of another;
* `Provider.embed_through_layers` : what a call on any stack of layers comes to;
  `embed_through_two_cached_layers` : calls that come to no vector.
-/

namespace NearNotes

open Cache

def Provider.cachedLayers : Provider → Nat
  | source _ => 0
  | resilient inner _ => inner.cachedLayers
  | cached inner => inner.cachedLayers + 1

/-- The source answers every call at once with a vector, and nobody else writes. -/
structure Source.Prompt (src : Source) (f : Nat → String → Embedding) : Prop where
  reply : ∀ earlier text, src.reply earlier text = { outcome := .ok (f earlier text) }

/-! ## Calls that end at once -/

def Session.asking (s : Session) (text : String) : Session :=
  { s with log := s.log ++ [⟨.one text, s.now, s.cache.textsInProgress⟩] }

theorem Source.Prompt.start {src : Source} {f : Nat → String → Embedding} (h : src.Prompt f)
    (text : String) (s : Session) :
    src.start text s = (s.asking text, .done (.ok (f s.log.length text))) := by
  rw [src.start_eq, Source.asked, h.reply]
  rfl

/-- A vector that comes at once is the answer of the first attempt, whatever the time limit. -/
theorem RetryPlan.attempts_of_ok (plan : RetryPlan) {begin : Session → Session × Progress}
    {s s' : Session} {v : Embedding} (h : begin s = (s', .done (.ok v))) (left retry : Nat) :
    plan.attempts begin left retry s = (s', .done (.ok v)) := by
  unfold attempts
  simp only [h, judge]

namespace Provider

variable {p : Provider} {f : Nat → String → Embedding} {text : String} {s : Session}

theorem start_of_uncached (hprompt : p.base.Prompt f) (hlayers : p.cachedLayers = 0)
    (text : String) (s : Session) :
    p.start text s = (s.asking text, .done (.ok (f s.log.length text))) := by
  induction p with
  | source src => exact hprompt.start text s
  | resilient inner plan ih => exact plan.attempts_of_ok (ih hprompt hlayers) _ _
  | cached inner => cases hlayers

theorem start_of_present (hlayers : 0 < p.cachedLayers) {v : Embedding}
    (hread : s.cache.read text = .ok (some v)) :
    p.start text s =
      ({ s with cache := { s.cache with hits := s.cache.hits + 1 } }, .done (.ok v)) := by
  induction p with
  | source src => exact absurd hlayers (Nat.lt_irrefl 0)
  | resilient inner plan ih => exact plan.attempts_of_ok (ih hlayers) _ _
  | cached inner => simp only [start, FlightPoll.start_of_hit _ hread]

/-- The only layer of the cache has the source called and stores what it gives. -/
theorem start_of_absent (hprompt : p.base.Prompt f) (hlayers : p.cachedLayers = 1)
    (hidle : Idle s.cache) (hread : s.cache.read text = .ok none)
    (hstored : (s.cache.missed.conclude text (.ok (f s.log.length text))).2 =
      .ok (f s.log.length text)) :
    p.start text s =
      ({ s with
          cache := (s.cache.missed.conclude text (.ok (f s.log.length text))).1.vacated
          log := s.log ++ [⟨.one text, s.now, 1⟩] }, .done (.ok (f s.log.length text))) := by
  induction p with
  | source src => cases hlayers
  | resilient inner plan ih => exact plan.attempts_of_ok (ih hprompt hlayers) _ _
  | cached inner =>
      have hinner := start_of_uncached (p := inner) hprompt (Nat.succ.inj hlayers) text
        { s with cache := s.cache.missed.alone text .computing }
      have hdone := FlightPoll.onProgress_done s.cache.missed text
        { s with log := s.log ++ [⟨.one text, s.now, 1⟩] } true (.ok (f s.log.length text))
      have hnext : s.cache.nextCall = s.cache.missed.nextCall := rfl
      have hbusy : (s.cache.missed.alone text .computing).textsInProgress = 1 := rfl
      simp only [start, FlightPoll.start_of_miss _ hidle hread, hinner, Session.asking, hbusy]
      rw [hnext, hdone, hstored]

theorem embed_of_start {s' : Session} {a : Answer} (h : p.start text s = (s', .done a)) :
    p.embed text s = (s', some a) := by
  unfold embed
  rw [h]
  unfold await
  rfl

/-- Retries around a source that answers at once with a function's vector compute this function. -/
theorem computes_of_prompt {p : Provider} {f : String → Embedding}
    (hprompt : p.base.Prompt fun _ => f) (hlayers : p.cachedLayers = 0) :
    p.Computes fun text => .ok (f text) where
  quiet := by
    induction p with
    | source src => exact fun earlier text => congrArg Reply.rival (hprompt.reply earlier text)
    | resilient inner plan ih => exact ih hprompt hlayers
    | cached inner => cases hlayers
  answers {text a} h := by
    have hpolled : ∀ progress, p.Polled text progress → progress = .done (.ok (f text)) := by
      intro progress h
      induction h with
      | start s => rw [start_of_uncached hprompt hlayers]
      | resume _ _ ih => cases ih
    exact Progress.done.inj (hpolled _ h)

end Provider

/-! ## Calls that time out or do not end -/

/-- Sessions in which a call may begin, and work that times out or does not end, with such a session
once it is dropped. Time does not matter. -/
structure Guards (Free : Session → Prop) (Held : Session → Work → Prop) : Prop where
  wait : ∀ {s work}, Held s work → ∀ moment, Held { s with now := moment } work
  attempt : ∀ {s limit retry work}, Held s (.attempt limit retry work) ↔ Held s work
  pause : ∀ {s due retry}, Held s (.pause due retry) ↔ Free s
  cancel : ∀ {s work}, Held s work → Free (work.cancel s)

def Answer.TimedOut (a : Answer) : Prop :=
  ∃ millis, a = .error (.timeout millis)

def Blocked (Free : Session → Prop) (Held : Session → Work → Prop) (after : Session × Progress) :
    Prop :=
  match after.2 with
  | .done a => a.TimedOut ∧ Free after.1
  | .pending work => Held after.1 work

section Guards

variable {Free : Session → Prop} {Held : Session → Work → Prop} {s : Session}

theorem RetryPlan.round_guards (hguards : Guards Free Held) (plan : RetryPlan) (retry : Nat)
    (limit : Moment) {after : Session × Progress} (h : Blocked Free Held after)
    {again : Moment → Session → Session × Progress}
    (hagain : ∀ due s, Free s → Blocked Free Held (again due s)) :
    Blocked Free Held
      (Verdict.follow limit retry again (plan.judge retry limit after.1 after.2)) := by
  have hafter : ∀ {s} millis, Free s → Blocked Free Held
      (Verdict.follow limit retry again (s, judge.afterFailure plan retry (.timeout millis) s)) := by
    intro s millis hfree
    unfold judge.afterFailure
    by_cases hmore : ((EmbedError.timeout millis).isTransient && retry < plan.maxRetries) = true
    · rw [if_pos hmore]
      exact hagain _ s hfree
    · rw [if_neg hmore]
      exact ⟨⟨millis, rfl⟩, hfree⟩
  obtain ⟨s, progress⟩ := after
  cases progress with
  | done a =>
      obtain ⟨⟨millis, rfl⟩, hfree⟩ := h
      exact hafter millis hfree
  | pending work =>
      simp only [judge]
      by_cases hlate : limit ≤ s.now
      · rw [if_pos hlate]
        exact hafter _ (hguards.cancel h)
      · rw [if_neg hlate]
        exact hguards.attempt.mpr h

theorem RetryPlan.attempts_guards (hguards : Guards Free Held) (plan : RetryPlan)
    {begin : Session → Session × Progress} (hbegin : ∀ s, Free s → Blocked Free Held (begin s))
    (left retry : Nat) (h : Free s) : Blocked Free Held (plan.attempts begin left retry s) := by
  induction left generalizing retry s with
  | zero =>
      rw [attempts_zero]
      exact plan.round_guards hguards retry _ (hbegin s h) fun due s h => hguards.pause.mpr h
  | succ left ih =>
      rw [attempts_succ]
      refine plan.round_guards hguards retry _ (hbegin s h) fun due s h => ?_
      split
      · exact ih (retry + 1) h
      · exact hguards.pause.mpr h

theorem Provider.resume_guards (hguards : Guards Free Held) {inner : Provider} {text : String}
    (hstart : ∀ s, Free s → Blocked Free Held (inner.start text s))
    (hresume : ∀ s work, Held s work → Blocked Free Held (inner.resume text work s))
    (plan : RetryPlan) {work : Work} (h : Held s work) :
    Blocked Free Held ((resilient inner plan).resume text work s) := by
  cases work with
  | attempt limit retry work =>
      rw [resume_attempt]
      refine plan.round_guards hguards retry limit (hresume s work (hguards.attempt.mp h))
        fun due s h => ?_
      split
      · exact plan.attempts_guards hguards hstart _ _ h
      · exact hguards.pause.mpr h
  | pause due retry =>
      simp only [resume]
      split
      · exact plan.attempts_guards hguards hstart _ _ (hguards.pause.mp h)
      · exact h
  | answer => exact h
  | line => exact h
  | compute => exact h

/-- A whole call times out or does not end, however often it is polled. -/
theorem Provider.await_guards (hguards : Guards Free Held) {p : Provider} {text : String}
    (hresume : ∀ s work, Held s work → Blocked Free Held (p.resume text work s)) (polls : Nat)
    {progress : Progress} (h : Blocked Free Held (s, progress)) :
    (Free (p.await text polls progress s).1 ∨ ∃ work, Held (p.await text polls progress s).1 work) ∧
      ∀ a, (p.await text polls progress s).2 = some a → a.TimedOut := by
  induction polls generalizing progress s with
  | zero =>
      cases progress with
      | done a =>
          obtain ⟨hanswer, hfree⟩ := h
          exact ⟨Or.inl hfree, fun a ha => Option.some.inj ha ▸ hanswer⟩
      | pending work =>
          refine ⟨Or.inr ⟨work, h⟩, fun a ha => ?_⟩
          cases ha
  | succ polls ih =>
      cases progress with
      | done a =>
          obtain ⟨hanswer, hfree⟩ := h
          exact ⟨Or.inl hfree, fun a ha => Option.some.inj ha ▸ hanswer⟩
      | pending work =>
          simp only [await]
          split
          · refine ⟨Or.inr ⟨work, h⟩, fun a ha => ?_⟩
            cases ha
          · exact ih (hresume _ work (hguards.wait h _))

end Guards

/-! ## A lock that is held -/

/-- One call for a text holds the lock and computes, and at most one other waits for it. -/
structure Cache.Occupied (c : Cache) (text : String) (owner : CallId) (waiting : Option CallId) :
    Prop where
  older : owner < c.nextCall
  other : waiting ≠ some owner
  flight : ∃ lock, c.keys = [(text, lock)] ∧ c.locks = [⟨lock, some owner, waiting.toList⟩] ∧
    c.calls = ⟨owner, text, lock, .computing⟩ :: waiting.toList.map (⟨·, text, lock, .queued⟩)
  granted : c.granted = []

namespace Cache

variable {c : Cache} {text : String} {owner : CallId}

theorem occupied_alone (c : Cache) (text : String) :
    Occupied (c.alone text .computing) text c.nextCall none :=
  ⟨Nat.lt_succ_self _, nofun, ⟨c.nextLock, rfl, rfl, rfl⟩, rfl⟩

theorem Occupied.enqueue (h : Occupied c text owner none) :
    Occupied (c.enqueue text).1 text owner (some (c.enqueue text).2) := by
  obtain ⟨lock, hkeys, hlocks, hcalls⟩ := h.flight
  have hlock : c.lockFor text = (c, lock) := by
    simp [lockFor, key?, hkeys]
  have hid : (c.enqueue text).2 = c.nextCall := by
    simp [Cache.enqueue, hlock]
  rw [hid]
  refine ⟨?_, ?_, ⟨lock, ?_, ?_, ?_⟩, ?_⟩
  · simp only [Cache.enqueue, hlock]
    exact Nat.lt_succ_of_lt h.older
  · exact fun heq => absurd (Option.some.inj heq) h.older.ne'
  · simp [Cache.enqueue, hlock, hkeys]
  · simp [Cache.enqueue, hlock, hlocks, Lock.join]
  · simp [Cache.enqueue, hlock, hcalls]
  · simp [Cache.enqueue, hlock, lock?, hlocks, h.granted]

theorem Occupied.abandon {id : CallId} (h : Occupied c text owner (some id)) :
    Occupied (c.abandon id) text owner none := by
  obtain ⟨lock, hkeys, hlocks, hcalls⟩ := h.flight
  have hne : owner ≠ id := fun heq => h.other (congrArg some heq.symm)
  have hcall : c.call? id = some ⟨id, text, lock, .queued⟩ := by
    simp [call?, hcalls, hne]
  have hnext : (c.abandon id).nextCall = c.nextCall := by
    simp [Cache.abandon, finish, hcall]
  refine ⟨hnext ▸ h.older, (Option.some_ne_none owner).symm, ⟨lock, ?_, ?_, ?_⟩, ?_⟩
  · simp [Cache.abandon, finish, hcall, hkeys, hcalls, hne]
  · simp [Cache.abandon, finish, hcall, hlocks, hcalls, hne, Lock.leave]
  · simp [Cache.abandon, finish, hcall, hcalls, hne]
  · simp [Cache.abandon, finish, hcall, hlocks, lock?, hne, h.granted]

theorem Occupied.finish (h : Occupied c text owner none) : Idle (c.finish owner) := by
  obtain ⟨lock, hkeys, hlocks, hcalls⟩ := h.flight
  have hcall : c.call? owner = some ⟨owner, text, lock, .computing⟩ := by
    simp [call?, hcalls]
  refine ⟨?_, ?_, ?_, ?_⟩
  · simp [Cache.finish, hcall, hcalls]
  · simp [Cache.finish, hcall, hkeys, hcalls]
  · simp [Cache.finish, hcall, hlocks, hcalls]
  · simp [Cache.finish, hcall, hlocks, lock?, h.granted]

end Cache

/-- The source was not called and no row has come. -/
structure Session.Keeps (s s' : Session) : Prop where
  log : s'.log = s.log
  database : s'.cache.database = s.cache.database

/-- Work in line for a lock, or between two attempts to get in line. -/
def Work.InLine : Work → Prop
  | attempt _ _ work => work.InLine
  | pause .. | line _ => True
  | answer .. | compute .. => False

section Behind

variable (start : Session) (text : String) (owner : CallId)

/-- A call for the text computes, and nothing has changed since. -/
def LockHeld (s : Session) : Prop := start.Keeps s ∧ Occupied s.cache text owner none

/-- The work waits for the lock of that call, in vain. -/
def WaitsInVain (s : Session) (work : Work) : Prop :=
  start.Keeps s ∧ work.InLine ∧ Occupied s.cache text owner work.line?

variable {start text owner}

theorem guards_lockHeld : Guards (LockHeld start text owner) (WaitsInVain start text owner) where
  wait h moment := ⟨⟨h.1.log, h.1.database⟩, h.2⟩
  attempt := Iff.rfl
  pause := ⟨fun h => ⟨h.1, h.2.2⟩, fun h => ⟨h.1, trivial, h.2⟩⟩
  cancel {s work} h := by
    induction work with
    | attempt limit retry work ih => exact ih h
    | pause due retry => exact ⟨h.1, h.2.2⟩
    | line id => exact ⟨⟨h.1.log, (database_finish ..).trans h.1.database⟩, h.2.2.abandon⟩
    | answer => exact h.2.1.elim
    | compute => exact h.2.1.elim

namespace Provider

variable {p : Provider} {s : Session} {work : Work}

theorem start_behind (hread : start.cache.read text = .ok none) (hlayers : 0 < p.cachedLayers)
    (h : LockHeld start text owner s) :
    Blocked (LockHeld start text owner) (WaitsInVain start text owner) (p.start text s) := by
  induction p generalizing s with
  | source src => exact absurd hlayers (Nat.lt_irrefl 0)
  | resilient inner plan ih =>
      exact plan.attempts_guards guards_lockHeld (fun s h => ih hlayers h) _ _ h
  | cached inner =>
      have hmiss : s.cache.read text = .ok none := (read_congr h.1.database text).trans hread
      have henqueue := h.2.enqueue
      have hgranted : (s.cache.enqueue text).1.isGranted (s.cache.enqueue text).2 = false := by
        simp [isGranted, henqueue.granted]
      simp only [Provider.start, FlightPoll.start, Cache.begin, hmiss, FlightPoll.onTurn, hgranted,
        Bool.false_eq_true, if_false]
      exact ⟨⟨h.1.log, (database_enqueue ..).trans h.1.database⟩, trivial, henqueue⟩

theorem resume_behind (hread : start.cache.read text = .ok none) (hlayers : 0 < p.cachedLayers)
    (h : WaitsInVain start text owner s work) :
    Blocked (LockHeld start text owner) (WaitsInVain start text owner) (p.resume text work s) := by
  induction p generalizing s work with
  | source src => exact absurd hlayers (Nat.lt_irrefl 0)
  | resilient inner plan ih =>
      have hinner : 0 < inner.cachedLayers := hlayers
      exact resume_guards guards_lockHeld (fun s h => start_behind hread hinner h)
        (fun s work h => ih hinner h) plan h
  | cached inner =>
      cases work with
      | line id =>
          have hgranted : s.cache.isGranted id = false := by
            simp [isGranted, h.2.2.granted]
          simp only [resume, FlightPoll.resume, FlightPoll.onTurn, hgranted, Bool.false_eq_true,
            if_false]
          exact h
      | answer => exact h
      | attempt => exact h
      | pause => exact h
      | compute => exact h.2.1.elim

end Provider

end Behind

/-- Work that computes by way of work in line for its own lock, or is between two attempts to do so. -/
def Work.Entangled (c : Cache) (text : String) : Work → Prop
  | attempt _ _ work => work.Entangled c text
  | pause .. => Idle c
  | compute owner work => work.InLine ∧ Occupied c text owner work.line?
  | answer .. | line _ => False

section Above

variable (start : Session) (text : String)

/-- No call is in progress, and nothing has changed since. -/
def LockFree (s : Session) : Prop := start.Keeps s ∧ Idle s.cache

/-- The work waits for itself. -/
def WaitsForItself (s : Session) (work : Work) : Prop :=
  start.Keeps s ∧ work.Entangled s.cache text

variable {start text}

theorem guards_lockFree : Guards (LockFree start) (WaitsForItself start text) where
  wait h moment := ⟨⟨h.1.log, h.1.database⟩, h.2⟩
  attempt := Iff.rfl
  pause := Iff.rfl
  cancel {s work} h := by
    induction work with
    | attempt limit retry work ih => exact ih h
    | pause due retry => exact h
    | compute owner work =>
        have hheld := guards_lockHeld.cancel (⟨h.1, h.2⟩ : WaitsInVain start text owner s work)
        exact ⟨⟨hheld.1.log, (database_finish ..).trans hheld.1.database⟩, hheld.2.finish⟩
    | answer => exact h.2.elim
    | line => exact h.2.elim

/-- The layer that holds the lock goes on waiting, or fails with what is below it. -/
theorem FlightPoll.onProgress_blocked {owner : CallId} {after : Session × Progress}
    (h : Blocked (LockHeld start text owner) (WaitsInVain start text owner) after) (started : Bool) :
    Blocked (LockFree start) (WaitsForItself start text)
      (onProgress owner after.1 started after.2).after := by
  obtain ⟨s, progress⟩ := after
  cases progress with
  | pending work => exact ⟨h.1, h.2⟩
  | done a =>
      obtain ⟨⟨millis, rfl⟩, hheld⟩ := h
      exact ⟨⟨millis, rfl⟩, ⟨hheld.1.log, (database_finish ..).trans hheld.1.database⟩, hheld.2.finish⟩

namespace Provider

variable {p : Provider} {s : Session} {work : Work}

/-- The outer layer of the cache takes the lock, and the inner one comes to it. -/
theorem start_above (hread : start.cache.read text = .ok none) (hlayers : 1 < p.cachedLayers)
    (h : LockFree start s) :
    Blocked (LockFree start) (WaitsForItself start text) (p.start text s) := by
  induction p generalizing s with
  | source src => exact absurd hlayers (Nat.not_lt_zero 1)
  | resilient inner plan ih =>
      exact plan.attempts_guards guards_lockFree (fun s h => ih hlayers h) _ _ h
  | cached inner =>
      have hmiss : s.cache.read text = .ok none := (read_congr h.1.database text).trans hread
      have hheld : LockHeld start text s.cache.nextCall
          { s with cache := s.cache.missed.alone text .computing } :=
        ⟨⟨h.1.log, h.1.database⟩, occupied_alone s.cache.missed text⟩
      simp only [Provider.start, FlightPoll.start_of_miss _ h.2 hmiss]
      exact FlightPoll.onProgress_blocked
        (start_behind hread (Nat.lt_of_succ_lt_succ hlayers) hheld) true

theorem resume_above (hread : start.cache.read text = .ok none) (hlayers : 1 < p.cachedLayers)
    (h : WaitsForItself start text s work) :
    Blocked (LockFree start) (WaitsForItself start text) (p.resume text work s) := by
  induction p generalizing s work with
  | source src => exact absurd hlayers (Nat.not_lt_zero 1)
  | resilient inner plan ih =>
      have hinner : 1 < inner.cachedLayers := hlayers
      exact resume_guards guards_lockFree (fun s h => start_above hread hinner h)
        (fun s work h => ih hinner h) plan h
  | cached inner =>
      cases work with
      | compute owner work =>
          exact FlightPoll.onProgress_blocked
            (resume_behind hread (Nat.lt_of_succ_lt_succ hlayers) ⟨h.1, h.2⟩) false
      | answer => exact h
      | attempt => exact h
      | pause => exact h
      | line => exact h.2.elim

theorem embed_of_entangled (hlayers : 1 < p.cachedLayers) (hidle : Idle s.cache)
    (hread : s.cache.read text = .ok none) :
    s.Keeps (p.embed text s).1 ∧ ∀ a, (p.embed text s).2 = some a → a.TimedOut := by
  have hstart := start_above hread hlayers (⟨⟨rfl, rfl⟩, hidle⟩ : LockFree s s)
  obtain ⟨hend, hanswer⟩ := await_guards guards_lockFree
    (fun s work h => resume_above hread hlayers h) p.waits hstart
  exact ⟨hend.elim (fun h => h.1) fun ⟨_, h⟩ => h.1, hanswer⟩

end Provider

end Above

/-! ## Whole calls -/

theorem Ledger.find?_of_mem {l : Ledger} (hdistinct : (l.entries.map Entry.text).Nodup)
    {text : String} {v : Embedding} (h : ⟨text, v⟩ ∈ l.entries) : l.find? text = some v := by
  rw [find?, find?_eq_some_of_nodup Entry.text hdistinct h]
  rfl

namespace Provider

/-- A call ends with a vector. The source was asked for some inputs meanwhile, and the cache is at
rest again with some entries. -/
structure Returns (p : Provider) (text : String) (s : Session) (v : Embedding) (asked : List Input)
    (entries : List Entry) : Prop where
  answer : (p.embed text s).2 = some (.ok v)
  asked : (p.embed text s).1.log.map CallRecord.input = s.log.map CallRecord.input ++ asked
  rest : (p.embed text s).1.cache.AtRest
  contents : (p.embed text s).1.cache.contents = .ok entries

variable {p : Provider} {f : Nat → String → Embedding} {text : String} {s s' : Session}

theorem Returns.of_start {v : Embedding} {asked : List Input} {l : Ledger}
    (hstart : p.start text s = (s', .done (.ok v)))
    (hasked : s'.log.map CallRecord.input = s.log.map CallRecord.input ++ asked)
    (hrep : Represents s'.cache l) : p.Returns text s v asked l.entries := by
  have hembed := embed_of_start hstart
  exact ⟨by rw [hembed], by rw [hembed]; exact hasked, by rw [hembed]; exact hrep.atRest,
    by rw [hembed]; exact hrep.stores.contents⟩

/-- **Layers are transparent, but for a second one of the cache.** Around a source that answers at
once there are layers of retries and of the cache, in any order. A layer of the cache returns the
vector of a row without calling the source. Otherwise the source is called once and its vector is
returned, and if a layer is one of the cache it is stored, where the row is short enough and has a
number left. Where two or more are and there is no row, the call times out or does not end: it does
not come to the source, and nothing is stored. -/
theorem embed_through_layers (hprompt : p.base.Prompt f) (hrest : s.cache.AtRest)
    {entries : List Entry} (hentries : s.cache.contents = .ok entries)
    (hdimension : s.cache.dimension = none) (text : String) :
    (p.cachedLayers = 0 → p.Returns text s (f s.log.length text) [.one text] entries) ∧
    (text.utf8ByteSize ≤ Table.mostBytes → 0 < p.cachedLayers →
      ∀ v, ⟨text, v⟩ ∈ entries → p.Returns text s v [] entries) ∧
    (text.utf8ByteSize ≤ Table.mostBytes → text ∉ entries.map Entry.text →
      (p.cachedLayers = 1 → FitsRow text (f s.log.length text) → 0 < s.cache.database.idsLeft →
        p.Returns text s (f s.log.length text) [.one text]
          (entries ++ [⟨text, f s.log.length text⟩])) ∧
      (1 < p.cachedLayers → (∀ a, (p.embed text s).2 = some a → a.TimedOut) ∧
        (p.embed text s).1.log = s.log ∧ (p.embed text s).1.cache.contents = .ok entries)) := by
  have hrep := hrest.represents hentries
  rw [hdimension] at hrep
  refine ⟨fun hlayers => ?_, fun hsize hlayers v hv => ?_, fun hsize habsent => ?_⟩
  · refine .of_start (l := ⟨entries, none⟩) (start_of_uncached hprompt hlayers text s) ?_ hrep
    simp [Session.asking]
  · have hread : s.cache.read text = .ok (some v) := by
      rw [hrep.stores.read hsize, Ledger.find?_of_mem hrep.stores.distinct hv]
    exact .of_start (start_of_present hlayers hread) (List.append_nil _).symm (l := ⟨entries, none⟩)
      ⟨⟨hrep.idle.calls, hrep.idle.keys, hrep.idle.locks, hrep.idle.granted⟩, hrep.dimension,
        hrep.stores⟩
  · have hnone : Ledger.find? ⟨entries, none⟩ text = none := Ledger.find?_eq_none_iff.mpr habsent
    have hread : s.cache.read text = .ok none := by
      rw [hrep.stores.read hsize, hnone]
    refine ⟨fun hlayers hfits hids => ?_, fun hlayers => ?_⟩
    · have htakes : ∀ v, (.ok (f s.log.length text) : Answer) = .ok v →
          FitsRow text v ∧ 0 < s.cache.missed.database.idsLeft :=
        fun v hv => Except.ok.inj hv ▸ ⟨hfits, hids⟩
      obtain ⟨hstored, hanswer, -⟩ := hrep.missed.conclude hnone htakes
      refine .of_start (start_of_absent hprompt hlayers hrest.idle hread hanswer) ?_ hstored.vacated
      simp
    · obtain ⟨hkeeps, hanswer⟩ := embed_of_entangled hlayers hrest.idle hread
      refine ⟨hanswer, hkeeps.log, ?_⟩
      rw [← hentries, Cache.contents, Cache.contents, hkeeps.database]

/-- No attempt has any time, and none has another after it. -/
def instant : RetryPlan := { timeout := .zero, maxRetries := 0, firstPause := .zero }

def oneRow : Session where
  cache := {
    database := { table := some { rows := [⟨1, .text "x", .blob (Blob.encode [⟨2⟩])⟩], lastId := 1 } } }

def lastRow : Session where
  cache := {
    database := { table := some {
      rows := [⟨Int64.maxValue, .text "x", .blob (Blob.encode [⟨2⟩])⟩]
      lastId := Int64.maxValue } } }

theorem prompt_always (v : Embedding) : (Source.always { outcome := .ok v }).Prompt fun _ _ => v :=
  ⟨fun _ _ => rfl⟩

/-- Retries around the cache around retries, and no time at all: a row is returned, and for another
text the source is called. -/
theorem embed_through_layers_at_once :
    (resilient (cached (resilient (source (.always { outcome := .ok [⟨1⟩] })) instant))
      instant).Returns "x" oneRow [⟨2⟩] [] [⟨"x", [⟨2⟩]⟩] ∧
    (resilient (cached (resilient (source (.always { outcome := .ok [⟨1⟩] })) instant))
      instant).Returns "y" oneRow [⟨1⟩] [.one "y"] [⟨"x", [⟨2⟩]⟩, ⟨"y", [⟨1⟩]⟩] := by
  have hprompt := prompt_always [⟨1⟩]
  have hrest : oneRow.cache.AtRest := ⟨⟨rfl, rfl, rfl, rfl⟩, List.nodup_singleton _, rfl⟩
  have hentries : oneRow.cache.contents = .ok [⟨"x", [⟨2⟩]⟩] := rfl
  have hlayers := fun text => embed_through_layers (s := oneRow)
    (p := resilient (cached (resilient (source (.always { outcome := .ok [⟨1⟩] })) instant)) instant)
    hprompt hrest hentries rfl text
  exact ⟨(hlayers "x").2.1 (by decide) Nat.one_pos _ List.mem_cons_self,
    ((hlayers "y").2.2 (by decide) (by decide)).1 rfl (by decide) (by decide)⟩

/-- Two layers of the cache, and a text without a row: the call does not end. With retries around them
it fails when the last attempt has taken all of its time. With one layer it fails where there is no
number for the row, or where the row is too big. -/
theorem embed_through_two_cached_layers :
    (source (.always { outcome := .ok [⟨1⟩] })).base.Prompt (fun _ _ => [⟨1⟩]) ∧
    oneRow.cache.AtRest ∧ oneRow.cache.contents = .ok [⟨"x", [⟨2⟩]⟩] ∧
    oneRow.cache.dimension = none ∧
    ((cached (cached (source (.always { outcome := .ok [⟨1⟩] })))).embed "y" oneRow).2 = none ∧
    ((resilient (cached (cached (source (.always { outcome := .ok [⟨1⟩] }))))
      { timeout := .ofMillis 10, maxRetries := 1, firstPause := .ofMillis 5 }).embed "y" oneRow).2 =
        some (.error (.timeout 10)) ∧
    lastRow.cache.AtRest ∧ lastRow.cache.contents = .ok [⟨"x", [⟨2⟩]⟩] ∧
    lastRow.cache.dimension = none ∧
    ((cached (source (.always { outcome := .ok [⟨1⟩] }))).embed "y" lastRow).2 =
      some (.error Database.full) ∧
    (source (.always { outcome := .ok longVector })).base.Prompt (fun _ _ => longVector) ∧
    longVector.length < 2 ^ 32 ∧
    ((cached (source (.always { outcome := .ok longVector }))).embed "y" oneRow).2 =
      some (.error Database.tooBig) := by
  refine ⟨prompt_always [⟨1⟩], ⟨⟨rfl, rfl, rfl, rfl⟩, List.nodup_singleton _, rfl⟩, rfl, rfl, ?_, ?_,
    ⟨⟨rfl, rfl, rfl, rfl⟩, List.nodup_singleton _, rfl⟩, rfl, rfl, ?_, prompt_always longVector, ?_, ?_⟩
  · cbv
  · cbv
  · cbv
  · rw [length_longVector]
    decide
  · have hread : oneRow.cache.missed.read "y" = .ok none := rfl
    have hrefused := (Cache.offer_of_none hread longVector).trans (if_pos mostBytes_lt_longVector)
    have hreply : (Source.always { outcome := .ok longVector }).reply oneRow.log.length "y" =
        { outcome := .ok longVector } := rfl
    have hembed := embed_of_miss (.always { outcome := .ok longVector }) ⟨rfl, rfl, rfl, rfl⟩
      (show oneRow.cache.read "y" = .ok none from rfl) hreply
    exact (congrArg Prod.snd hembed).trans (congrArg (fun r => some r.2) hrefused)

end Provider

end NearNotes
