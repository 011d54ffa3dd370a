import Mathlib
import NearNotes.Proofs.Ledger
import NearNotes.Proofs.Population.Stored
import NearNotes.Proofs.Provider.Quiet
import NearNotes.Proofs.Report

/-!
# One section after the other

A window of width one, over a cache that represents a ledger, in closed form.

* `missingTexts` : the texts without an entry, each once; `called`, `failure?`, `added` : those that
  are computed, the error that ends it, and the entries that come of it;
* `Window.between`, `busy`, `ripe` : the states of such a window, with a lemma for each step;
* `Sequel` : what is left of a session after texts were computed in order;
* `path_of_hit`, `path_of_miss` : one section; `path_in_order` : all of them;
* `Pipeline.run_in_order` : a run, and every later run of the same note; `run_of_refused`,
  `run_beyond_limits` : a run whose row is not taken.
-/

namespace NearNotes

/-! ## In closed form -/

/-- The texts that no entry has, each once, in the order in which they first occur. -/
def missingTexts (entries : List Entry) (texts : List String) : List String :=
  (texts.filter fun text => text ∉ entries.map Entry.text).eraseDups

/-- The texts up to the first one on which the function fails, with that one. -/
def called (f : String → Answer) : List String → List String
  | [] => []
  | text :: rest => text :: if (f text).isOk then called f rest else []

def failure? (f : String → Answer) (texts : List String) : Option EmbedError :=
  texts.findSome? fun text => match f text with
    | .error e => some e
    | .ok _ => none

def added (f : String → Answer) (texts : List String) : List Entry :=
  (called f texts).filterMap fun text => (f text).toOption.map fun v => ⟨text, v⟩

section Closed

variable {f : String → Answer} {text : String} {rest : List String} {entries : List Entry}

theorem mem_missingTexts {texts : List String} :
    text ∈ missingTexts entries texts ↔ text ∈ texts ∧ text ∉ entries.map Entry.text := by
  simp [missingTexts]

theorem missingTexts_of_mem (h : text ∈ entries.map Entry.text) :
    missingTexts entries (text :: rest) = missingTexts entries rest := by
  simp only [missingTexts, List.filter_cons, h, not_true_eq_false, decide_false, if_false,
    Bool.false_eq_true]

theorem missingTexts_of_not_mem (h : text ∉ entries.map Entry.text) (v : Embedding) :
    missingTexts entries (text :: rest) =
      text :: missingTexts (entries ++ [⟨text, v⟩]) rest := by
  have hfilter : ((rest.filter fun t => t ∉ entries.map Entry.text).filter fun t => !t == text) =
      rest.filter fun t => t ∉ (entries ++ [(⟨text, v⟩ : Entry)]).map Entry.text := by
    rw [List.filter_filter]
    refine List.filter_congr fun t _ => ?_
    by_cases ht : t = text
    · simp [ht]
    · simp [ht]
  rw [missingTexts, List.filter_cons, if_pos (by simpa using h), List.eraseDups_cons, hfilter,
    missingTexts]

theorem called_of_ok {v : Embedding} (h : f text = .ok v) :
    called f (text :: rest) = text :: called f rest := by
  simp [called, h, Except.isOk, Except.toBool]

theorem called_of_error {e : EmbedError} (h : f text = .error e) :
    called f (text :: rest) = [text] := by
  simp [called, h, Except.isOk, Except.toBool]

theorem failure?_of_ok {v : Embedding} (h : f text = .ok v) :
    failure? f (text :: rest) = failure? f rest := by
  simp only [failure?, List.findSome?_cons, h]

theorem failure?_of_error {e : EmbedError} (h : f text = .error e) :
    failure? f (text :: rest) = some e := by
  simp only [failure?, List.findSome?_cons, h]

theorem added_of_ok {v : Embedding} (h : f text = .ok v) :
    added f (text :: rest) = ⟨text, v⟩ :: added f rest := by
  rw [added, called_of_ok h, List.filterMap_cons_some (b := ⟨text, v⟩)]
  · rfl
  · rw [h]
    rfl

theorem added_of_error {e : EmbedError} (h : f text = .error e) :
    added f (text :: rest) = [] := by
  rw [added, called_of_error h, List.filterMap_cons_none]
  · rfl
  · rw [h]
    rfl

end Closed

/-- The records that one call on a provider leaves. -/
structure Provider.Recorded (p : Provider) (text : String) (records : List CallRecord) : Prop where
  some : records ≠ []
  bounded : records.length ≤ p.tries
  inputs : ∀ record ∈ records, record.input = .one text

/-! ## Steps -/

namespace Window

/-- A window of width one between two positions. -/
def between (p : Provider) (texts : List String) (vectors : List Embedding) (computed : Nat) :
    Window where
  provider := p
  width := 1
  texts := texts
  joined := vectors.length
  handedOver := vectors
  computed := computed

def busy (p : Provider) (texts : List String) (vectors : List Embedding) (computed : Nat)
    (work : Work) : Window :=
  { between p texts vectors computed with
    joined := vectors.length + 1
    active := [⟨vectors.length, some work⟩] }

def ripe (p : Provider) (texts : List String) (vectors : List Embedding) (computed : Nat)
    (answer : Answer) : Window :=
  { between p texts vectors computed with
    joined := vectors.length + 1
    finished := [(vectors.length, answer)] }

/-- The window and the session after a poll of the only position. -/
def afterPoll (p : Provider) (texts : List String) (vectors : List Embedding) (computed : Nat)
    (poll : FlightPoll) : Window × Session :=
  match poll.progress with
  | .pending work => (busy p texts vectors (computed + poll.started.toNat) work, poll.session)
  | .done answer => (ripe p texts vectors (computed + poll.started.toNat) answer, poll.session)

variable {p : Provider} {texts : List String} {vectors : List Embedding} {computed : Nat}
  {s : Session} {text : String} {work : Work}

theorem isOver_of_next {w : Window} (hfailure : w.failure = none)
    (hnext : w.handedOver.length < w.texts.length) : w.isOver = false := by
  simp only [isOver, hfailure, next, Option.isSome_none, Bool.false_or, beq_eq_false_iff_ne]
  omega

theorem filterMap_waiting? {w : Window} (h : ∀ a ∈ w.active, a.work.bind Work.line? = none)
    (ids : List CallId) : ids.filterMap w.waiting? = [] := by
  rw [List.filterMap_eq_nil_iff]
  intro id _
  rw [waiting?, Option.map_eq_none_iff, List.find?_eq_none]
  intro a ha
  simp [h a ha]

theorem poll_only (p : Provider) (texts : List String) (vectors : List Embedding) (computed : Nat)
    (work : Option Work) (s : Session) :
    ({ between p texts vectors computed with
        joined := vectors.length + 1
        active := [⟨vectors.length, work⟩] } : Window).poll ⟨vectors.length, work⟩ s =
      afterPoll p texts vectors computed (p.fetch (texts.getD vectors.length "") work s) := by
  simp only [poll, afterPoll, between]
  generalize p.fetch (texts.getD vectors.length "") work s = poll
  obtain ⟨s₁, progress, started⟩ := poll
  cases progress with
  | pending work' => simp [busy, between]
  | done answer => simp [ripe, between]

theorem step_between (htext : texts[vectors.length]? = some text) :
    (between p texts vectors computed).step? s =
      some (afterPoll p texts vectors computed (p.fetch text none s)) := by
  have hnext : vectors.length < texts.length := (List.getElem?_eq_some_iff.mp htext).1
  have hover : (between p texts vectors computed).isOver = false := isOver_of_next rfl hnext
  have hwake : (between p texts vectors computed).wake s = between p texts vectors computed := by
    have hgranted := @filterMap_waiting? (between p texts vectors computed)
      (by simp [between]) s.cache.granted
    simp only [wake, hgranted]
    rfl
  have hfill : (between p texts vectors computed).fill =
      { between p texts vectors computed with
        joined := vectors.length + 1
        active := [⟨vectors.length, none⟩]
        ready := [vectors.length] } := by
    have hroom : min (1 - 0) (texts.length - vectors.length) = 1 := by omega
    simp only [fill, between, occupied, List.length_nil, hroom, List.range'_one,
      List.nil_append, List.map_cons, List.map_nil]
  have hfind : List.find? (fun a : Active => a.position == vectors.length)
      [⟨vectors.length, none⟩] = some ⟨vectors.length, none⟩ := by simp
  have hpoll := poll_only p texts vectors computed none s
  rw [List.getD_eq_getElem?_getD, htext] at hpoll
  unfold step?
  simp only [hover, Bool.false_eq_true, if_false, hwake, hfill]
  simp only [between, List.find?_nil, hfind]
  exact congrArg some hpoll

theorem fill_of_full {w : Window} (h : w.width ≤ w.occupied) : w.fill = w := by
  have hroom : min (w.width - w.occupied) (w.texts.length - w.joined) = 0 := by omega
  simp [fill, hroom]

theorem wake_busy (hline : work.line? = none) :
    (busy p texts vectors computed work).wake s =
      { busy p texts vectors computed work with
        ready := if work.isDue s.now then [vectors.length] else [] } := by
  have hgranted := @filterMap_waiting? (busy p texts vectors computed work)
    (by simp [busy, hline]) s.cache.granted
  simp only [wake, hgranted]
  by_cases hdue : work.isDue s.now = true
  · simp [busy, Active.isDue, hdue, enroll, between]
  · simp [busy, Active.isDue, hdue, enroll, between]

theorem step_busy (htext : texts[vectors.length]? = some text) (hline : work.line? = none)
    (hdue : work.isDue s.now = true) :
    (busy p texts vectors computed work).step? s =
      some (afterPoll p texts vectors computed (p.fetch text (some work) s)) := by
  have hnext : vectors.length < texts.length := (List.getElem?_eq_some_iff.mp htext).1
  have hover : (busy p texts vectors computed work).isOver = false := isOver_of_next rfl hnext
  have hwake : ((busy p texts vectors computed work).wake s).fill =
      { busy p texts vectors computed work with ready := [vectors.length] } := by
    rw [wake_busy hline, if_pos hdue]
    exact fill_of_full (Nat.le_refl _)
  have hfind : List.find? (fun a : Active => a.position == vectors.length)
      [⟨vectors.length, some work⟩] = some ⟨vectors.length, some work⟩ := by simp
  have hpoll := poll_only p texts vectors computed (some work) s
  rw [List.getD_eq_getElem?_getD, htext] at hpoll
  unfold step?
  simp only [hover, Bool.false_eq_true, if_false, hwake]
  simp only [busy, between, List.find?_nil, hfind]
  exact congrArg some hpoll

theorem step_busy_early (hline : work.line? = none) (hdue : work.isDue s.now = false) :
    (busy p texts vectors computed work).step? s = none := by
  have hwake : ((busy p texts vectors computed work).wake s).fill =
      busy p texts vectors computed work := by
    rw [wake_busy hline, hdue]
    exact fill_of_full (Nat.le_refl _)
  unfold step?
  split
  · rfl
  · simp only [hwake]
    simp only [busy, between, List.find?_nil]

theorem step_ripe (htext : texts[vectors.length]? = some text) (answer : Answer) :
    (ripe p texts vectors computed answer).step? s =
      some (({ between p texts vectors computed with
        joined := vectors.length + 1 } : Window).handOver s answer) := by
  have hnext : vectors.length < texts.length := (List.getElem?_eq_some_iff.mp htext).1
  have hover : (ripe p texts vectors computed answer).isOver = false := isOver_of_next rfl hnext
  have hwake : (ripe p texts vectors computed answer).wake s =
      ripe p texts vectors computed answer := by
    have hgranted := @filterMap_waiting? (ripe p texts vectors computed answer)
      (by simp [ripe, between]) s.cache.granted
    simp only [wake, hgranted]
    rfl
  have hfill : (ripe p texts vectors computed answer).fill = ripe p texts vectors computed answer :=
    fill_of_full (Nat.le_refl _)
  unfold step?
  simp only [hover, Bool.false_eq_true, if_false, hwake, hfill]
  simp [ripe, between, next]

/-- A vector is handed over, and the window is between two positions again. -/
theorem step_ripe_ok (htext : texts[vectors.length]? = some text) (v : Embedding) :
    (ripe p texts vectors computed (.ok v)).step? s =
      some (between p texts (vectors ++ [v]) computed, s) := by
  rw [step_ripe htext]
  simp [handOver, between]

/-- A window of width one that has failed. -/
def failed (p : Provider) (texts : List String) (vectors : List Embedding) (computed : Nat)
    (e : EmbedError) : Window :=
  { between p texts vectors computed with joined := vectors.length + 1, failure := some e }

/-- A failure is handed over, and nothing else was going on. -/
theorem step_ripe_error (htext : texts[vectors.length]? = some text) (e : EmbedError) :
    (ripe p texts vectors computed (.error e)).step? s =
      some (failed p texts vectors computed e, s) := by
  rw [step_ripe htext]
  simp [handOver, between, failed, cancelAll]

/-! ## One section -/

theorem fetch_compute (p : Provider) (text : String) (id : CallId) (work : Work) (s : Session) :
    p.fetch text (some (.compute id work)) s =
      .onProgress id (p.resume text work s).1 false (p.resume text work s).2 := rfl

/-- The poll in which the computation of the only call in progress ends. -/
theorem onProgress_alone {c : Cache} (hcache : s.cache = c.alone text .computing) (started : Bool)
    (outcome : Answer) :
    FlightPoll.onProgress c.nextCall s started (.done outcome) =
      ⟨{ s with cache := (c.conclude text outcome).1.vacated }, .done (c.conclude text outcome).2,
        started⟩ := by
  have hsession : s = { s with cache := c.alone text .computing } := by
    rw [← hcache]
  rw [hsession]
  exact FlightPoll.onProgress_done c text s started outcome

/-- What the end of a computation leaves: the cache is that of the concluded call, and the source
was asked for the text so many times, at least and at most. -/
structure Concludes (f : String → Answer) (text : String) (c : Cache) (fewest most : Nat)
    (s s' : Session) : Prop where
  cache : s'.cache = (c.conclude text (f text)).1.vacated
  log : ∃ records, s'.log = s.log ++ records ∧ fewest ≤ records.length ∧ records.length ≤ most ∧
    ∀ record ∈ records, record.input = .one text

theorem Concludes.of_asked {f : String → Answer} {c : Cache} {calls most most' : Nat}
    {s₁ s' : Session} (hasked : s.Asked text calls s₁) (h : Concludes f text c 0 most s₁ s')
    (hmost : calls + most ≤ most') : Concludes f text c calls most' s s' := by
  obtain ⟨records, hlog, hlength, hinputs⟩ := hasked.log
  obtain ⟨records', hlog', -, hlength', hinputs'⟩ := h.log
  refine ⟨h.cache, records ++ records', ?_, ?_, ?_, ?_⟩
  · rw [hlog', hlog, List.append_assoc]
  · rw [List.length_append]
    omega
  · rw [List.length_append]
    omega
  · intro record hrecord
    rcases List.mem_append.mp hrecord with hmem | hmem
    · exact hinputs record hmem
    · exact hinputs' record hmem

theorem Concludes.mono {f : String → Answer} {c : Cache} {fewest fewest' most : Nat}
    {s' : Session} (h : Concludes f text c fewest most s s') (hfewest : fewest' ≤ fewest) :
    Concludes f text c fewest' most s s' := by
  obtain ⟨records, hlog, hlength, hrest⟩ := h.log
  exact ⟨h.cache, records, hlog, hfewest.trans hlength, hrest⟩

theorem concludes_now {f : String → Answer} {c : Cache} {calls : Nat} {s₁ : Session}
    (hasked : s.Asked text calls s₁) {most : Nat} (hmost : calls ≤ most) :
    Concludes f text c calls most s { s₁ with cache := (c.conclude text (f text)).1.vacated } := by
  obtain ⟨records, hlog, hlength, hinputs⟩ := hasked.log
  exact ⟨rfl, records, hlog, hlength.ge, hlength ▸ hmost, hinputs⟩

theorem path_of_compute {f : String → Answer} (hcomputes : p.Computes f)
    (htext : texts[vectors.length]? = some text) {c : Cache}
    (hcache : s.cache = c.alone text .computing) (hpolled : p.Polled text (.pending work))
    {due : Moment} (hdue : work.due? = some due) (hlate : s.now ≤ due) (computed : Nat) :
    ∃ m s', Path m (busy p texts vectors computed (.compute c.nextCall work)) s
        (ripe p texts vectors computed (c.conclude text (f text)).2) s' ∧
      m ≤ p.pollsLeft work ∧ Concludes f text c 0 (p.triesLeft work) s s' := by
  induction hpolls : p.pollsLeft work using Nat.strong_induction_on generalizing work s due with
  | _ polls ih =>
      have hfits := hpolled.fits hcomputes.quiet
      have hline : (Work.compute c.nextCall work).line? = none := hfits.line?
      -- On time: one poll, and then either the end or fewer polls to go.
      have hontime : ∀ s : Session, s.cache = c.alone text .computing →
          work.due? = some s.now →
          ∃ m s', Path m (busy p texts vectors computed (.compute c.nextCall work)) s
              (ripe p texts vectors computed (c.conclude text (f text)).2) s' ∧
            m ≤ polls ∧ Concludes f text c 0 (p.triesLeft work) s s' := by
        intro s hcache hdue
        have hpos := Provider.pollsLeft_pos hfits
        have hisDue : (Work.compute c.nextCall work).isDue s.now = true := by
          simp [Work.isDue, Work.due?, hdue]
        have hstep := @step_busy p texts vectors computed s text _ htext hline hisDue
        obtain ⟨calls, hasked, -, hmost, hleaves⟩ :=
          Provider.resume_comes hcomputes.quiet text hfits hdue
        have hpolled' : p.Polled text (p.resume text work s).2 := hpolled.resume hdue
        rw [fetch_compute] at hstep
        generalize p.resume text work s = resumed at *
        obtain ⟨s₁, progress⟩ := resumed
        have hcache₁ : s₁.cache = c.alone text .computing := hasked.cache.trans hcache
        cases progress with
        | done a =>
            cases hcomputes.answers hpolled'
            simp only [onProgress_alone hcache₁, afterPoll, Bool.toNat_false, Nat.add_zero] at hstep
            exact ⟨1, _, .step hstep (.refl _ _), by omega,
              (concludes_now hasked hmost).mono (Nat.zero_le _)⟩
        | pending rest =>
            obtain ⟨-, hless, htries, due', hdue', hlate'⟩ := hleaves
            simp only [FlightPoll.onProgress_pending, afterPoll, Bool.toNat_false, Nat.add_zero]
              at hstep
            obtain ⟨m, s', hpath, hm, hends⟩ := ih (p.pollsLeft rest) (by omega) hcache₁ hpolled'
              hdue' (hasked.now ▸ hlate') rfl
            exact ⟨m + 1, s', .step hstep hpath, by omega,
              (Concludes.of_asked hasked hends (by omega)).mono (Nat.zero_le _)⟩
      by_cases hon : s.now = due
      · exact hontime s hcache (hon ▸ hdue)
      · have hearly : s.now < due := lt_of_le_of_ne hlate hon
        have hidle : (busy p texts vectors computed (.compute c.nextCall work)).step? s = none :=
          step_busy_early hline (by simp [Work.isDue, Work.due?, hdue, hearly])
        have hover : (busy p texts vectors computed (.compute c.nextCall work)).isOver = false :=
          isOver_of_next rfl (List.getElem?_eq_some_iff.mp htext).1
        have hnext : (busy p texts vectors computed (.compute c.nextCall work)).due? = some due := by
          simp [due?, busy, Work.due?, hdue, earlier?]
        have hmax : max s.now due = due := max_eq_right hlate
        obtain ⟨m, s', hpath, hm, hends⟩ :=
          hontime { s with now := max s.now due } hcache (by rw [hmax]; exact hdue)
        exact ⟨m, s', .wait hidle hover hnext hpath, hm, hends.cache, hends.log⟩

theorem path_of_miss {f : String → Answer} (hcomputes : p.Computes f)
    (htext : texts[vectors.length]? = some text) (hidle : Cache.Idle s.cache)
    (hread : s.cache.read text = .ok none) :
    ∃ m s', Path m (between p texts vectors computed) s
        (ripe p texts vectors (computed + 1) (s.cache.missed.conclude text (f text)).2) s' ∧
      m ≤ p.waits + 1 ∧ Concludes f text s.cache.missed 1 p.tries s s' := by
  have hstep := @step_between p texts vectors computed s text htext
  have hfetch : p.fetch text none s = _ := FlightPoll.start_of_miss (p.start text) hidle hread
  rw [hfetch] at hstep
  obtain ⟨calls, hasked, hfewest, hmost, hleaves⟩ := Provider.start_comes hcomputes.quiet text
    { s with cache := s.cache.missed.alone text .computing }
  have hpolled : p.Polled text
      (p.start text { s with cache := s.cache.missed.alone text .computing }).2 := .start _
  generalize p.start text { s with cache := s.cache.missed.alone text .computing } = started at *
  obtain ⟨s₁, progress⟩ := started
  have hnext : s.cache.nextCall = s.cache.missed.nextCall := rfl
  rw [hnext] at hstep
  cases progress with
  | done a =>
      cases hcomputes.answers hpolled
      simp only [onProgress_alone hasked.cache, afterPoll, Bool.toNat_true] at hstep
      obtain ⟨hcache, hlog⟩ := (concludes_now (f := f) hasked hmost).mono hfewest
      exact ⟨1, _, .step hstep (.refl _ _), Nat.le_add_left _ _, hcache, hlog⟩
  | pending work =>
      obtain ⟨-, hpolls, htries, due, hdue, hlate⟩ := hleaves
      simp only [FlightPoll.onProgress_pending, afterPoll, Bool.toNat_true] at hstep
      obtain ⟨m, s', hpath, hm, hends⟩ := path_of_compute hcomputes htext hasked.cache hpolled hdue
        (hasked.now ▸ hlate) (computed + 1)
      have hall : Concludes f text s.cache.missed calls p.tries _ s' :=
        .of_asked hasked hends (by omega)
      obtain ⟨hcache, hlog⟩ := hall.mono hfewest
      exact ⟨m + 1, s', .step hstep hpath, by omega, hcache, hlog⟩

theorem path_of_hit (htext : texts[vectors.length]? = some text) {v : Embedding}
    (hread : s.cache.read text = .ok (some v)) :
    Path 2 (between p texts vectors computed) s (between p texts (vectors ++ [v]) computed)
      { s with cache := { s.cache with hits := s.cache.hits + 1 } } := by
  have hstep := @step_between p texts vectors computed s text htext
  have hfetch : p.fetch text none s = _ := FlightPoll.start_of_hit (p.start text) hread
  rw [hfetch] at hstep
  simp only [afterPoll, Bool.toNat_false, Nat.add_zero] at hstep
  exact .step hstep (.step (step_ripe_ok htext v) (.refl _ _))

end Window

/-! ## All sections -/

theorem Ledger.find?_eq_none_iff {l : Ledger} {text : String} :
    l.find? text = none ↔ text ∉ l.entries.map Entry.text := by
  rw [find?, Option.map_eq_none_iff, List.find?_eq_none]
  simp

theorem Cache.misses_conclude (c : Cache) (text : String) (outcome : Answer) :
    (c.conclude text outcome).1.misses = c.misses := by
  cases outcome with
  | error e => rfl
  | ok v =>
      unfold conclude
      cases hlength : c.requireLength v with
      | error e => simp only [hlength]
      | ok _ =>
          obtain ⟨db, hdb, -⟩ := offer_grows c text v none
          simp only [hlength, hdb]

/-- What is left of a session after texts without a row were computed in order: their entries, the
records of the calls, and the count of misses. -/
structure Sequel (p : Provider) (f : String → Answer) (texts : List String) (l : Ledger)
    (s s' : Session) : Prop where
  represents : Represents s'.cache { l with entries := l.entries ++ added f texts }
  log : ∃ blocks, s'.log = s.log ++ blocks.flatten ∧
    List.Forall₂ p.Recorded (called f texts) blocks
  misses : s'.cache.misses = s.cache.misses + (called f texts).length

namespace Sequel

variable {p : Provider} {f : String → Answer} {text : String} {rest : List String} {l : Ledger}
  {s s₁ s' : Session}

theorem nil (h : Represents s.cache l) : Sequel p f [] l s s := by
  refine ⟨?_, ⟨[], (List.append_nil _).symm, .nil⟩, rfl⟩
  show Represents s.cache { l with entries := l.entries ++ [] }
  rw [List.append_nil]
  exact h

/-- A section that is found in the cache changes neither the log nor the misses. -/
theorem of_hit (h : Sequel p f rest l s₁ s') (hlog : s₁.log = s.log)
    (hmisses : s₁.cache.misses = s.cache.misses) : Sequel p f rest l s s' :=
  ⟨h.represents, hlog ▸ h.log, hmisses ▸ h.misses⟩

theorem cons {v : Embedding} (hok : f text = .ok v)
    (hcall : Window.Concludes f text s.cache.missed 1 p.tries s s₁)
    (h : Sequel p f rest (l.add text v) s₁ s') : Sequel p f (text :: rest) l s s' := by
  obtain ⟨records, hlog, hsome, hmost, hinputs⟩ := hcall.log
  obtain ⟨blocks, hlog', hblocks⟩ := h.log
  refine ⟨?_, ⟨records :: blocks, ?_, ?_⟩, ?_⟩
  · rw [added_of_ok hok, ← List.singleton_append, ← List.append_assoc]
    exact h.represents
  · rw [hlog', hlog, List.flatten_cons, List.append_assoc]
  · rw [called_of_ok hok]
    exact .cons ⟨List.ne_nil_of_length_pos hsome, hmost, hinputs⟩ hblocks
  · rw [h.misses, hcall.cache, called_of_ok hok, List.length_cons]
    show (s.cache.missed.conclude text (f text)).1.misses + _ = _
    rw [Cache.misses_conclude]
    show s.cache.misses + 1 + _ = _
    omega

theorem of_error {e : EmbedError} (herror : f text = .error e)
    (hcall : Window.Concludes f text s.cache.missed 1 p.tries s s') (h : Represents s.cache l) :
    Sequel p f (text :: rest) l s s' := by
  obtain ⟨records, hlog, hsome, hmost, hinputs⟩ := hcall.log
  refine ⟨?_, ⟨[records], ?_, ?_⟩, ?_⟩
  · rw [added_of_error herror, List.append_nil, hcall.cache, herror]
    exact h.missed.vacated
  · rw [hlog, List.flatten_singleton]
  · rw [called_of_error herror]
    exact .cons ⟨List.ne_nil_of_length_pos hsome, hmost, hinputs⟩ .nil
  · rw [hcall.cache, called_of_error herror, herror]
    rfl

end Sequel

namespace Window

variable {p : Provider} {texts : List String} {f : String → Answer}

theorem path_in_order (hcomputes : p.Computes f) {l : Ledger} {s : Session} {before rest : List String}
    {vectors : List Embedding} (hsplit : texts = before ++ rest)
    (hlength : before.length = vectors.length) (hrep : Represents s.cache l)
    (hsizes : ∀ text ∈ rest, text.utf8ByteSize ≤ Table.mostBytes)
    (hfits : ∀ text ∈ rest, text ∉ l.entries.map Entry.text → ∀ v, f text = .ok v →
      l.check v = .ok () ∧ FitsRow text v)
    (hids : (added f (missingTexts l.entries rest)).length ≤ s.cache.database.idsLeft)
    (computed : Nat) :
    ∃ m w' s', Path m (between p texts vectors computed) s w' s' ∧
      m ≤ rest.length * (p.waits + 2) ∧ Sequel p f (missingTexts l.entries rest) l s s' ∧
      match failure? f (missingTexts l.entries rest) with
      | some e => w'.failure = some e
      | none => ∃ vectors', vectors'.length = texts.length ∧
        w' = between p texts vectors' (computed + (missingTexts l.entries rest).length) := by
  induction rest generalizing l s before vectors computed with
  | nil =>
      refine ⟨0, _, s, .refl _ _, Nat.zero_le _, .nil hrep, vectors, ?_, rfl⟩
      rw [hsplit, List.append_nil, hlength]
  | cons text rest ih =>
      have htext : texts[vectors.length]? = some text := by
        rw [hsplit, ← hlength, List.getElem?_append_right (Nat.le_refl _), Nat.sub_self]
        rfl
      have hsplit' : texts = (before ++ [text]) ++ rest := by
        rw [hsplit, List.append_assoc, List.singleton_append]
      have hlength' : ∀ v : Embedding, (before ++ [text]).length = (vectors ++ [v]).length := by
        intro v
        simp [hlength]
      have hread := hrep.stores.read (hsizes text List.mem_cons_self)
      have hsizes' : ∀ t ∈ rest, t.utf8ByteSize ≤ Table.mostBytes :=
        fun t ht => hsizes t (List.mem_cons_of_mem _ ht)
      cases hfound : l.find? text with
      | some v =>
          have hmem : text ∈ l.entries.map Entry.text := by
            by_contra hnone
            rw [Ledger.find?_eq_none_iff.mpr hnone] at hfound
            cases hfound
          rw [hfound] at hread
          rw [missingTexts_of_mem hmem] at hids ⊢
          have hhit := @path_of_hit p texts vectors computed s text htext v hread
          obtain ⟨m, w', s', hpath, hm, hsequel, hend⟩ := ih (s := { s with cache :=
            { s.cache with hits := s.cache.hits + 1 } }) hsplit' (hlength' v)
            ⟨⟨hrep.idle.calls, hrep.idle.keys, hrep.idle.locks, hrep.idle.granted⟩,
              hrep.dimension, hrep.stores⟩
            hsizes' (fun t ht => hfits t (List.mem_cons_of_mem _ ht)) hids computed
          refine ⟨2 + m, w', s', hhit.trans hpath, ?_, hsequel.of_hit rfl rfl, hend⟩
          rw [List.length_cons, Nat.succ_mul]
          omega
      | none =>
          have hnone : text ∉ l.entries.map Entry.text := Ledger.find?_eq_none_iff.mp hfound
          rw [hfound] at hread
          obtain ⟨m, s₁, hmiss, hm, hcall⟩ :=
            @path_of_miss p texts vectors computed s text f hcomputes htext hrep.idle hread
          cases hf : f text with
          | error e =>
              rw [hf] at hmiss
              have hhand := @step_ripe_error p texts vectors (computed + 1) s₁ text htext e
              rw [missingTexts_of_not_mem hnone [], failure?_of_error hf]
              refine ⟨m + 1, _, s₁, hmiss.trans (.step hhand (.refl _ _)), ?_,
                .of_error hf hcall hrep, rfl⟩
              rw [List.length_cons, Nat.succ_mul]
              omega
          | ok v =>
              obtain ⟨hcheck, hrow⟩ := hfits text List.mem_cons_self hnone v hf
              rw [missingTexts_of_not_mem hnone v, added_of_ok hf, List.length_cons] at hids
              have htakes : ∀ w, f text = .ok w →
                  FitsRow text w ∧ 0 < s.cache.missed.database.idsLeft := by
                intro w hw
                cases hf.symm.trans hw
                exact ⟨hrow, Nat.zero_lt_of_lt hids⟩
              obtain ⟨hrep', hanswer, hleft⟩ := hrep.missed.conclude hfound htakes
              have haccept : l.accept text (f text) = (l.add text v, .ok v) := by
                simp only [hf, Ledger.accept, hcheck]
              rw [haccept] at hrep' hanswer hleft
              rw [Ledger.length_add] at hleft
              rw [hanswer] at hmiss
              have hhand := @step_ripe_ok p texts vectors (computed + 1) s₁ text htext v
              have hfits' : ∀ t ∈ rest, t ∉ (l.add text v).entries.map Entry.text → ∀ w,
                  f t = .ok w → (l.add text v).check w = .ok () ∧ FitsRow t w := by
                intro t ht hnew
                refine hfits t (List.mem_cons_of_mem _ ht) fun hold => hnew ?_
                rw [Ledger.add, List.map_append]
                exact List.mem_append_left _ hold
              have hids' : (added f (missingTexts (l.add text v).entries rest)).length ≤
                  s₁.cache.database.idsLeft := by
                rw [hcall.cache]
                change _ = s.cache.database.idsLeft + _ at hleft
                show (added f (missingTexts (l.entries ++ [⟨text, v⟩]) rest)).length ≤
                  (s.cache.missed.conclude text (f text)).1.database.idsLeft
                omega
              obtain ⟨n, w', s', hpath, hn, hsequel, hend⟩ := ih (l := l.add text v) (s := s₁)
                hsplit' (hlength' v) (hcall.cache ▸ hrep'.vacated) hsizes' hfits' hids' (computed + 1)
              rw [missingTexts_of_not_mem hnone v, failure?_of_ok hf, List.length_cons,
                List.length_cons]
              refine ⟨m + (n + 1), w', s', hmiss.trans (.step hhand hpath), ?_,
                .cons hf hcall hsequel, ?_⟩
              · rw [Nat.succ_mul]
                omega
              · rw [Nat.add_right_comm, Nat.add_assoc] at hend
                exact hend

end Window

/-! ## Runs -/

/-- No call is in progress, no key stands twice and the database takes new rows. -/
structure Cache.AtRest (c : Cache) : Prop where
  idle : Idle c
  distinct : (c.database.rows.map Row.key).Nodup
  takes : c.database.blocked = false

theorem Row.holds_of_spells {row : Row} {e : Entry} (h : row.Spells e) : Holds row e := by
  obtain ⟨bytes, hbytes, hdecode⟩ := bind_eq_ok_iff.mp h.vector
  obtain ⟨hlength, rfl⟩ := Blob.decode_eq_ok_iff.mp hdecode
  refine ⟨h.key, ?_, hlength⟩
  unfold Cell.asBlob at hbytes
  split at hbytes
  · rename_i hcell
    cases hbytes
    exact hcell
  · cases hbytes
  · cases hbytes
  · cases hbytes

theorem Cache.AtRest.represents {c : Cache} (h : c.AtRest) {entries : List Entry}
    (hentries : c.contents = .ok entries) : Represents c ⟨entries, c.dimension⟩ := by
  have hspells := spells_contents hentries
  obtain ⟨t, ht, -⟩ := bind_eq_ok_iff.mp hentries
  refine ⟨h.idle, rfl, ?_, h.takes, hspells.imp fun _ _ => Row.holds_of_spells, ?_⟩
  · unfold Database.rowsOf at ht
    split at ht
    · rename_i hsome
      rw [hsome]
      rfl
    · cases ht
  · have hkeys := h.distinct
    rw [keys_of_spells hspells] at hkeys
    exact hkeys.of_map _

theorem Represents.atRest {c : Cache} {l : Ledger} (h : Represents c l) : c.AtRest := by
  refine ⟨h.idle, ?_, h.stores.unblocked⟩
  rw [Stores.keys_eq h.stores.rows]
  exact h.stores.distinct.map fun _ _ => Key.text.inj

theorem map_text_added {f : String → Answer} {texts : List String} (h : failure? f texts = none) :
    (added f texts).map Entry.text = texts := by
  induction texts with
  | nil => rfl
  | cons text rest ih =>
      cases hf : f text with
      | error e =>
          rw [failure?_of_error hf] at h
          cases h
      | ok v =>
          rw [failure?_of_ok hf] at h
          rw [added_of_ok hf, List.map_cons, ih h]

theorem mem_of_mem_texts {f : String → Answer} {entries : List Entry} {texts : List String}
    (h : failure? f (missingTexts entries texts) = none) {text : String} (htext : text ∈ texts) :
    text ∈ (entries ++ added f (missingTexts entries texts)).map Entry.text := by
  rw [List.map_append, map_text_added h, List.mem_append]
  by_cases hold : text ∈ entries.map Entry.text
  · exact Or.inl hold
  · refine Or.inr (List.mem_eraseDups.mpr (List.mem_filter.mpr ⟨htext, ?_⟩))
    simpa using hold

theorem missingTexts_eq_nil {entries : List Entry} {texts : List String}
    (h : ∀ text ∈ texts, text ∈ entries.map Entry.text) : missingTexts entries texts = [] := by
  rw [missingTexts, List.filter_eq_nil_iff.mpr]
  · rfl
  · intro text htext
    simpa using h text htext

namespace Window

theorem populate_in_order {p : Provider} {f : String → Answer} (hcomputes : p.Computes f)
    {texts : List String} {s : Session} {l : Ledger} (hrep : Represents s.cache l)
    (hsizes : ∀ text ∈ texts, text.utf8ByteSize ≤ Table.mostBytes)
    (hfits : ∀ text ∈ texts, text ∉ l.entries.map Entry.text → ∀ v, f text = .ok v →
      l.check v = .ok () ∧ FitsRow text v)
    (hids : (added f (missingTexts l.entries texts)).length ≤ s.cache.database.idsLeft) :
    Sequel p f (missingTexts l.entries texts) l s ((between p texts [] 0).populate s).1 ∧
      match failure? f (missingTexts l.entries texts) with
      | some e => ((between p texts [] 0).populate s).2 = some (.error (.embedding e))
      | none => ∃ vectors, ((between p texts [] 0).populate s).2 =
        some (.ok (vectors, (missingTexts l.entries texts).length)) := by
  obtain ⟨m, w', s', hpath, hm, hsequel, hend⟩ :=
    path_in_order hcomputes (List.nil_append texts).symm
      (show ([] : List String).length = ([] : List Embedding).length from rfl) hrep hsizes hfits
      hids 0
  have hsteps : m < (between p texts [] 0).steps := by
    show m < texts.length * (p.waits + 4) + 1
    have : texts.length * (p.waits + 2) ≤ texts.length * (p.waits + 4) :=
      Nat.mul_le_mul_left _ (by omega)
    omega
  cases hfailure : failure? f (missingTexts l.entries texts) with
  | some e =>
      rw [hfailure] at hend
      have hend : w'.failure = some e := hend
      rw [populate_of_path hpath (by simp [isOver, hend]) hsteps]
      exact ⟨hsequel, Job.resultOf_of_failure _ hend _⟩
  | none =>
      rw [hfailure] at hend
      obtain ⟨vectors, hlength, rfl⟩ := hend
      have hover : (between p texts vectors (0 + (missingTexts l.entries texts).length)).isOver :=
        by simp [isOver, between, next, hlength]
      rw [populate_of_path hpath hover hsteps, Job.resultOf_of_done _ rfl hover]
      refine ⟨hsequel, vectors, ?_⟩
      simp only [Job.plain, between, Nat.zero_add]

end Window

theorem Provider.inputs_of_recorded {src : Source} {texts : List String}
    {blocks : List (List CallRecord)} (h : List.Forall₂ (source src).Recorded texts blocks) :
    blocks.flatten.map CallRecord.input = texts.map .one := by
  induction h with
  | nil => rfl
  | @cons text records texts blocks hrecorded _ ih =>
      obtain ⟨record, rfl⟩ : ∃ record, records = [record] := by
        refine List.length_eq_one_iff.mp (Nat.le_antisymm hrecorded.bounded ?_)
        exact List.length_pos_of_ne_nil hrecorded.some
      rw [List.flatten_cons, List.map_append, ih, List.map_singleton,
        hrecorded.inputs record List.mem_cons_self]
      rfl

namespace Pipeline

variable {p : Pipeline} {f : String → Answer} {document : String}

def sectionTexts (p : Pipeline) (document : String) : List String :=
  (p.splitter.sections document).map Section.text

theorem window_eq_between (hwidth : p.concurrency = 1) :
    p.window (p.splitter.sections document) =
      Window.between p.provider (p.sectionTexts document) [] 0 := by
  simp [window, Window.between, hwidth, sectionTexts]

/-- A run with one section at a time, over a cache that represents a ledger. -/
theorem run_of_represents (hwidth : p.concurrency = 1) (hcomputes : p.provider.Computes f)
    {s : Session} {l : Ledger} (hrep : Represents s.cache l)
    (hsizes : ∀ text ∈ p.sectionTexts document, text.utf8ByteSize ≤ Table.mostBytes)
    (hfits : ∀ text ∈ p.sectionTexts document, text ∉ l.entries.map Entry.text → ∀ v,
      f text = .ok v → l.check v = .ok () ∧ FitsRow text v)
    (hids : (added f (missingTexts l.entries (p.sectionTexts document))).length ≤
      s.cache.database.idsLeft) :
    Sequel p.provider f (missingTexts l.entries (p.sectionTexts document)) l s
        (p.run document s).1 ∧
      match failure? f (missingTexts l.entries (p.sectionTexts document)) with
      | some e => (p.run document s).2 = some (.error (.embedding e))
      | none =>
        (∃ vectors, ((p.window (p.splitter.sections document)).populate s).2 =
          some (.ok (vectors, (missingTexts l.entries (p.sectionTexts document)).length))) ∧
        ∀ report, (p.run document s).2 = some (.ok report) →
          report.providerCalls = (missingTexts l.entries (p.sectionTexts document)).length := by
  obtain ⟨hsequel, hend⟩ := Window.populate_in_order hcomputes hrep hsizes hfits hids
  rw [← window_eq_between hwidth] at hsequel hend
  rw [run_eq]
  refine ⟨hsequel, ?_⟩
  cases hfailure : failure? f (missingTexts l.entries (p.sectionTexts document)) with
  | some e =>
      rw [hfailure] at hend
      simp only at hend ⊢
      rw [hend]
      rfl
  | none =>
      rw [hfailure] at hend
      obtain ⟨vectors, hend⟩ := hend
      refine ⟨⟨vectors, hend⟩, fun report hreport => ?_⟩
      rw [← run_eq] at hreport
      obtain ⟨found, hpopulate, hfound⟩ :=
        @populate_of_run p document s (p.run document s).1 report (by rw [← hreport])
      rw [hpopulate] at hend
      cases hend
      obtain ⟨entries, corpus, nearest, -, -, -, rfl⟩ := report_eq_ok hfound
      rfl

/-- A run over a note all of whose sections have rows asks for nothing and adds no row. -/
theorem run_of_present (hwidth : p.concurrency = 1) (hcomputes : p.provider.Computes f)
    {s : Session} (hrest : s.cache.AtRest) {entries : List Entry}
    (hentries : s.cache.contents = .ok entries)
    (hsizes : ∀ text ∈ p.sectionTexts document, text.utf8ByteSize ≤ Table.mostBytes)
    (hall : ∀ text ∈ p.sectionTexts document, text ∈ entries.map Entry.text) :
    (p.run document s).1.log = s.log ∧
      (p.run document s).1.cache.database.rows = s.cache.database.rows ∧
      ∀ report, (p.run document s).2 = some (.ok report) → report.providerCalls = 0 := by
  have hrep := hrest.represents hentries
  have hnone : missingTexts entries (p.sectionTexts document) = [] := missingTexts_eq_nil hall
  obtain ⟨hsequel, hend⟩ := run_of_represents hwidth hcomputes hrep hsizes
    (fun text htext hnew => absurd (hall text htext) hnew) (by rw [hnone]; exact Nat.zero_le _)
  rw [hnone] at hsequel hend
  obtain ⟨blocks, hlog, hblocks⟩ := hsequel.log
  cases hblocks
  refine ⟨hlog.trans (List.append_nil _), ?_, hend.2⟩
  have honward : s.cache.Onward (p.run document s).1.cache := by
    rw [run_eq]
    refine Window.onward_populate rfl rfl rfl fun call hcall => ?_
    rw [hrest.idle.calls] at hcall
    cases hcall
  have hlength := hsequel.represents.stores.rows.length_eq
  rw [show added f [] = [] from rfl, List.append_nil, ← hrep.stores.rows.length_eq] at hlength
  exact (honward.grows.rows.eq_of_length hlength.symm).symm

/-- **One section at a time.** Let no text or row be too big, and let there be a number for each row
that is added. Then the provider is called on the texts that have no row, in the order in which they
first occur, once each, up to and including the first that fails. The rows of those that do not fail
follow the rows that were there, in that order. The run fails as that first one does, and otherwise
counts all the calls. It leaves the cache at rest; then every later run over the note, on a cache at
rest that has kept the rows, makes no call and leaves the rows as they are. -/
theorem run_in_order (hwidth : p.concurrency = 1) (hcomputes : p.provider.Computes f)
    {s : Session} (hrest : s.cache.AtRest) {entries : List Entry}
    (hentries : s.cache.contents = .ok entries)
    (hsizes : ∀ text ∈ p.sectionTexts document, text.utf8ByteSize ≤ Table.mostBytes)
    (hfits : ∀ text ∈ missingTexts entries (p.sectionTexts document), ∀ v, f text = .ok v →
      s.cache.requireLength v = .ok () ∧ FitsRow text v)
    (hids : (added f (missingTexts entries (p.sectionTexts document))).length ≤
      s.cache.database.idsLeft) :
    let missing := missingTexts entries (p.sectionTexts document)
    let s' := (p.run document s).1
    (∃ blocks, s'.log = s.log ++ blocks.flatten ∧
      List.Forall₂ p.provider.Recorded (called f missing) blocks) ∧
    (∀ src, p.provider = .source src →
      s'.log.map CallRecord.input = s.log.map CallRecord.input ++ (called f missing).map .one) ∧
    s'.cache.misses = s.cache.misses + (called f missing).length ∧
    s'.cache.contents = .ok (entries ++ added f missing) ∧
    s'.cache.AtRest ∧
    (∀ e, failure? f missing = some e → (p.run document s).2 = some (.error (.embedding e))) ∧
    (failure? f missing = none →
      (∃ vectors, ((p.window (p.splitter.sections document)).populate s).2 =
        some (.ok (vectors, missing.length))) ∧
      (∀ report, (p.run document s).2 = some (.ok report) →
        report.providerCalls = missing.length) ∧
      ∀ later : Session, later.cache.AtRest → ∀ entries', later.cache.contents = .ok entries' →
        entries ++ added f missing <+: entries' →
        (p.run document later).1.log = later.log ∧
        (p.run document later).1.cache.database.rows = later.cache.database.rows ∧
        ∀ report, (p.run document later).2 = some (.ok report) → report.providerCalls = 0) := by
  intro missing s'
  have hrep := hrest.represents hentries
  have hfits' : ∀ text ∈ p.sectionTexts document, text ∉ entries.map Entry.text → ∀ v,
      f text = .ok v → Ledger.check ⟨entries, s.cache.dimension⟩ v = .ok () ∧ FitsRow text v := by
    intro text htext hnew v hv
    rw [← hrep.requireLength]
    exact hfits text (mem_missingTexts.mpr ⟨htext, hnew⟩) v hv
  obtain ⟨hsequel, hend⟩ := run_of_represents hwidth hcomputes hrep hsizes hfits' hids
  obtain ⟨blocks, hlog, hblocks⟩ := hsequel.log
  refine ⟨⟨blocks, hlog, hblocks⟩, fun src hsource => ?_, hsequel.misses,
    hsequel.represents.stores.contents, hsequel.represents.atRest, fun e he => ?_, fun hnone => ?_⟩
  · rw [hsource] at hblocks
    rw [hlog, List.map_append, Provider.inputs_of_recorded hblocks]
  · rw [he] at hend
    exact hend
  · rw [hnone] at hend
    refine ⟨hend.1, hend.2, fun later hlater entries' hentries' hstart => ?_⟩
    refine run_of_present hwidth hcomputes hlater hentries' hsizes fun text htext => ?_
    exact (hstart.map Entry.text).subset (mem_of_mem_texts hnone htext)

/-- Fails on one text, and takes its time for the others. -/
def fussy (text : String) : Answer := if text = "b" then .error .notConfigured else .ok [⟨1⟩]

/-- Every letter of a note is a section. -/
def letters : Pipeline where
  provider := .source {
    name := "slow"
    model := "fussy"
    dimension := 1
    reply := fun earlier text => { delay := .ofMillis earlier, outcome := fussy text } }
  splitter := fun note => (List.range note.length).map (⟨·, ""⟩)

def oneLetter : Session where
  cache := {
    database := { table := some { rows := [⟨1, .text "x", .blob (Blob.encode [⟨2⟩])⟩], lastId := 1 } }
    dimension := some 1 }

theorem run_in_order_at_letters :
    letters.concurrency = 1 ∧ letters.provider.Computes fussy ∧ oneLetter.cache.AtRest ∧
    oneLetter.cache.contents = .ok [⟨"x", [⟨2⟩]⟩] ∧
    letters.sectionTexts "xaabca" = ["x", "a", "a", "b", "c", "a"] ∧
    (letters.run "xaabca" oneLetter).1.log.map CallRecord.input = [.one "a", .one "b"] ∧
    (letters.run "xaabca" oneLetter).1.cache.contents = .ok [⟨"x", [⟨2⟩]⟩, ⟨"a", [⟨1⟩]⟩] ∧
    (letters.run "xaabca" oneLetter).1.cache.AtRest ∧
    (letters.run "xaabca" oneLetter).2 = some (.error (.embedding .notConfigured)) := by
  have hcomputes : letters.provider.Computes fussy :=
    Provider.computes_source (fun _ _ => rfl) fun _ _ => rfl
  have hrest : oneLetter.cache.AtRest := ⟨⟨rfl, rfl, rfl, rfl⟩, List.nodup_singleton _, rfl⟩
  have hentries : oneLetter.cache.contents = .ok [⟨"x", [⟨2⟩]⟩] := rfl
  have htexts : letters.sectionTexts "xaabca" = ["x", "a", "a", "b", "c", "a"] := by decide
  have hmissing : missingTexts [⟨"x", [⟨2⟩]⟩] (letters.sectionTexts "xaabca") = ["a", "b", "c"] := by
    rw [htexts]
    decide
  have hsizes : ∀ text ∈ letters.sectionTexts "xaabca", text.utf8ByteSize ≤ Table.mostBytes := by
    rw [htexts]
    decide
  have hfits : ∀ text ∈ missingTexts [⟨"x", [⟨2⟩]⟩] (letters.sectionTexts "xaabca"), ∀ v,
      fussy text = .ok v → oneLetter.cache.requireLength v = .ok () ∧ FitsRow text v := by
    rw [hmissing]
    have hrows : ∀ text ∈ ["a", "b", "c"], FitsRow text [⟨1⟩] := by decide
    intro text htext v hv
    unfold fussy at hv
    split at hv
    · cases hv
    · cases hv
      exact ⟨rfl, hrows text htext⟩
  have hids : (added fussy (missingTexts [⟨"x", [⟨2⟩]⟩] (letters.sectionTexts "xaabca"))).length ≤
      oneLetter.cache.database.idsLeft := by
    rw [hmissing]
    decide
  obtain ⟨-, hlog, -, hcontents, hleft, hfailure, -⟩ :=
    run_in_order rfl hcomputes hrest hentries hsizes hfits hids
  rw [hmissing] at hlog hcontents hfailure
  exact ⟨rfl, hcomputes, hrest, hentries, htexts, hlog _ rfl, hcontents, hleft, hfailure _ rfl⟩

/-- A run fails where the first row cannot be written, whatever the provider gives. -/
theorem run_of_refused (hwidth : p.concurrency = 1) (hcomputes : p.provider.Computes f)
    {s : Session} (hidle : Cache.Idle s.cache) {text : String}
    (htexts : p.sectionTexts document = [text]) (hread : s.cache.read text = .ok none)
    {e : EmbedError} (hrefused : (s.cache.missed.conclude text (f text)).2 = .error e) :
    (p.run document s).2 = some (.error (.embedding e)) := by
  obtain ⟨m, s', hmiss, hm, -⟩ :=
    @Window.path_of_miss p.provider [text] [] 0 s text f hcomputes rfl hidle hread
  rw [hrefused] at hmiss
  have hhand := @Window.step_ripe_error p.provider [text] [] 1 s' text rfl e
  have hpath := hmiss.trans (.step hhand (.refl _ _))
  have hsteps : m + 1 < (Window.between p.provider [text] [] 0).steps := by
    show m + 1 < 1 * (p.provider.waits + 4) + 1
    omega
  rw [run_eq, window_eq_between hwidth, htexts, Window.populate_of_path hpath rfl hsteps,
    Job.resultOf_of_failure _ rfl]
  rfl

/-- The row of `oneLetter` has the last number. -/
def lastLetter : Session where
  cache := {
    database := { table := some {
      rows := [⟨Int64.maxValue, .text "x", .blob (Blob.encode [⟨2⟩])⟩]
      lastId := Int64.maxValue } }
    dimension := some 1 }

/-- Every letter of a note is a section, and has the same vector. -/
def stamping (v : Embedding) : Pipeline where
  provider := .source {
    name := "stamp"
    model := "one"
    dimension := 0
    reply := fun _ _ => { outcome := .ok v } }
  splitter := letters.splitter

theorem run_stamping {v : Embedding} (h : Table.mostBytes < (Blob.encode v).length) :
    ((stamping v).run "a" { cache := { database := { table := some {} } } }).2 =
      some (.error (.embedding Database.tooBig)) := by
  have hstamps : (stamping v).provider.Computes (fun _ => .ok v) :=
    Provider.computes_source (fun _ _ => rfl) fun _ _ => rfl
  have htexts : letters.sectionTexts "a" = ["a"] := by decide
  have hread : ({ database := { table := some {} }, misses := 1 } : Cache).read "a" = .ok none := rfl
  refine run_of_refused rfl hstamps ⟨rfl, rfl, rfl, rfl⟩ htexts rfl ?_
  exact congrArg Prod.snd ((Cache.offer_of_none hread v).trans (if_pos h))

/-- A run may fail although the provider does not: there may be no number left for a row, and a row
may be too big. -/
theorem run_beyond_limits :
    (letters.concurrency = 1 ∧ letters.provider.Computes fussy ∧ lastLetter.cache.AtRest ∧
      lastLetter.cache.contents = .ok [⟨"x", [⟨2⟩]⟩] ∧ letters.sectionTexts "a" = ["a"] ∧
      fussy "a" = .ok [⟨1⟩] ∧ lastLetter.cache.requireLength [⟨1⟩] = .ok () ∧
      (letters.run "a" lastLetter).2 = some (.error (.embedding Database.full))) ∧
    ((stamping longVector).concurrency = 1 ∧
      (stamping longVector).provider.Computes (fun _ => .ok longVector) ∧
      longVector.length < 2 ^ 32 ∧ (stamping longVector).sectionTexts "a" = ["a"] ∧
      ((stamping longVector).run "a" { cache := { database := { table := some {} } } }).2 =
        some (.error (.embedding Database.tooBig))) := by
  have hcomputes : letters.provider.Computes fussy :=
    Provider.computes_source (fun _ _ => rfl) fun _ _ => rfl
  have hstamps : (stamping longVector).provider.Computes (fun _ => .ok longVector) :=
    Provider.computes_source (fun _ _ => rfl) fun _ _ => rfl
  have htexts : letters.sectionTexts "a" = ["a"] := by decide
  have hrest : lastLetter.cache.AtRest := ⟨⟨rfl, rfl, rfl, rfl⟩, List.nodup_singleton _, rfl⟩
  refine ⟨⟨rfl, hcomputes, hrest, rfl, htexts, rfl, rfl, ?_⟩, rfl, hstamps, ?_, htexts, ?_⟩
  · exact run_of_refused rfl hcomputes hrest.idle htexts rfl (by decide)
  · rw [length_longVector]
    decide
  · exact run_stamping mostBytes_lt_longVector

end Pipeline

end NearNotes
