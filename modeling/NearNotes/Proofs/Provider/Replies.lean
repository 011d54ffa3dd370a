import Mathlib
import NearNotes.Proofs.Flight.Uniform
import NearNotes.Proofs.Provider.Paired

/-!
# What a source has replied

An answer of a call on a provider is a reply of its source, or it comes from a row or from one of the
provider's layers. So where the cache enforces a length, a vector of another length and an error about
lengths can be traced to a reply.

* `Source.repliesSince` : what a source has replied to the calls recorded since some moment, with
  `repliesSince_of_prefix`;
* `Source.Obeys` : other writers that a source lets in first keep to a length;
* `Faults`, `Traced` : the reply that an error about lengths comes from, and answers that come from
  somewhere;
* `respects_kept`, `respectsFlight_kept`, `Provider.respects_kept` : polls keep a uniform cache and
  traced answers;
* `Accounted` : what a poll comes to; `Provider.start_accounted`, `resume_accounted`,
  `fetch_accounted`; `Provider.fetch_measured` : a poll through the cache that ends with a vector ends
  with one of the length.
-/

namespace NearNotes

open Cache

/-! ## Replies -/

/-- What a source has replied, and to which texts, where all calls from a place of the log on were
made on it. -/
def Source.repliesSince (src : Source) (first : Nat) (log : List CallRecord) :
    List (String × Answer) :=
  (log.zipIdx.drop first).filterMap fun (record, earlier) =>
    match record.input with
    | .one text => some (text, (src.reply earlier text).outcome)
    | .many _ => none

/-- A writer that comes first when a source is called stores a vector of the length. -/
def Source.Obeys (length : Nat) (src : Source) : Prop :=
  ∀ earlier text cell, (src.reply earlier text).rival = some cell → cell.OfLength length

namespace Source

variable (src : Source) {first : Nat} {log log' : List CallRecord}

/-- The replies up to a later moment are those up to an earlier one and those since. -/
theorem repliesSince_of_prefix (hfirst : first ≤ log.length) (h : log <+: log') :
    src.repliesSince first log' = src.repliesSince first log ++ src.repliesSince log.length log' := by
  obtain ⟨rest, rfl⟩ := h
  unfold repliesSince
  have hlength : log.zipIdx.length = log.length := List.length_zipIdx
  rw [List.zipIdx_append, List.drop_append_of_le_length (hlength ▸ hfirst), List.filterMap_append,
    List.drop_left' hlength]

@[simp] theorem repliesSince_length (log : List CallRecord) :
    src.repliesSince log.length log = [] := by
  unfold repliesSince
  rw [List.drop_eq_nil_of_le (List.length_zipIdx).le]
  rfl

theorem mem_repliesSince_asked (text : String) (s : Session) (hfirst : first ≤ s.log.length) :
    (text, (src.reply s.log.length text).outcome) ∈ src.repliesSince first (src.asked text s).log := by
  have hlog : (src.asked text s).log = s.log ++ [⟨.one text, s.now, s.cache.textsInProgress⟩] := rfl
  rw [hlog, src.repliesSince_of_prefix hfirst (List.prefix_append _ _)]
  refine List.mem_append_right _ ?_
  unfold repliesSince
  rw [List.zipIdx_append, List.drop_left' List.length_zipIdx]
  simp

end Source

/-! ## Answers and where they come from -/

/-- A reply that an error about lengths comes from, where a length is enforced: a vector of another
length, or this very error. -/
def Faults (length expected actual : Nat) : Answer → Prop
  | .ok v => v.length ≠ length ∧ expected = length ∧ actual = v.length
  | .error e => e = .dimensionMismatch expected actual

/-- A vector of another length than the enforced one is a reply for the text, and an error about
lengths comes from one. -/
structure Traced (length : Nat) (replies : List (String × Answer)) (text : String) (a : Answer) :
    Prop where
  vector : ∀ v, a = .ok v → v.length = length ∨ (text, .ok v) ∈ replies
  mismatch : ∀ expected actual, a = .error (.dimensionMismatch expected actual) →
    ∃ reply, (text, reply) ∈ replies ∧ Faults length expected actual reply

namespace Traced

variable {length : Nat} {replies replies' : List (String × Answer)} {text : String} {a : Answer}

theorem mono (h : Traced length replies text a) (hsub : replies ⊆ replies') :
    Traced length replies' text a := by
  refine ⟨fun v hv => (h.vector v hv).imp_right fun hmem => hsub hmem, fun expected actual ha => ?_⟩
  obtain ⟨reply, hmem, hfaults⟩ := h.mismatch expected actual ha
  exact ⟨reply, hsub hmem, hfaults⟩

theorem of_fromRow (h : FromRow length a) : Traced length replies text a := by
  constructor
  · rintro v rfl
    exact Or.inl h
  · rintro expected actual rfl
    exact absurd rfl (h expected actual)

theorem of_reply (h : (text, a) ∈ replies) : Traced length replies text a := by
  constructor
  · rintro v rfl
    exact Or.inr h
  · rintro expected actual rfl
    exact ⟨_, h, rfl⟩

theorem of_refused {outcome : Answer} (h : Traced length replies text outcome)
    (hrefused : (∃ e, outcome = .error e ∧ a = .error e) ∨ ∃ v, outcome = .ok v ∧ v.length ≠ length ∧
      a = .error (.dimensionMismatch length v.length)) : Traced length replies text a := by
  rcases hrefused with ⟨e, rfl, rfl⟩ | ⟨v, rfl, hlength, rfl⟩
  · exact h
  · refine ⟨nofun, fun expected actual heq => ?_⟩
    cases heq
    exact ⟨.ok v, (h.vector v rfl).resolve_left hlength, hlength, rfl, rfl⟩

end Traced

/-! ## Polls -/

/-- A session beside itself, with a uniform cache and the records from some place on. -/
def Kept (length : Nat) (known : List Key) (first : Nat) (s s' : Session) : Prop :=
  s' = s ∧ s.cache.Uniform length known ∧ first ≤ s.log.length

/-- An answer for a text, given what was received before and what the source has replied since. -/
def Source.Accounts (src : Source) (length first : Nat) (received : List (String × Answer))
    (text : String) (log : List CallRecord) : Answer → Prop :=
  Traced length (received ++ src.repliesSince first log) text

section

variable {length first : Nat} {known : List Key} {received : List (String × Answer)} {src : Source}
  {text : String}

theorem respects_kept :
    Respects (Kept length known first) (src.Accounts length first received text) where
  now := by
    rintro s s' ⟨rfl, -⟩
    rfl
  abandon := by
    rintro s s' ⟨rfl, huniform, hfirst⟩ id
    exact ⟨rfl, huniform.finish id, hfirst⟩
  timeout log ms := ⟨nofun, nofun⟩

theorem respectsFlight_kept :
    RespectsFlight (Kept length known first) (src.Accounts length first received text) text where
  begin := by
    rintro s s' ⟨rfl, huniform, hfirst⟩
    obtain ⟨hafter, hanswer⟩ := huniform.begin text
    exact ⟨⟨rfl, hafter, hfirst⟩, rfl, fun a ha => .of_fromRow (hanswer a ha)⟩
  granted := by
    rintro s s' ⟨rfl, -⟩ id
    rfl
  takeUp := by
    rintro s s' ⟨rfl, huniform, hfirst⟩ id
    obtain ⟨hafter, hanswer⟩ := huniform.takeUp id
    exact ⟨⟨rfl, hafter, hfirst⟩, rfl, fun a ha => .of_fromRow (hanswer a ha)⟩
  computed := by
    rintro s s' ⟨rfl, huniform, hfirst⟩ id outcome houtcome
    obtain ⟨hafter, hrefused⟩ := huniform.computed id outcome
    exact ⟨⟨rfl, hafter, hfirst⟩, rfl, fun a ha => houtcome.of_refused (hrefused a ha)⟩
  settle := by
    rintro s s' ⟨rfl, huniform, hfirst⟩ id
    obtain ⟨hafter, hanswer⟩ := huniform.settle id none
    exact ⟨⟨rfl, hafter, hfirst⟩, rfl, fun a ha => .of_fromRow (hanswer a ha)⟩

theorem Source.asked_uniform (hobeys : src.Obeys length) {s : Session}
    (h : s.cache.Uniform length known) (text : String) :
    (src.asked text s).cache.Uniform length known := by
  unfold asked
  cases hrival : (src.reply s.log.length text).rival with
  | none => exact h
  | some cell => exact h.rival text (hobeys _ _ _ hrival)

theorem Provider.respects_kept {p : Provider} (hbase : p.base = src) (hobeys : src.Obeys length) :
    p.Respects (Kept length known first) (src.Accounts length first received text) text := by
  induction p with
  | source src' =>
      cases hbase
      rintro s s' ⟨rfl, huniform, hfirst⟩
      refine Source.start_paired rfl rfl ⟨rfl, Source.asked_uniform hobeys huniform text, ?_⟩ ?_
      · exact hfirst.trans (List.prefix_append _ _).length_le
      · exact .of_reply (List.mem_append_right _ (src'.mem_repliesSince_asked text s' hfirst))
  | resilient inner plan ih => exact ih hbase
  | cached inner ih => exact ⟨ih hbase, respectsFlight_kept⟩

end

/-- What a poll comes to: the cache is uniform, nothing that was recorded is lost, and the answers can
be traced to what was received before and what the source has replied in this poll. -/
structure Accounted (length : Nat) (known : List Key) (src : Source)
    (received : List (String × Answer)) (text : String) (s : Session)
    (after : Session × Progress) : Prop where
  uniform : after.1.cache.Uniform length known
  log : s.log <+: after.1.log
  answers : after.2.All (Traced length (received ++ src.repliesSince s.log.length after.1.log) text)

namespace Provider

variable {p : Provider} {length : Nat} {known : List Key} {received : List (String × Answer)}
  {text : String} {s : Session}

theorem accounted_of_paired {src : Source} {after after' : Session × Progress}
    (h : Paired (Kept length known s.log.length) (src.Accounts length s.log.length received text) s.log
      after after') : Accounted length known src received text s after :=
  ⟨h.related.2.1, h.log, h.answers⟩

theorem accounts_of_received {src : Source} {a : Answer} (h : Traced length received text a) :
    src.Accounts length s.log.length received text s.log a := by
  unfold Source.Accounts
  rwa [src.repliesSince_length, List.append_nil]

theorem start_accounted (hobeys : p.base.Obeys length) (h : s.cache.Uniform length known)
    (received : List (String × Answer)) (text : String) :
    Accounted length known p.base received text s (p.start text s) :=
  accounted_of_paired (p.start_paired NearNotes.respects_kept (respects_kept rfl hobeys)
    ⟨rfl, h, Nat.le_refl _⟩)

theorem resume_accounted (hobeys : p.base.Obeys length) (h : s.cache.Uniform length known)
    {work : Work} (hall : work.All (Traced length received text)) :
    Accounted length known p.base received text s (p.resume text work s) :=
  accounted_of_paired (p.resume_paired NearNotes.respects_kept (respects_kept rfl hobeys) work
    ⟨rfl, h, Nat.le_refl _⟩ (hall.mono fun _ => accounts_of_received))

theorem fetch_accounted (hobeys : p.base.Obeys length) (h : s.cache.Uniform length known)
    {work : Option Work} (hall : ∀ rest, work = some rest → rest.All (Traced length received text)) :
    Accounted length known p.base received text s (p.fetch text work s).after :=
  accounted_of_paired (p.fetch_paired NearNotes.respects_kept (respects_kept rfl hobeys)
    respectsFlight_kept ⟨rfl, h, Nat.le_refl _⟩
    fun rest hrest => (hall rest hrest).mono fun _ => accounts_of_received).polls

end Provider

/-! ## Vectors out of the cache -/

namespace FlightPoll

variable {compute : Session → Session × Progress} {goOn : Work → Session → Session × Progress}
  {length : Nat} {known : List Key} {s : Session}

/-- A poll that ends with a vector ends with one of the length. -/
def Measured (length : Nat) (poll : FlightPoll) : Prop :=
  ∀ v, poll.progress = .done (.ok v) → v.length = length

theorem measured_of_fromRow {a : Answer} (h : FromRow length a) (started : Bool) :
    Measured length ⟨s, .done a, started⟩ := by
  intro v hv
  cases hv
  exact h

theorem onProgress_measured (h : s.cache.Uniform length known) (id : CallId) (started : Bool)
    (progress : Progress) : (onProgress id s started progress).Measured length := by
  cases progress with
  | pending work => exact nofun
  | done outcome =>
      obtain ⟨hafter, hrefused⟩ := h.computed id outcome
      simp only [onProgress]
      generalize s.cache.computed id outcome = landed at hafter hrefused ⊢
      obtain ⟨c, answer⟩ := landed
      cases answer with
      | some a =>
          intro v hv
          cases hv
          rcases hrefused _ rfl with ⟨e, -, heq⟩ | ⟨w, -, -, heq⟩
          · cases heq
          · cases heq
      | none =>
          obtain ⟨-, hanswer⟩ := hafter.settle id none
          simp only
          generalize c.settle id = settled at hanswer ⊢
          obtain ⟨c', answer⟩ := settled
          cases answer with
          | some a => exact measured_of_fromRow (hanswer a rfl) started
          | none =>
              intro v hv
              cases hv

theorem onTurn_measured
    (hcompute : ∀ {s : Session}, s.cache.Uniform length known →
      (compute s).1.cache.Uniform length known)
    (h : s.cache.Uniform length known) (id : CallId) : (onTurn compute id s).Measured length := by
  unfold onTurn
  split
  · obtain ⟨hafter, hanswer⟩ := h.takeUp id
    generalize s.cache.takeUp id = taken at hafter hanswer ⊢
    obtain ⟨c, answer⟩ := taken
    cases answer with
    | some a => exact measured_of_fromRow (hanswer a rfl) false
    | none => exact onProgress_measured (hcompute (s := { s with cache := c }) hafter) id true _
  · exact nofun

theorem start_measured
    (hcompute : ∀ {s : Session}, s.cache.Uniform length known →
      (compute s).1.cache.Uniform length known)
    (h : s.cache.Uniform length known) (text : String) : (start compute text s).Measured length := by
  obtain ⟨hafter, hanswer⟩ := h.begin text
  unfold start
  generalize s.cache.begin text = begun at hafter hanswer ⊢
  obtain ⟨c, a | id⟩ := begun
  · exact measured_of_fromRow (hanswer a rfl) false
  · exact onTurn_measured hcompute (s := { s with cache := c }) hafter id

theorem resume_measured {work : Work}
    (hcompute : ∀ {s : Session}, s.cache.Uniform length known →
      (compute s).1.cache.Uniform length known)
    (hgoOn : ∀ id rest, work = .compute id rest → (goOn rest s).1.cache.Uniform length known)
    (h : s.cache.Uniform length known) : (resume compute goOn work s).Measured length := by
  unfold resume
  split
  · exact onTurn_measured hcompute h _
  · exact onProgress_measured (hgoOn _ _ rfl) _ false _
  · exact nofun

end FlightPoll

/-- **A poll through the cache** that ends with a vector ends with one of the length. -/
theorem Provider.fetch_measured {p : Provider} {length : Nat} {known : List Key}
    (hobeys : p.base.Obeys length) {s : Session} (h : s.cache.Uniform length known)
    {received : List (String × Answer)} {text : String} {work : Option Work}
    (hall : ∀ rest, work = some rest → rest.All (Traced length received text)) :
    (p.fetch text work s).Measured length := by
  have hstart : ∀ {s : Session}, s.cache.Uniform length known →
      (p.start text s).1.cache.Uniform length known :=
    fun h => (p.start_accounted hobeys h [] text).uniform
  cases work with
  | none => exact FlightPoll.start_measured hstart h text
  | some work =>
      refine FlightPoll.resume_measured hstart (fun id rest hrest => ?_) h
      cases hrest
      have hgoes : rest.All (Traced length received text) := hall (.compute id rest) rfl
      exact (p.resume_accounted hobeys h hgoes).uniform

end NearNotes
