import Mathlib
import NearNotes.Proofs.Contents
import NearNotes.Proofs.Population.Outcome
import NearNotes.Proofs.Population.Traffic

/-!
# A length is kept

Where a cache enforces a length and held vectors of this length only when it was opened, it does so
ever after, and gives out no others. A run or a ranking that fails for a length has been given the
reason by its provider's source.

* `Uniform.length_of_contents`, `Uniform.contents_error`, `Uniform.report_error`,
  `Pipeline.rank_of_uniform` : what is read and made of vectors of one length;
* `Blames` : a reply that an error about lengths comes from, for one of some texts;
* `Window.Sourced` : what is in a window can be traced to replies; `Sourced.poll`, `Sourced.step`,
  `Sourced.path` : polls, steps and paths keep it so;
* `Job.Plan.Tolerates`, `Job.warranted`, `Job.finish_endsWell` : jobs that add no such error of their
  own;
* `Traffic.Keeps`, `Keeps.step`, `Keeps.leads` : windows and calls that go on beside each other;
* `Pipeline.dimension_is_kept` : from an opened database on.
-/

namespace NearNotes

open Cache

/-! ## Reading all rows -/

namespace Cache

variable {c : Cache} {length : Nat} {known : List Key}

theorem Uniform.length_of_contents (h : c.Uniform length known) {entries : List Entry}
    (hentries : c.contents = .ok entries) : ∀ e ∈ entries, e.embedding.length = length := by
  intro e he
  obtain ⟨i, hi, rfl⟩ := List.getElem_of_mem he
  have hspells := spells_contents hentries
  have hrow : i < c.database.rows.length := hspells.length_eq ▸ hi
  obtain ⟨v, hv, hlength⟩ := (h.rows _ (List.getElem_mem hrow)).cell
  have hvector := (hspells.get hrow hi).vector
  rw [List.get_eq_getElem, hv] at hvector
  cases hvector
  exact hlength

theorem Uniform.exists_corpus (h : c.Uniform length known) {entries : List Entry}
    (hentries : c.contents = .ok entries) :
    ∃ corpus, Corpus.ofList (entries.map Entry.embedding) = .ok corpus :=
  Corpus.ofList_of_uniform (by simpa using h.length_of_contents hentries)

theorem Uniform.exists_contents (h : c.Uniform length known)
    (hkeys : ∀ row ∈ c.database.rows, ∃ text, row.key = .text text) :
    ∃ entries, c.contents = .ok entries := by
  obtain ⟨t, htable⟩ := Option.isSome_iff_exists.mp h.table
  refine (contents_isOk_iff htable).mpr fun row hrow => ?_
  rw [← Database.rows_of_table htable] at hrow
  obtain ⟨text, htext⟩ := hkeys row hrow
  obtain ⟨v, hv, -⟩ := (h.rows row hrow).cell
  exact ⟨⟨text, v⟩, htext, hv⟩

theorem Uniform.contents_error (h : c.Uniform length known) {e : EmbedError}
    (herror : c.contents = .error e) : ∃ reason, e = .storage reason := by
  obtain ⟨t, htable⟩ := Option.isSome_iff_exists.mp h.table
  have hmisfit : ∃ row ∈ t.rows, row.Misfit := by
    by_contra hfits
    push Not at hfits
    obtain ⟨entries, hentries⟩ := h.exists_contents fun row hrow => by
      rw [Database.rows_of_table htable] at hrow
      obtain ⟨text, -, htext, -⟩ := Row.fitting_of_not_misfit (hfits row hrow)
      exact ⟨text, htext⟩
    rw [herror] at hentries
    cases hentries
  obtain ⟨reason, hreason⟩ := contents_of_misfit htable hmisfit
  rw [herror] at hreason
  exact ⟨reason, Except.error.inj hreason⟩

theorem Uniform.report_error (h : c.Uniform length known) {p : Pipeline} {sections : List Section}
    {computed : Nat} {e : EmbedError} (herror : p.report sections computed c = .error e) :
    ∃ reason, e = .storage reason := by
  cases hcontents : c.contents with
  | ok entries =>
      obtain ⟨report, hreport, -⟩ :=
        p.report_of_uniform hcontents (h.length_of_contents hcontents) sections computed
      rw [herror] at hreport
      cases hreport
  | error e' =>
      unfold Pipeline.report at herror
      rw [hcontents] at herror
      cases herror
      exact h.contents_error hcontents

/-- All that a cache holds and gives out are vectors of one length. -/
structure OfLength (length : Nat) (c : Cache) : Prop where
  rows : ∀ row ∈ c.database.rows, row.cell.OfLength length
  read : ∀ text v, c.read text = .ok (some v) → v.length = length
  corpus : ∀ entries, c.contents = .ok entries →
    ∃ corpus, Corpus.ofList (entries.map Entry.embedding) = .ok corpus

theorem Uniform.ofLength (h : c.Uniform length known) : c.OfLength length where
  rows row hrow := (h.rows row hrow).cell
  read _ _ := h.read_ok
  corpus _ := h.exists_corpus

theorem Uniform.cancel {s : Session} (h : s.cache.Uniform length known) (work : Work) :
    (work.cancel s).cache.Uniform length known := by
  induction work with
  | answer | pause => exact h
  | attempt limit retry work ih => exact ih
  | line id => exact h.finish id
  | compute id work ih => exact ih.finish id

end Cache

/-! ## Ranking -/

namespace Pipeline

/-- The section that contains a byte is one of the sections. -/
theorem sectionAt?_lt {sections : List Section} {offset chosen : Nat}
    (h : sectionAt? sections offset = some chosen) : chosen < sections.length := by
  obtain ⟨found, hfound, rfl⟩ := Option.map_eq_some_iff.mp h
  exact List.snd_lt_of_mem_zipIdx (List.mem_reverse.mp (List.mem_of_find?_eq_some hfound))

theorem sectionAt?_eq_none_iff {sections : List Section} {offset : Nat} :
    sectionAt? sections offset = none ↔ sections.any (·.contains offset) = false := by
  rw [sectionAt?, Option.map_eq_none_iff, List.find?_eq_none, List.any_eq_false]
  constructor
  · intro h part hpart
    obtain ⟨i, hi, rfl⟩ := List.mem_iff_getElem.mp hpart
    have hmem : (sections[i], i) ∈ sections.zipIdx :=
      List.mk_mem_zipIdx_iff_getElem?.mpr (List.getElem?_eq_getElem hi)
    exact h (sections[i], i) (List.mem_reverse.mpr hmem)
  · rintro h ⟨part, i⟩ hpart
    exact h part (List.fst_mem_of_mem_zipIdx (List.mem_reverse.mp hpart))

theorem rank_of_uniform {vectors : List Embedding} {length chosen : Nat}
    (hlength : ∀ v ∈ vectors, v.length = length) (hchosen : chosen < vectors.length)
    (sections : List Section) (k : Nat) : ∃ ranked, rank sections vectors chosen k = .ok ranked := by
  obtain ⟨corpus, hcorpus⟩ := Corpus.ofList_of_uniform hlength
  have hquery : (vectors.getD chosen []).length = corpus.dimension := by
    rw [List.getD_eq_getElem _ _ hchosen]
    refine corpus.uniform _ ?_
    rw [Corpus.vectors_of_ofList hcorpus]
    exact List.getElem_mem hchosen
  unfold rank
  simp only [hcorpus, bind, Except.bind, Corpus.nearest_eq hquery]
  exact ⟨_, rfl⟩

end Pipeline

/-! ## Windows -/

/-- For one of the texts there is a reply that an error about lengths comes from. -/
def Blames (length : Nat) (replies : List (String × Answer)) (texts : List String)
    (expected actual : Nat) : Prop :=
  ∃ text ∈ texts, ∃ reply, (text, reply) ∈ replies ∧ Faults length expected actual reply

namespace Window

variable {w : Window} {s : Session} {length : Nat} {known : List Key}
  {received replies : List (String × Answer)}

/-- What positions are given can be traced to replies. They are given vectors of the length only. -/
structure Sourced (length : Nat) (replies : List (String × Answer)) (w : Window) : Prop where
  active : ∀ a ∈ w.active, a.position < w.texts.length ∧
    ∀ work, a.work = some work → work.All (Traced length replies (w.textAt a.position))
  finished : ∀ position answer, (position, answer) ∈ w.finished → position < w.texts.length ∧
    Traced length replies (w.textAt position) answer ∧ ∀ v, answer = .ok v → v.length = length
  handedOver : ∀ v ∈ w.handedOver, v.length = length
  failure : ∀ expected actual, w.failure = some (.dimensionMismatch expected actual) →
    Blames length replies w.texts expected actual

theorem Sourced.mono (h : w.Sourced length received) (hsub : received ⊆ replies) :
    w.Sourced length replies := by
  refine ⟨fun a ha => ?_, fun position answer hmem => ?_, h.handedOver, fun expected actual he => ?_⟩
  · obtain ⟨hposition, hwork⟩ := h.active a ha
    exact ⟨hposition, fun work hsome => (hwork work hsome).mono fun _ htraced => htraced.mono hsub⟩
  · obtain ⟨hposition, htraced, hlength⟩ := h.finished position answer hmem
    exact ⟨hposition, htraced.mono hsub, hlength⟩
  · obtain ⟨text, htext, reply, hreply, hfaults⟩ := h.failure expected actual he
    exact ⟨text, htext, reply, hsub hreply, hfaults⟩

theorem Sourced.length_of_given (h : w.Sourced length replies) {v : Embedding}
    (hv : v ∈ w.handedOver ∨ ∃ position, (position, .ok v) ∈ w.finished) : v.length = length := by
  rcases hv with hhanded | ⟨position, hfinished⟩
  · exact h.handedOver v hhanded
  · exact (h.finished position _ hfinished).2.2 v rfl

theorem sourced_of_new (hactive : w.active = []) (hfinished : w.finished = [])
    (hhanded : w.handedOver = []) (hfailure : w.failure = none) : w.Sourced length replies := by
  constructor
  · rw [hactive]
    exact nofun
  · rw [hfinished]
    exact nofun
  · rw [hhanded]
    exact nofun
  · rw [hfailure]
    exact nofun

theorem Sourced.wake (h : w.Sourced length replies) (s : Session) :
    (w.wake s).Sourced length replies := ⟨h.active, h.finished, h.handedOver, h.failure⟩

theorem Sourced.fill (h : w.Sourced length replies) : w.fill.Sourced length replies := by
  refine ⟨fun a ha => ?_, h.finished, h.handedOver, h.failure⟩
  rcases List.mem_append.mp ha with hold | hnew
  · exact h.active a hold
  · obtain ⟨position, hjoins, rfl⟩ := List.mem_map.mp hnew
    have hbound := List.mem_range'_1.mp hjoins
    refine ⟨?_, nofun⟩
    show position < w.texts.length
    omega

/-- What a window comes to: the cache is uniform, nothing that was recorded is lost, and what
positions are given can be traced to what was received before and the replies since. -/
structure Accounted (length : Nat) (known : List Key) (received : List (String × Answer))
    (w : Window) (s : Session) (after : Window × Session) : Prop where
  uniform : after.2.cache.Uniform length known
  log : s.log <+: after.2.log
  sourced : after.1.Sourced length
    (received ++ w.provider.base.repliesSince s.log.length after.2.log)

theorem accounted_of_log {w' : Window} {s' : Session} (hcache : s'.cache.Uniform length known)
    (hlog : s'.log = s.log) (h : w'.Sourced length received) :
    Accounted length known received w s (w', s') := by
  refine ⟨hcache, hlog ▸ List.prefix_refl _, ?_⟩
  rwa [hlog, Source.repliesSince_length, List.append_nil]

theorem Accounted.trans {w₁ w₂ : Window} {s₁ s₂ : Session}
    (h : Accounted length known received w s (w₁, s₁)) (hprovider : w₁.provider = w.provider)
    (h' : Accounted length known (received ++ w.provider.base.repliesSince s.log.length s₁.log)
      w₁ s₁ (w₂, s₂)) : Accounted length known received w s (w₂, s₂) := by
  refine ⟨h'.uniform, h.log.trans h'.log, ?_⟩
  have hreplies := w.provider.base.repliesSince_of_prefix h.log.length_le h'.log
  have hsourced := h'.sourced
  rwa [hprovider, List.append_assoc, ← hreplies] at hsourced

theorem cancelAll_uniform (w : Window) (h : s.cache.Uniform length known) :
    (w.cancelAll s).cache.Uniform length known :=
  w.cancelAll_keeps (P := fun s => s.cache.Uniform length known) (fun work _ h => h.cancel work) h

theorem Sourced.poll (h : w.Sourced length received) {a : Active} (ha : a ∈ w.active)
    (hobeys : w.provider.base.Obeys length) (hcache : s.cache.Uniform length known) :
    Accounted length known received w s (w.poll a s) := by
  obtain ⟨hposition, hwork⟩ := h.active a ha
  have hpoll := Provider.fetch_accounted hobeys hcache hwork
  have hmeasured := Provider.fetch_measured hobeys hcache hwork
  have hsession := w.session_poll a s
  refine ⟨hsession ▸ hpoll.uniform, hsession ▸ hpoll.log, ?_⟩
  have hafter := h.mono (List.subset_append_left received
    (w.provider.base.repliesSince s.log.length (w.polled a s).session.log))
  have hanswers := hpoll.answers
  rw [hsession]
  cases hprogress : (w.polled a s).progress with
  | pending work =>
      rw [poll_of_pending hprogress]
      refine ⟨fun b hb => ?_, hafter.finished, hafter.handedOver, hafter.failure⟩
      obtain ⟨old, hold, rfl⟩ := List.mem_map.mp hb
      by_cases hsame : old.position = a.position
      · rw [if_pos (by simpa using hsame)]
        refine ⟨(hafter.active old hold).1, fun work' hwork' => ?_⟩
        cases hwork'
        show Work.All (Traced length _ (w.textAt old.position)) work
        rw [hsame]
        show Progress.All _ (.pending work)
        rw [← hprogress]
        exact hanswers
      · rw [if_neg (by simpa using hsame)]
        exact hafter.active old hold
  | done answer =>
      rw [poll_of_done hprogress]
      refine ⟨fun b hb => hafter.active b (List.mem_filter.mp hb).1, fun position answer' hmem => ?_,
        hafter.handedOver, hafter.failure⟩
      rcases List.mem_append.mp hmem with hold | hlast
      · exact hafter.finished position answer' hold
      · cases List.mem_singleton.mp hlast
        refine ⟨hposition, ?_, fun v hv => hmeasured v (hprogress.trans (congrArg _ hv))⟩
        show Progress.All _ (.done answer)
        rw [← hprogress]
        exact hanswers

/-- **A step** adds no error about lengths that does not come from a reply. -/
theorem Sourced.step (h : w.Sourced length received) (hobeys : w.provider.base.Obeys length)
    (hcache : s.cache.Uniform length known) {after : Window × Session}
    (hstep : w.step? s = some after) : Accounted length known received w s after := by
  have hfilled := (h.wake s).fill
  cases (step?_eq_some hstep).2 with
  | @handsOver v found =>
      refine accounted_of_log hcache rfl
        ⟨hfilled.active, fun position answer hmem => ?_, fun v' hv => ?_, hfilled.failure⟩
      · exact hfilled.finished position answer (List.mem_filter.mp hmem).1
      · rcases List.mem_append.mp hv with hold | hlast
        · exact h.handedOver v' hold
        · rw [List.mem_singleton.mp hlast]
          exact (hfilled.finished _ _ found).2.2 v rfl
  | @fails e found =>
      refine accounted_of_log (cancelAll_uniform _ hcache) (log_cancelAll _ _)
        ⟨nofun, nofun, hfilled.handedOver, fun expected actual he => ?_⟩
      obtain ⟨hposition, htraced, -⟩ := hfilled.finished _ _ found
      cases he
      obtain ⟨reply, hreply, hfaults⟩ := htraced.mismatch expected actual rfl
      exact ⟨_, textAt_mem hposition, reply, hreply, hfaults⟩
  | @polls a rest _ _ known =>
      have hready : Sourced length received { (w.wake s).fill with ready := rest } :=
        ⟨hfilled.active, hfilled.finished, hfilled.handedOver, hfilled.failure⟩
      obtain ⟨huniform, hlog, hsourced⟩ := hready.poll known hobeys hcache
      exact ⟨huniform, hlog, hsourced⟩
  | skips =>
      exact accounted_of_log hcache rfl
        ⟨hfilled.active, hfilled.finished, hfilled.handedOver, hfilled.failure⟩

/-- **So does no path.** -/
theorem Sourced.path (h : w.Sourced length received) {m : Nat} {w' : Window} {s' : Session}
    (hpath : Path m w s w' s') (hobeys : w.provider.base.Obeys length)
    (hcache : s.cache.Uniform length known) : Accounted length known received w s (w', s') := by
  induction hpath generalizing received with
  | refl w s => exact accounted_of_log hcache rfl h
  | step taken _ ih =>
      have hfirst := h.step hobeys hcache taken
      have hprovider := (step?_keeps taken).2
      exact hfirst.trans hprovider
        (ih hfirst.sourced (hprovider ▸ hobeys) hfirst.uniform)
  | wait _ _ _ _ ih =>
      obtain ⟨huniform, hlog, hsourced⟩ := ih h hobeys hcache
      exact ⟨huniform, hlog, hsourced⟩

end Window

/-! ## Jobs -/

/-- If a result is an error about lengths, it comes from a reply for one of the texts. -/
def Warranted {α : Type} (length : Nat) (replies : List (String × Answer)) (texts : List String)
    (result : Option (Except RunError α)) : Prop :=
  ∀ expected actual, result = some (.error (.embedding (.dimensionMismatch expected actual))) →
    Blames length replies texts expected actual

namespace Job

variable {α : Type} {length : Nat} {known : List Key} {replies : List (String × Answer)} {s : Session}

def Plan.Tolerates (length : Nat) (known : List Key) (plan : Plan α) : Prop :=
  ∀ vectors computed c, (∀ v ∈ vectors, v.length = length) → vectors.length = plan.texts.length →
    c.Uniform length known → ∀ expected actual,
      plan.conclude vectors computed c ≠ .error (.embedding (.dimensionMismatch expected actual))

theorem warranted {job : Job α} (hjob : job.plan.Tolerates length known) {w : Window}
    (htexts : w.texts = job.window.texts) (hw : w.Sourced length replies) {c : Cache}
    (hcache : c.Uniform length known) : Warranted length replies w.texts (job.resultOf w c) := by
  intro expected actual hresult
  unfold resultOf at hresult
  split at hresult
  · rename_i e hfailure
    cases hresult
    exact hw.failure expected actual hfailure
  · rename_i hfailure
    split at hresult
    · rename_i hover
      have hnext : w.handedOver.length = w.texts.length := by
        simpa [Window.isOver, hfailure, Window.next] using hover
      exact absurd (Option.some.inj hresult)
        (hjob _ _ _ hw.handedOver (hnext.trans (congrArg List.length htexts)) hcache expected actual)
    · cases hresult

/-- A job that is finished alone goes along a path of its window, and a result is that of the place
that it comes to. -/
theorem path_of_finish {job : Job α} (h : job.result = none) (s : Session) :
    ∃ m w', Window.Path m job.window s w' (finish [job] s).1 ∧
      ∀ result, (finish [job] s).2.head?.join = some result →
        job.resultOf w' (finish [job] s).1.cache = some result := by
  obtain ⟨job', m, hjob, hpath, hresult⟩ := passes_path h (2 * (job.window.steps + 1) + 1) s
  rw [finish_singleton, hjob]
  refine ⟨m, job'.window, hpath, fun result hsome => ?_⟩
  have hsome : job'.result = some result := hsome
  rcases hresult with hnone | hplace
  · rw [hnone] at hsome
    cases hsome
  · exact hplace.symm.trans hsome

/-- What a job that is alone comes to: the cache holds vectors of the length, and the result can be
traced to what the source has replied since. -/
structure EndsWell (length : Nat) (src : Source) (texts : List String) (s : Session)
    (after : Session × Option (Except RunError α)) : Prop where
  cache : after.1.cache.OfLength length
  warranted : Warranted length (src.repliesSince s.log.length after.1.log) texts after.2

theorem finish_endsWell {job : Job α} (hresult : job.result = none)
    (hjob : job.plan.Tolerates length known) (hobeys : job.window.provider.base.Obeys length)
    (hnew : job.window.Sourced length []) (hcache : s.cache.Uniform length known) :
    EndsWell length job.window.provider.base job.window.texts s
      ((finish [job] s).1, (finish [job] s).2.head?.join) := by
  obtain ⟨m, w', hpath, hplace⟩ := path_of_finish hresult s
  have hafter := hnew.path hpath hobeys hcache
  have htexts := hpath.keeps.1
  refine ⟨hafter.uniform.ofLength, fun expected actual hsome => ?_⟩
  have hwarranted := warranted hjob htexts hafter.sourced hafter.uniform expected actual
    (hplace _ hsome)
  rwa [htexts] at hwarranted

end Job

namespace Pipeline

variable {p : Pipeline} {document : String} {length : Nat} {known : List Key}

/-- A ranking by the distances to a chosen section. -/
def rankJob (p : Pipeline) (document : String) (chosen k : Nat) : Job (List RankedSection) where
  window := p.window (p.splitter.sections document)
  conclude vectors _ _ :=
    (rank (p.splitter.sections document) vectors chosen k).mapError .embedding

theorem ranking_eq_finish {offset chosen : Nat}
    (h : sectionAt? (p.splitter.sections document) offset = some chosen) (k : Nat) (s : Session) :
    p.ranking document offset k s = ((Job.finish [p.rankJob document chosen k] s).1,
      (Job.finish [p.rankJob document chosen k] s).2.head?.join) := by
  simp only [ranking, h]
  rfl

theorem runJob_tolerates (p : Pipeline) (document : String) (length : Nat) (known : List Key) :
    (p.runJob document).plan.Tolerates length known := by
  intro vectors computed c _ _ hcache expected actual hconclude
  have hconclude : (p.report (p.splitter.sections document) computed c).mapError RunError.embedding =
      .error (.embedding (.dimensionMismatch expected actual)) := hconclude
  cases hreport : p.report (p.splitter.sections document) computed c with
  | ok report =>
      rw [hreport] at hconclude
      cases hconclude
  | error e =>
      rw [hreport] at hconclude
      obtain ⟨reason, rfl⟩ := hcache.report_error hreport
      cases hconclude

theorem rankJob_tolerates {offset chosen : Nat}
    (h : sectionAt? (p.splitter.sections document) offset = some chosen) (k : Nat) :
    (p.rankJob document chosen k).plan.Tolerates length known := by
  intro vectors computed c hlength hall _ expected actual hconclude
  have hchosen : chosen < vectors.length := by
    rw [hall]
    simpa [Job.plan, rankJob, window] using sectionAt?_lt h
  obtain ⟨ranked, hranked⟩ := rank_of_uniform hlength hchosen (p.splitter.sections document) k
  have hconclude : (rank (p.splitter.sections document) vectors chosen k).mapError
      RunError.embedding = .error (.embedding (.dimensionMismatch expected actual)) := hconclude
  rw [hranked] at hconclude
  cases hconclude

theorem run_endsWell (hobeys : p.provider.base.Obeys length) {s : Session}
    (hcache : s.cache.Uniform length known) (document : String) :
    Job.EndsWell length p.provider.base (p.sectionTexts document) s (p.run document s) :=
  Job.finish_endsWell rfl (p.runJob_tolerates document length known) hobeys
    (Window.sourced_of_new rfl rfl rfl rfl) hcache

theorem ranking_endsWell (hobeys : p.provider.base.Obeys length) {s : Session}
    (hcache : s.cache.Uniform length known) (document : String) (offset k : Nat) :
    Job.EndsWell length p.provider.base (p.sectionTexts document) s
      (p.ranking document offset k s) := by
  cases hchosen : sectionAt? (p.splitter.sections document) offset with
  | none =>
      simp only [ranking, hchosen]
      refine ⟨hcache.ofLength, fun _ _ h => ?_⟩
      cases h
  | some chosen =>
      rw [ranking_eq_finish hchosen]
      exact Job.finish_endsWell rfl (rankJob_tolerates hchosen k) hobeys
        (Window.sourced_of_new rfl rfl rfl rfl) hcache

end Pipeline

/-! ## Traffic -/

namespace Activity

variable {a a' : Activity} {s s' : Session} {length : Nat} {known : List Key}
  {received : List (String × Answer)}

/-- Other writers that the source lets in first keep to the length. -/
def Obeys (length : Nat) (a : Activity) : Prop := a.provider.base.Obeys length

/-- What was given can be traced to replies. Calls through the cache are answered with vectors of the
length only. -/
def Sourced (length : Nat) (replies : List (String × Answer)) : Activity → Prop
  | run w => w.Sourced length replies
  | call p text progress => ∀ reached, progress = some reached →
      reached.All (Traced length replies text) ∧
        ∀ inner v, p = .cached inner → reached = .done (.ok v) → v.length = length

theorem Sourced.go (h : a.Sourced length received) (hobeys : a.Obeys length)
    (hcache : s.cache.Uniform length known) (hgo : a.go s = some (a', s')) :
    s'.cache.Uniform length known ∧
      a'.Sourced length (received ++ a.provider.base.repliesSince s.log.length s'.log) := by
  cases a with
  | run w =>
      obtain ⟨after, hstep, heq⟩ := Option.map_eq_some_iff.mp hgo
      cases heq
      have hafter := Window.Sourced.step h hobeys hcache hstep
      exact ⟨hafter.uniform, hafter.sourced⟩
  | call p text progress =>
      match progress with
      | none =>
          cases hgo
          have hpoll := p.start_accounted hobeys hcache received text
          refine ⟨hpoll.uniform, fun reached hreached => ?_⟩
          cases hreached
          refine ⟨hpoll.answers, fun inner v hp hv => ?_⟩
          subst hp
          have hnone : ∀ rest, none = some rest → Work.All (Traced length received text) rest := nofun
          exact Provider.fetch_measured (p := inner) hobeys hcache hnone v hv
      | some (.pending work) =>
          cases hgo
          have hall : ∀ rest, some work = some rest → rest.All (Traced length received text) := by
            rintro rest ⟨⟩
            exact (h _ rfl).1
          have hpoll := p.resume_accounted hobeys hcache (hall work rfl)
          refine ⟨hpoll.uniform, fun reached hreached => ?_⟩
          cases hreached
          refine ⟨hpoll.answers, fun inner v hp hv => ?_⟩
          subst hp
          exact Provider.fetch_measured (p := inner) hobeys hcache hall v hv
      | some (.done answer) => cases hgo

theorem drop_uniform (a : Activity) (h : s.cache.Uniform length known) :
    (a.drop s).cache.Uniform length known := by
  cases a with
  | run w => exact w.cancelAll_uniform h
  | call p text progress =>
      match progress with
      | none => exact h
      | some (.pending work) => exact h.cancel work
      | some (.done answer) => exact h

theorem IsNew.sourced (h : a.IsNew) (length : Nat) (replies : List (String × Answer)) :
    a.Sourced length replies := by
  cases h with
  | run => exact Window.sourced_of_new rfl rfl rfl rfl
  | call => exact nofun

end Activity

/-- What else may happen to a cache: any event with which others keep to the length, or the table is
made sure of. -/
inductive Cache.Operates (length : Nat) (c : Cache) : Cache → Prop
  | event {event : Event} (obeys : event.Obeys length) : Operates length c (c.apply event)
  | prepare {c' : Cache} (prepared : c.prepare = .ok c') : Operates length c c'

/-- What the party was given can be traced to the replies of its source. -/
structure Party.Honest (length : Nat) (party : Party) : Prop where
  obeys : party.activity.Obeys length
  sourced : party.activity.Sourced length party.replies

namespace Traffic

variable {t t' : Traffic} {length : Nat} {known : List Key}

structure Keeps (length : Nat) (known : List Key) (t : Traffic) : Prop where
  uniform : t.session.cache.Uniform length known
  parties : ∀ party ∈ t.parties, party.Honest length

/-- **Every step of traffic** keeps the length. -/
theorem Keeps.step (h : t.Keeps length known)
    (hstep : Step (Activity.Obeys length) (Cache.Operates length) t t') : t'.Keeps length known := by
  cases hstep with
  | comes new admitted =>
      refine ⟨h.uniform, fun party hparty => ?_⟩
      rcases List.mem_append.mp hparty with hold | hlast
      · exact h.parties party hold
      · rw [List.mem_singleton.mp hlast]
        exact ⟨admitted, new.sourced length []⟩
  | @goes s s' before after gone party a on =>
      obtain ⟨huniform, hparties⟩ := h
      obtain ⟨hobeys, hsourced⟩ := hparties party (mem_middle.mpr (Or.inl rfl))
      obtain ⟨hafter, hgone⟩ := hsourced.go hobeys huniform on
      refine ⟨hafter, fun other hother => ?_⟩
      rcases mem_middle.mp hother with rfl | hmem
      · refine ⟨?_, hgone⟩
        show a.provider.base.Obeys length
        rw [Activity.provider_go on]
        exact hobeys
      · exact hparties other (mem_middle.mpr (Or.inr hmem))
  | @leaves s before after gone party =>
      exact ⟨party.activity.drop_uniform h.uniform, fun other hother =>
        h.parties other (mem_middle.mpr (Or.inr hother))⟩
  | happens other =>
      refine ⟨?_, h.parties⟩
      cases other with
      | event obeys => exact h.uniform.apply obeys
      | prepare prepared => exact h.uniform.prepare prepared
  | waits later => exact ⟨h.uniform, h.parties⟩

/-- **So does all traffic.** -/
theorem Keeps.leads (h : t.Keeps length known)
    (hleads : Leads (Activity.Obeys length) (Cache.Operates length) t t') : t'.Keeps length known := by
  induction hleads with
  | refl => exact h
  | tail _ hstep ih => exact ih.step hstep

end Traffic

/-! ## A cache that was just opened -/

namespace Cache

theorem uniform_of_openOn {db : Database} {opened : Cache} (h : openOn db = .ok opened) {length : Nat}
    (hshort : length < 2 ^ 32) (hrows : ∀ row ∈ opened.database.rows, row.cell.OfLength length) :
    (opened.enforcing length).Uniform length (opened.database.rows.map Row.key) := by
  obtain ⟨db', hprepare, heq⟩ := bind_eq_ok_iff.mp h
  cases heq
  refine ⟨hshort, rfl, (Database.rows_of_prepare hprepare).1, fun row hrow => ?_, nofun⟩
  exact ⟨hrows row hrow, Or.inl (List.mem_map_of_mem hrow)⟩

theorem Uniform.keys {c : Cache} {length : Nat} {known : List Key} (h : c.Uniform length known)
    (hknown : ∀ key ∈ known, ∃ text, key = .text text) :
    ∀ row ∈ c.database.rows, ∃ text, row.key = .text text := by
  intro row hrow
  rcases (h.rows row hrow).key with hold | hnew
  · exact hknown row.key hold
  · exact hnew

end Cache

namespace Pipeline

/-- **A dimension is kept.** Open a database whose rows hold vectors of one length, as those of an
empty one do, and let the cache enforce this length. Then any runs, rankings and calls may go on
beside each other on any providers, be dropped wherever they stand, and others may use the cache, or
store vectors of the length in the database by themselves.

Wherever this leads, and after every history that goes on from there, the rows hold vectors of the
length and nothing else is read or answered, so that a corpus can be made of all rows; these can be
read if the keys at first were texts. Calls through the cache, and the sections of runs, are given
vectors of the length only. If a run or a ranking fails for a length, be it beside others or alone,
then the source of its provider has replied to one of its sections with a vector of another length, or
with this very error. -/
theorem dimension_is_kept {db : Database} {opened : Cache} (hopen : openOn db = .ok opened)
    {length : Nat} (hshort : length < 2 ^ 32)
    (hrows : ∀ row ∈ opened.database.rows, row.cell.OfLength length) {now : Moment}
    {log : List CallRecord} {t : Traffic}
    (hleads : Traffic.Leads (Activity.Obeys length) (Cache.Operates length)
      { session := ⟨now, opened.enforcing length, log⟩ } t) :
    (∀ history : List Event, (∀ event ∈ history, event.Obeys length) →
      (t.session.cache.run history).OfLength length ∧
      ∀ moment text v, t.session.cache.answerAt history moment = some (text, .ok v) →
        v.length = length) ∧
    ((∀ row ∈ opened.database.rows, ∃ text, row.key = .text text) →
      ∃ entries, t.session.cache.contents = .ok entries) ∧
    (∀ party ∈ t.parties,
      (∀ inner text v, party.activity = .call (.cached inner) text (some (.done (.ok v))) →
        v.length = length) ∧
      ∀ w, party.activity = .run w →
        (∀ v, (v ∈ w.handedOver ∨ ∃ position, (position, .ok v) ∈ w.finished) → v.length = length) ∧
        ∀ (p : Pipeline) document, w.texts = p.sectionTexts document →
          Warranted length party.replies w.texts
            ((p.runJob document).resultOf w t.session.cache) ∧
          ∀ offset chosen k, sectionAt? (p.splitter.sections document) offset = some chosen →
            Warranted length party.replies w.texts
              ((p.rankJob document chosen k).resultOf w t.session.cache)) ∧
    ∀ p : Pipeline, p.provider.base.Obeys length → ∀ document,
      Job.EndsWell length p.provider.base (p.sectionTexts document) t.session
        (p.run document t.session) ∧
      ∀ offset k, Job.EndsWell length p.provider.base (p.sectionTexts document) t.session
        (p.ranking document offset k t.session) := by
  have hstart : Traffic.Keeps length (opened.database.rows.map Row.key)
      { session := ⟨now, opened.enforcing length, log⟩ } :=
    ⟨uniform_of_openOn hopen hshort hrows, List.forall_mem_nil _⟩
  obtain ⟨huniform, hparties⟩ := hstart.leads hleads
  refine ⟨fun history hobeys => ?_, fun hkeys => ?_, fun party hparty => ?_,
    fun p hobeys document => ⟨?_, fun offset k => ?_⟩⟩
  · exact ⟨(huniform.run hobeys).ofLength, fun moment text v => huniform.length_of_answerAt hobeys⟩
  · refine huniform.exists_contents (huniform.keys fun key hkey => ?_)
    obtain ⟨row, hrow, rfl⟩ := List.mem_map.mp hkey
    exact hkeys row hrow
  · have hsourced := (hparties party hparty).sourced
    refine ⟨fun inner text v hcall => ?_, fun w hrun => ?_⟩
    · rw [hcall] at hsourced
      exact (hsourced _ rfl).2 inner v rfl rfl
    · rw [hrun] at hsourced
      refine ⟨fun v hv => hsourced.length_of_given hv, fun p document htexts => ?_⟩
      exact ⟨Job.warranted (p.runJob_tolerates document length _) htexts hsourced huniform,
        fun offset chosen k hchosen =>
          Job.warranted (rankJob_tolerates hchosen k) htexts hsourced huniform⟩
  · exact run_endsWell hobeys huniform document
  · exact ranking_endsWell hobeys huniform document offset k

/-- Every letter of a note is a section. One of them is given a vector that is too long. -/
def stretching : Pipeline :=
  { letters with
    provider := .source {
      name := "stretching"
      model := "fussy"
      dimension := 1
      reply := fun _ text => { outcome := .ok (if text = "b" then [⟨1⟩, ⟨2⟩] else [⟨1⟩]) } } }

theorem dimension_is_kept_stretching :
    openOn oneLetter.cache.database = .ok { oneLetter.cache with dimension := none } ∧ 1 < 2 ^ 32 ∧
    (∀ row ∈ oneLetter.cache.database.rows, row.cell.OfLength 1) ∧
    (Job.finish [stretching.runJob "ab", letters.runJob "xa"] oneLetter).2.map
      (Option.map Except.isOk) = [some false, some true] ∧
    (∃ t, Traffic.Leads (Activity.Obeys 1) (Cache.Operates 1) { session := oneLetter } t ∧
      (t.session.cache.run [.begin "c", .write "d" [⟨3⟩]]).OfLength 1 ∧
      ∃ party ∈ t.parties, Blames 1 party.replies ["a", "b"] 1 2) ∧
    (stretching.ranking "ab" 0 1 oneLetter).2 =
      some (.error (.embedding (.dimensionMismatch 1 2))) ∧
    Blames 1 (stretching.provider.base.repliesSince 0 (stretching.ranking "ab" 0 1 oneLetter).1.log)
      ["a", "b"] 1 2 := by
  have hopen : openOn oneLetter.cache.database = .ok { oneLetter.cache with dimension := none } := rfl
  have hrows : ∀ row ∈ oneLetter.cache.database.rows, row.cell.OfLength 1 := by
    intro row hrow
    cases List.mem_singleton.mp hrow
    exact Cell.ofLength_encode (by decide) rfl
  have htexts : stretching.sectionTexts "ab" = ["a", "b"] := by decide
  have hstretching : stretching.provider.base.Obeys 1 := nofun
  have hletters : letters.provider.base.Obeys 1 := nofun
  -- beside another run
  have hfails : (Job.finish [stretching.runJob "ab", letters.runJob "xa"] oneLetter).2.head? =
      some (some (.error (.embedding (.dimensionMismatch 1 2)))) := by decide +kernel
  obtain ⟨t, jobs, hfinish, hplans, -, hfollows⟩ :=
    @Job.finish_follows Report (Activity.Obeys 1) (Cache.Operates 1)
      [stretching.runJob "ab", letters.runJob "xa"]
      (List.forall_mem_cons.mpr ⟨rfl, List.forall_mem_singleton.mpr rfl⟩)
      (List.forall_mem_cons.mpr ⟨.run _ _ _, List.forall_mem_singleton.mpr (.run _ _ _)⟩)
      (List.forall_mem_cons.mpr ⟨hstretching, List.forall_mem_singleton.mpr hletters⟩) oneLetter
  obtain ⟨job, rest, rfl, hplan, -⟩ := List.map_eq_cons_iff.mp hplans
  rw [hfinish] at hfails
  obtain ⟨t₁, hleads, ⟨party, hparty, hrun⟩, hresult⟩ :=
    hfollows.concludes job List.mem_cons_self _ (Option.some.inj hfails)
  obtain ⟨hhistory, -, hparties, -⟩ := dimension_is_kept hopen (by decide) hrows hleads
  have hwindow : job.window.texts = stretching.sectionTexts "ab" := congrArg Job.Plan.texts hplan
  obtain ⟨-, hrun⟩ := (hparties party hparty).2 job.window hrun
  obtain ⟨hwarranted, -⟩ := hrun stretching "ab" hwindow
  rw [Job.resultOf_of_plan_eq hplan] at hresult
  have hblames := hwarranted 1 2 hresult
  rw [hwindow, htexts] at hblames
  -- alone
  have hranking : (stretching.ranking "ab" 0 1 oneLetter).2 =
      some (.error (.embedding (.dimensionMismatch 1 2))) := by decide +kernel
  obtain ⟨-, -, -, halone⟩ := dimension_is_kept hopen (by decide) hrows (.refl)
  have hends := ((halone stretching hstretching "ab").2 0 1).warranted 1 2 hranking
  rw [htexts] at hends
  refine ⟨hopen, by decide, hrows, by decide +kernel, ⟨t₁, hleads, ?_, party, hparty, hblames⟩,
    hranking, hends⟩
  exact (hhistory [.begin "c", .write "d" [⟨3⟩]]
    (List.forall_mem_cons.mpr ⟨trivial, List.forall_mem_singleton.mpr trivial⟩)).1

/-- Every letter of a note is a section, and none of them is given a vector. -/
def refusing : Pipeline :=
  { letters with
    provider := .source {
      name := "refusing"
      model := "none"
      dimension := 2
      reply := fun _ _ => { outcome := .error (.dimensionMismatch 2 3) } } }

/-- A run can fail for a length although no vector was computed: the source may fail so by itself. -/
theorem mismatch_without_vector :
    let opened : Cache := { database := { table := some {} } }
    let start : Session := { cache := opened.enforcing 2 }
    openOn {} = .ok opened ∧ opened.database.rows = [] ∧
    (refusing.run "a" start).2 = some (.error (.embedding (.dimensionMismatch 2 3))) ∧
    refusing.provider.base.Obeys 2 ∧
    ∀ earlier text v, (refusing.provider.base.reply earlier text).outcome ≠ .ok v := by
  refine ⟨rfl, rfl, by decide +kernel, nofun, nofun⟩

end Pipeline

end NearNotes
