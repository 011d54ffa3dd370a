import Mathlib
import NearNotes.Proofs.Population.Crowd
import NearNotes.Proofs.Population.Outcome

/-!
# Runs that share a cache

Runs that are started together on one cache, over providers that never fail and give the vectors of
one function. Whatever their delays and however many sections each fetches at once, and in whatever
order they go on, they split the work.

* `Cache.answerFor_isOk`, `Since.holds` : every text comes to a vector, and the rows are those of the
  start and then the function's;
* `Crowd.called_perm` : once all jobs have their results, the provider was called on the texts that
  had no row, once each;
* `Pipeline.Shares` : what a run reports that shared its cache; `reports_of_course` : all runs do;
* `Pipeline.runs_share_work` : the runs split the work; `runs_beyond_limits` : runs whose rows are not
  taken.
-/

namespace NearNotes

open Cache

/-! ## Entries -/

namespace Cache

variable {start c : Cache} {f : String → Embedding} {texts : List String} {entries : List Entry}

/-- A text comes to a vector, where a missing one has a number left and a row that is short enough,
and the cache accepts its vector. -/
theorem answerFor_isOk (hrest : start.AtRest) (hentries : start.contents = .ok entries)
    {text : String} (hsize : text.utf8ByteSize ≤ Table.mostBytes)
    (haccepts : start.requireLength (f text) = .ok ())
    (hfits : start.read text = .ok none → FitsRow text (f text) ∧ start.database.idsLeft ≠ 0) :
    (start.answerFor (fun text => .ok (f text)) text).isOk := by
  have hread := (hrest.represents hentries).stores.read hsize
  cases hfound : Ledger.find? ⟨entries, start.dimension⟩ text with
  | some v =>
      rw [hfound] at hread
      simp only [Cache.answerFor, hread]
      rfl
  | none =>
      rw [hfound] at hread
      obtain ⟨hrow, hids⟩ := hfits hread
      have hadds : start.Adds (fun text => .ok (f text)) [text]
          ⟨0, .text text, .blob (Blob.encode (f text))⟩ text (f text) :=
        ⟨List.mem_singleton_self _, rfl, rfl, rfl, hread, haccepts, hrest.takes, hids, hrow⟩
      rw [hadds.answerFor]
      rfl

/-- The rows that such calls have added hold the function's vectors. -/
theorem holds_of_adds {new : List Row}
    (hadds : ∀ row ∈ new, ∃ text v, start.Adds (fun text => .ok (f text)) texts row text v) :
    ∃ added : List String, List.Forall₂ Holds new (added.map fun text => ⟨text, f text⟩) := by
  induction new with
  | nil => exact ⟨[], .nil⟩
  | cons row new ih =>
      obtain ⟨added, hadded⟩ := ih fun other hother => hadds other (List.mem_cons_of_mem _ hother)
      obtain ⟨text, v, hrow⟩ := hadds row List.mem_cons_self
      cases hrow.outcome
      exact ⟨text :: added, .cons ⟨hrow.key, hrow.cell, hrow.fits.length_lt⟩ hadded⟩

/-- Once every text has a row, the rows are those of the start and, after them, one with the
function's vector for each text that had none. -/
theorem Since.holds (h : Since start (fun text => .ok (f text)) texts c) (hrest : start.AtRest)
    (hentries : start.contents = .ok entries)
    (hstored : ∀ text ∈ texts, ∃ v, c.read text = .ok (some v)) :
    ∃ (new : List Row) (added : List String), c.database.rows = start.database.rows ++ new ∧
      (new.map Row.key).Perm ((start.absentTexts texts).map .text) ∧
      added.Perm (start.absentTexts texts) ∧
      List.Forall₂ Holds c.database.rows (entries ++ added.map fun text => ⟨text, f text⟩) := by
  obtain ⟨new, hrows, hnodup, hadds, -⟩ := h.rows
  obtain ⟨added, hadded⟩ := holds_of_adds hadds
  have hkeys := Since.keys_perm hrows hnodup hadds hstored
  have hnew : new.map Row.key = added.map .text :=
    (Stores.keys_eq hadded).trans (by simp [Function.comp_def])
  refine ⟨new, added, hrows, hkeys, ?_, ?_⟩
  · rw [hnew] at hkeys
    exact (List.map_perm_map_iff fun _ _ => Key.text.inj).mp hkeys
  · rw [hrows]
    exact List.rel_append (hrest.represents hentries).stores.rows hadded

/-- The entries of an earlier cache are an initial segment of those of a later one. -/
theorem contents_of_grows {c c' : Cache} (hgrows : c.database.Grows c'.database)
    (htable : c.database.table.isSome) {entries' : List Entry}
    (hrows : List.Forall₂ Holds c'.database.rows entries') :
    ∃ size ≤ entries'.length, c.contents = .ok (entries'.take size) := by
  refine ⟨c.database.rows.length, ?_, Stores.contents_of_rows htable ?_⟩
  · exact hrows.length_eq ▸ hgrows.rows.length_le
  · have htake := List.forall₂_take c.database.rows.length hrows
    rwa [← List.prefix_iff_eq_take.mp hgrows.rows] at htake

end Cache

/-! ## The end of all jobs -/

namespace Job

variable {α : Type} {start s : Session} {f : String → Answer} {texts called : List String}
  {jobs : List (Job α)}

/-- Nothing is computed any more once all jobs have their results. -/
theorem Crowd.computing_eq_zero (h : Crowd start f texts called jobs s)
    (hend : ∀ job ∈ jobs, job.result.isSome) :
    (jobs.map fun job => job.window.computing).sum = 0 := by
  refine List.sum_eq_zero fun n hn => ?_
  obtain ⟨job, hjob, rfl⟩ := List.mem_map.mp hn
  obtain ⟨result, hresult⟩ := Option.isSome_iff_exists.mp (hend job hjob)
  have hcoursing := (h.members job hjob).coursing
  have hover := ((h.members job hjob).concluded result hresult).1
  rw [Window.computing, hcoursing.active_nil (next_of_isOver hcoursing hover)]
  rfl

theorem Crowd.read_of_result (h : Crowd start f texts called jobs s) {job : Job α}
    (hjob : job ∈ jobs) (hend : job.result.isSome) {text : String} (htext : text ∈ job.window.texts) :
    ∃ v, s.cache.read text = .ok (some v) := by
  obtain ⟨result, hresult⟩ := Option.isSome_iff_exists.mp hend
  obtain ⟨-, c, -, hgrows, hread, -⟩ := (h.members job hjob).concluded result hresult
  obtain ⟨v, hv⟩ := hread text htext
  exact ⟨v, read_grows hgrows hv⟩

/-- **Once each.** At the end, the provider was called on the texts that had no row, once each. -/
theorem Crowd.called_perm (h : Crowd start f texts called jobs s)
    (hend : ∀ job ∈ jobs, job.result.isSome)
    (htexts : ∀ text ∈ texts, ∃ job ∈ jobs, text ∈ job.window.texts) {new : List Row}
    (hrows : s.cache.database.rows = start.cache.database.rows ++ new)
    (hkeys : (new.map Row.key).Perm ((start.cache.absentTexts texts).map .text)) :
    called.Perm (start.cache.absentTexts texts) := by
  have hcount : called.length = (start.cache.absentTexts texts).length := by
    have hlength := hkeys.length_eq
    have htally := h.tally
    rw [List.length_map, List.length_map] at hlength
    rw [hrows, List.length_append, h.computing_eq_zero hend] at htally
    omega
  have hsubset : start.cache.absentTexts texts ⊆ called := by
    intro text htext
    obtain ⟨hmem, habsent⟩ := mem_absentTexts.mp htext
    obtain ⟨job, hjob, hown⟩ := htexts text hmem
    obtain ⟨v, hread⟩ := h.read_of_result hjob (hend job hjob) hown
    refine h.added text habsent fun hnone => ?_
    rw [hread] at hnone
    cases hnone
  exact ((List.subperm_of_subset (List.nodup_dedup _) hsubset).perm_of_length_le hcount.le).symm

end Job

/-! ## Runs -/

namespace Pipeline

/-- What a run reports that shared its cache, given the entries at the end: it is the report on an
initial segment of them, and the texts of all its own sections are in it. -/
structure Shares (p : Pipeline) (document : String) (final : List Entry) (report : Report) :
    Prop where
  sections : report.sections = p.splitter.sections document
  size : report.corpusSize ≤ final.length
  corpus : ∃ c : Cache, c.contents = .ok (final.take report.corpusSize) ∧
    p.report report.sections report.providerCalls c = .ok report
  own : ∀ part ∈ report.sections, part.text ∈ (final.take report.corpusSize).map Entry.text

theorem isNew_runJob (p : Pipeline) (document : String) : (p.runJob document).IsNew :=
  ⟨rfl, p.concurrency_pos, rfl⟩

/-- The result of a run that has handed all its vectors over. -/
theorem shares_of_concluded {p : Pipeline} {document : String} {start c' : Cache}
    {f : String → Answer} {texts : List String} {job : Job Report} {result : Except RunError Report}
    (hplan : job.plan = (p.runJob document).plan)
    (h : job.Concluded start f texts c'.database result) (htable : start.database.table.isSome)
    {final : List Entry} (hfinal : List.Forall₂ Holds c'.database.rows final) {length : Nat}
    (huniform : ∀ e ∈ final, e.embedding.length = length) :
    ∃ report, result = .ok report ∧ p.Shares document final report ∧
      report.providerCalls = job.window.computed := by
  obtain ⟨-, c, hsince, hgrows, hread, rfl⟩ := h
  obtain ⟨-, htexts, hconclude⟩ := Job.Plan.mk.inj hplan
  obtain ⟨size, hsize, hcontents⟩ := contents_of_grows hgrows (hsince.table ▸ htable) hfinal
  obtain ⟨report, hreport, hsections, hcalls, hreported⟩ := p.report_of_uniform hcontents
    (fun e he => huniform e (List.mem_of_mem_take he)) (p.splitter.sections document)
    job.window.computed
  rw [List.length_take_of_le hsize] at hreported
  refine ⟨report, ?_, ⟨hsections, hreported ▸ hsize, ⟨c, ?_, ?_⟩, fun part hpart => ?_⟩, hcalls⟩
  · rw [hconclude]
    show (p.report (p.splitter.sections document) job.window.computed c).mapError _ = _
    rw [hreport]
    rfl
  · rw [hreported]
    exact hcontents
  · rw [hsections, hcalls]
    exact hreport
  · have htext : part.text ∈ job.window.texts := by
      rw [htexts]
      exact List.mem_map_of_mem (hsections ▸ hpart)
    obtain ⟨v, hv⟩ := hread part.text htext
    rw [hreported]
    exact mem_texts_of_read (spells_contents hcontents) hv

/-- The results of runs that all succeed, as a list of reports. -/
theorem exists_reports {runs : List (Pipeline × String)} {jobs : List (Job Report)}
    {final : List Entry}
    (h : List.Forall₂ (fun job r => ∃ report, job.result = some (.ok report) ∧
      Shares r.1 r.2 final report ∧ report.providerCalls = job.window.computed) jobs runs) :
    ∃ reports : List Report, jobs.map Job.result = reports.map (fun report => some (.ok report)) ∧
      List.Forall₂ (fun r report => Shares r.1 r.2 final report) runs reports ∧
      (reports.map Report.providerCalls).sum = (jobs.map fun job => job.window.computed).sum := by
  induction h with
  | nil => exact ⟨[], rfl, .nil, rfl⟩
  | cons hfirst _ ih =>
      obtain ⟨report, hresult, hshares, hcalls⟩ := hfirst
      obtain ⟨reports, hresults, hall, hsum⟩ := ih
      refine ⟨report :: reports, ?_, .cons hshares hall, ?_⟩
      · rw [List.map_cons, List.map_cons, hresult, hresults]
      · rw [List.map_cons, List.map_cons, List.sum_cons, List.sum_cons, hcalls, hsum]

def jobsOf (runs : List (Pipeline × String)) : List (Job Report) :=
  runs.map fun r => r.1.runJob r.2

def textsOf (runs : List (Pipeline × String)) : List String :=
  runs.flatMap fun r => r.1.sectionTexts r.2

/-- Runs that are started together on a cache that no one else uses: their providers give the vectors
of one function and never fail. All vectors have the length of all rows, and the cache accepts it. No
text or row is too big, and there is a number for each row that is missing. -/
structure StartTogether (runs : List (Pipeline × String)) (f : String → Embedding) (length : Nat)
    (entries : List Entry) (s : Session) : Prop where
  computes : ∀ r ∈ runs, r.1.provider.Computes fun text => .ok (f text)
  lengths : ∀ text, (f text).length = length
  rest : s.cache.AtRest
  contents : s.cache.contents = .ok entries
  uniform : ∀ e ∈ entries, e.embedding.length = length
  accepts : ∀ v, v.length = length → s.cache.requireLength v = .ok ()
  sizes : ∀ text ∈ textsOf runs, text.utf8ByteSize ≤ Table.mostBytes
  fits : ∀ text ∈ s.cache.absentTexts (textsOf runs), FitsRow text (f text)
  room : s.cache.Room (textsOf runs)

section Together

variable {runs : List (Pipeline × String)} {f : String → Embedding} {length m : Nat}
  {entries : List Entry} {called : List String} {jobs : List (Job Report)} {s s' : Session}

theorem StartTogether.yields (h : StartTogether runs f length entries s) :
    s.cache.Yields (fun text => .ok (f text)) (textsOf runs) := by
  refine ⟨h.room, fun text htext => ?_⟩
  refine answerFor_isOk h.rest h.contents (h.sizes text htext) (h.accepts _ (h.lengths text))
    fun hread => ⟨h.fits text (mem_absentTexts.mpr ⟨htext, hread⟩), ?_⟩
  exact Nat.ne_of_gt (h.room.idsLeft_pos htext hread)

theorem isNew_of_mem {job : Job Report} (hjob : job ∈ jobsOf runs) : job.IsNew := by
  obtain ⟨r, -, rfl⟩ := List.mem_map.mp hjob
  exact isNew_runJob r.1 r.2

theorem mem_textsOf {job : Job Report} (hjob : job ∈ jobsOf runs) {text : String}
    (htext : text ∈ job.window.texts) : text ∈ textsOf runs := by
  obtain ⟨r, hr, rfl⟩ := List.mem_map.mp hjob
  exact List.mem_flatMap.mpr ⟨r, hr, htext⟩

theorem StartTogether.provider (h : StartTogether runs f length entries s) {job : Job Report}
    (hjob : job ∈ jobsOf runs) : job.window.provider.Computes fun text => .ok (f text) := by
  obtain ⟨r, hr, rfl⟩ := List.mem_map.mp hjob
  exact h.computes r hr

theorem StartTogether.crowd (h : StartTogether runs f length entries s) :
    Job.Crowd s (fun text => .ok (f text)) (textsOf runs) [] (jobsOf runs) s :=
  Job.crowd_of_new h.rest.idle (fun _ => isNew_of_mem) (fun _ => h.provider)
    fun _ hjob _ => mem_textsOf hjob

/-- The jobs of a course are those of the runs, in their order. -/
theorem plans_of_course (hcourse : Job.Course m called (jobsOf runs) s jobs s') :
    List.Forall₂ (fun job r => job.plan = (r.1.runJob r.2).plan) jobs runs := by
  have heq := hcourse.plan_eq
  rw [jobsOf, List.map_map] at heq
  rwa [← List.forall₂_eq_eq_eq, List.forall₂_map_left_iff, List.forall₂_map_right_iff] at heq

theorem exists_job_of_mem (hcourse : Job.Course m called (jobsOf runs) s jobs s') {text : String}
    (htext : text ∈ textsOf runs) : ∃ job ∈ jobs, text ∈ job.window.texts := by
  obtain ⟨r, hr, htext⟩ := List.mem_flatMap.mp htext
  have hmem : (r.1.runJob r.2).plan ∈ jobs.map Job.plan := by
    rw [hcourse.plan_eq]
    exact List.mem_map_of_mem (List.mem_map_of_mem hr)
  obtain ⟨job, hjob, hplan⟩ := List.mem_map.mp hmem
  refine ⟨job, hjob, ?_⟩
  rw [(Job.Plan.mk.inj hplan).2.1]
  exact htext

/-- A course of runs over sources adds a record to the log for each call on the provider. -/
theorem log_of_course (hcourse : Job.Course m called (jobsOf runs) s jobs s')
    (hsources : ∀ r ∈ runs, ∃ src, r.1.provider = .source src) :
    s'.log.map CallRecord.input = s.log.map CallRecord.input ++ called.map .one := by
  refine hcourse.log_of_sources fun about habout => ?_
  obtain ⟨job, hjob, rfl⟩ := List.mem_map.mp habout
  obtain ⟨r, hr, rfl⟩ := List.mem_map.mp hjob
  exact hsources r hr

theorem reports_of_course (hcourse : Job.Course m called (jobsOf runs) s jobs s')
    {g : String → Answer} (hcrowd : Job.Crowd s g (textsOf runs) called jobs s')
    (hend : ∀ job ∈ jobs, job.result.isSome) (htable : s.cache.database.table.isSome)
    {final : List Entry} (hfinal : List.Forall₂ Holds s'.cache.database.rows final)
    (huniform : ∀ e ∈ final, e.embedding.length = length) :
    ∃ reports : List Report, jobs.map Job.result = reports.map (fun report => some (.ok report)) ∧
      List.Forall₂ (fun r report => Shares r.1 r.2 final report) runs reports ∧
      (reports.map Report.providerCalls).sum = called.length := by
  have hconcluded : ∀ job ∈ jobs, ∃ result, job.result = some result ∧
      job.Concluded s.cache g (textsOf runs) s'.cache.database result := by
    intro job hjob
    obtain ⟨result, hresult⟩ := Option.isSome_iff_exists.mp (hend job hjob)
    exact ⟨result, hresult, (hcrowd.members job hjob).concluded result hresult⟩
  have hpairs := (List.forall₂_and_left _ _).mpr ⟨hconcluded, plans_of_course hcourse⟩
  rw [hcrowd.counted]
  refine exists_reports (hpairs.imp fun job r hpair => ?_)
  obtain ⟨⟨result, hresult, hmade⟩, hplan⟩ := hpair
  obtain ⟨report, rfl, hshares⟩ := shares_of_concluded hplan hmade htable hfinal huniform
  exact ⟨report, hresult, hshares⟩

/-- **The runs split the work.** In whatever order runs go on that were started together, they make
only so many moves, and there is always a way on until every run has its result. Then all have
succeeded. The provider was called once on each section's text that had no row, and the runs' counts
add up to that. The rows are those of the start and, after them, one for each of these texts. Each
run has reported on an initial segment of them that has all its own sections. To finish the jobs
beside each other is one such course. -/
theorem runs_share_work (h : StartTogether runs f length entries s) :
    let missing := s.cache.absentTexts (textsOf runs)
    (∀ m called jobs s', Job.Course m called (jobsOf runs) s jobs s' →
      m ≤ ((jobsOf runs).map (·.window.steps)).sum ∧
      (∃ n later jobs' s'', Job.Course n later jobs s' jobs' s'' ∧
        ∀ job ∈ jobs', job.result.isSome) ∧
      ((∀ job ∈ jobs, job.result.isSome) →
        called.Perm missing ∧ s.Asks (textsOf runs) s' ∧
        ((∀ r ∈ runs, ∃ src, r.1.provider = .source src) →
          s'.log.map CallRecord.input = s.log.map CallRecord.input ++ called.map .one) ∧
        s.cache.database.rows <+: s'.cache.database.rows ∧
        ∃ (added : List String) (reports : List Report), added.Perm missing ∧
          s'.cache.contents = .ok (entries ++ added.map fun text => ⟨text, f text⟩) ∧
          jobs.map Job.result = reports.map (fun report => some (.ok report)) ∧
          List.Forall₂ (fun r report =>
            Shares r.1 r.2 (entries ++ added.map fun text => ⟨text, f text⟩) report) runs reports ∧
          (reports.map Report.providerCalls).sum = missing.length)) ∧
    ∃ m called jobs, Job.Course m called (jobsOf runs) s jobs (Job.finish (jobsOf runs) s).1 ∧
      jobs.map Job.result = (Job.finish (jobsOf runs) s).2 ∧ ∀ job ∈ jobs, job.result.isSome := by
  intro missing
  refine ⟨fun m called jobs s' hcourse => ?_, Job.finish_course h.rest.idle
    (fun _ => isNew_of_mem) (fun _ => h.provider) (fun _ hjob _ => mem_textsOf hjob) h.yields⟩
  obtain ⟨hcrowd, hbound⟩ := h.crowd.course h.yields hcourse
  rw [List.nil_append] at hcrowd
  refine ⟨?_, ?_, fun hend => ?_⟩
  · rw [Job.burden_of_new fun _ => isNew_of_mem] at hbound
    omega
  · obtain ⟨n, later, hrest, hresults⟩ :=
      hcrowd.passes_course h.yields (Or.inl (Nat.le_refl (2 * Job.burden jobs + 1)))
    exact ⟨n, later, _, _, hrest, hresults⟩
  · have hstored : ∀ text ∈ textsOf runs, ∃ v, s'.cache.read text = .ok (some v) := by
      intro text htext
      obtain ⟨job, hjob, hown⟩ := exists_job_of_mem hcourse htext
      exact hcrowd.read_of_result hjob (hend job hjob) hown
    obtain ⟨new, added, hrows, hkeys, hadded, hfinal⟩ :=
      hcrowd.crew.since.holds h.rest h.contents hstored
    have huniform : ∀ e ∈ entries ++ added.map fun text => ⟨text, f text⟩,
        e.embedding.length = length := by
      intro e he
      rcases List.mem_append.mp he with hold | hlast
      · exact h.uniform e hold
      · obtain ⟨text, -, rfl⟩ := List.mem_map.mp hlast
        exact h.lengths text
    have htable : s.cache.database.table.isSome := (h.rest.represents h.contents).stores.table
    have hcalled := hcrowd.called_perm hend (fun _ => exists_job_of_mem hcourse) hrows hkeys
    obtain ⟨reports, hresults, hshares, hsum⟩ :=
      reports_of_course hcourse hcrowd hend htable hfinal huniform
    refine ⟨hcalled, hcrowd.asks, log_of_course hcourse, hrows ▸ List.prefix_append _ _, added,
      reports, hadded, ?_, hresults, hshares, hsum.trans hcalled.length_eq⟩
    exact Stores.contents_of_rows (hcrowd.crew.since.table ▸ htable) hfinal

end Together

/-- Every letter of a note is a section, and each is fetched after the other. Most take a millisecond,
and one takes three. -/
def patient : Pipeline :=
  { letters with
    provider := .source {
      name := "patient"
      model := "one"
      dimension := 1
      reply := fun _ text =>
        { delay := .ofMillis (if text = "b" then 3 else 1)
          outcome := .ok [⟨1⟩] } } }

/-- Up to four letters are fetched at once. -/
def eager : Pipeline :=
  { patient with
    concurrency := 4
    concurrency_pos := Nat.succ_pos 3 }

/-- Two notes with two letters in common, and one that has its row. -/
theorem runs_share_work_two_notes :
    StartTogether [(patient, "xab"), (eager, "bca")] (fun _ => [⟨1⟩]) 1 [⟨"x", [⟨2⟩]⟩] oneLetter ∧
    oneLetter.cache.absentTexts (textsOf [(patient, "xab"), (eager, "bca")]) = ["b", "c", "a"] ∧
    ∃ (called : List String) (reports : List Report), called.Perm ["b", "c", "a"] ∧
      (Job.finish (jobsOf [(patient, "xab"), (eager, "bca")]) oneLetter).1.log.map
        CallRecord.input = called.map .one ∧
      (Job.finish (jobsOf [(patient, "xab"), (eager, "bca")]) oneLetter).2 =
        reports.map (fun report => some (.ok report)) ∧
      (reports.map Report.providerCalls).sum = 3 := by
  have hmissing : oneLetter.cache.absentTexts (textsOf [(patient, "xab"), (eager, "bca")]) =
      ["b", "c", "a"] := by decide +kernel
  have htogether : StartTogether [(patient, "xab"), (eager, "bca")] (fun _ => [⟨1⟩]) 1
      [⟨"x", [⟨2⟩]⟩] oneLetter := by
    refine ⟨fun r hr => ?_, fun _ => rfl, ⟨idle_oneLetter, List.nodup_singleton _, rfl⟩, rfl,
      by simp, fun v hv => ?_, by decide +kernel, ?_, by decide +kernel⟩
    · rcases List.mem_pair.mp hr with rfl | rfl
      · exact Provider.computes_source (fun _ _ => rfl) fun _ _ => rfl
      · exact Provider.computes_source (fun _ _ => rfl) fun _ _ => rfl
    · simp [requireLength, oneLetter, hv]
    · rw [hmissing]
      decide
  obtain ⟨hcourses, m, called, jobs, hcourse, hresults, hend⟩ := runs_share_work htogether
  obtain ⟨-, -, hsplit⟩ := hcourses m called jobs _ hcourse
  obtain ⟨hcalled, -, hlog, -, added, reports, -, -, hreports, -, hsum⟩ := hsplit hend
  rw [hmissing] at hcalled hsum
  refine ⟨htogether, hmissing, called, reports, hcalled, hlog fun r hr => ?_,
    hresults.symm.trans hreports, hsum⟩
  rcases List.mem_pair.mp hr with rfl | rfl
  · exact ⟨_, rfl⟩
  · exact ⟨_, rfl⟩

/-- Runs may fail although their providers do not: the last number may be given out, and a row may be
too big. -/
theorem runs_beyond_limits :
    (patient.provider.Computes (fun _ => .ok [⟨1⟩]) ∧ eager.provider.Computes (fun _ => .ok [⟨1⟩]) ∧
      lastLetter.cache.AtRest ∧ lastLetter.cache.contents = .ok [⟨"x", [⟨2⟩]⟩] ∧
      (∀ v, v.length = 1 → lastLetter.cache.requireLength v = .ok ()) ∧
      (Job.finish (jobsOf [(patient, "xa"), (eager, "ab")]) lastLetter).2 =
        [some (.error (.embedding Database.full)), some (.error (.embedding Database.full))]) ∧
    ((stamping longVector).provider.Computes (fun _ => .ok longVector) ∧ longVector.length < 2 ^ 32 ∧
      ((stamping longVector).run "a" { cache := { database := { table := some {} } } }).2 =
        some (.error (.embedding Database.tooBig))) := by
  have hstamps : (stamping longVector).provider.Computes (fun _ => .ok longVector) :=
    Provider.computes_source (fun _ _ => rfl) fun _ _ => rfl
  refine ⟨⟨Provider.computes_source (fun _ _ => rfl) fun _ _ => rfl,
    Provider.computes_source (fun _ _ => rfl) fun _ _ => rfl,
    ⟨⟨rfl, rfl, rfl, rfl⟩, List.nodup_singleton _, rfl⟩, rfl, fun v hv => ?_, ?_⟩, hstamps, ?_, ?_⟩
  · simp [requireLength, lastLetter, hv]
  · decide +kernel
  · rw [length_longVector]
    decide
  · exact run_stamping mostBytes_lt_longVector

end Pipeline

end NearNotes
