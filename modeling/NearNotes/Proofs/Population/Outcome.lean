import Mathlib
import NearNotes.Proofs.Population.Sequential
import NearNotes.Proofs.Population.Underway
import NearNotes.Proofs.Results

/-!
# What populating comes to

A note's sections are fetched by any number of calls at once, by a window that is alone at its cache
and over a provider whose answers are those of a function.

* `Cache.outcome` : the result in closed form;
* `Underway.outcome`, `Failed.outcome` : a window that has come to its end has this result;
* `Pipeline.populate_cases` : every window comes to its end, with all its vectors or with a failure;
* `Underway.rows`, `Pipeline.bindings_of_populate` : the rows after a success;
* `Pipeline.populate_independent_of_concurrency` : width and delays do not matter;
* `Pipeline.populate_failure_leaves_sound_cache` : what a failure leaves behind.
-/

namespace NearNotes

open Cache

/-- What a row says, whatever its number. -/
def Row.binding (row : Row) : Key × Cell := (row.key, row.cell)

namespace Cache

/-- The vectors of all texts in order and the number of those that had no row, or else the failure
of the first text that fails. -/
def outcome (c : Cache) (f : String → Answer) (texts : List String) :
    Except RunError (List Embedding × Nat) :=
  match texts.mapM (c.answerFor f) with
  | .error e => .error (.embedding e)
  | .ok vectors => .ok (vectors, (c.absentTexts texts).length)

/-- The binding of a key that calls with a function for their outcomes store. -/
def bindingFor (f : String → Answer) : Key → Key × Cell
  | .text text => (.text text, .blob (Blob.encode ((f text).toOption.getD [])))
  | .bytes bytes => (.bytes bytes, .blob [])

theorem Adds.binding {start : Cache} {f : String → Answer} {texts : List String} {row : Row}
    {text : String} {v : Embedding} (h : start.Adds f texts row text v) :
    row.binding = bindingFor f row.key := by
  rw [Row.binding, h.key, h.cell, bindingFor, h.outcome]
  rfl

/-- A text that had no row and on which the function fails has none. -/
theorem Since.not_mem_keys {start c : Cache} {f : String → Answer} {texts : List String}
    (h : Since start f texts c) {text : String} (habsent : start.read text = .ok none)
    (hfails : (f text).isOk = false) : Key.text text ∉ c.database.rows.map Row.key := by
  obtain ⟨new, hrows, -, hadds, -⟩ := h.rows
  intro hkey
  rw [hrows, List.map_append, List.mem_append] at hkey
  obtain ⟨row, hrow, hkey⟩ := List.mem_map.mp (hkey.resolve_left (not_mem_keys_of_read habsent))
  obtain ⟨added, v, hadded⟩ := hadds row hrow
  rw [hadded.key] at hkey
  cases hkey
  rw [hadded.outcome] at hfails
  cases hfails

theorem Since.vector_of_new {start c : Cache} {f : String → Answer} {texts : List String}
    (h : Since start f texts c) :
    ∃ new, c.database.rows = start.database.rows ++ new ∧ ∀ row ∈ new,
      ∃ added ∈ texts, ∃ v, f added = .ok v ∧ row.key = .text added ∧ row.cell.vector = .ok v := by
  obtain ⟨new, hrows, -, hadds, -⟩ := h.rows
  refine ⟨new, hrows, fun row hrow => ?_⟩
  obtain ⟨added, v, hadded⟩ := hadds row hrow
  exact ⟨added, hadded.asked, v, hadded.outcome, hadded.key, hadded.vector⟩

/-- Once every text has a row, the keys that were added are those of the texts that had none. -/
theorem Since.keys_perm {start c : Cache} {f : String → Answer} {texts : List String}
    {new : List Row} (hrows : c.database.rows = start.database.rows ++ new)
    (hnodup : (new.map Row.key).Nodup)
    (hadds : ∀ row ∈ new, ∃ text v, start.Adds f texts row text v)
    (hstored : ∀ text ∈ texts, ∃ v, c.read text = .ok (some v)) :
    (new.map Row.key).Perm ((start.absentTexts texts).map .text) := by
  refine (List.perm_ext_iff_of_nodup hnodup ?_).mpr fun key => ?_
  · exact (List.nodup_dedup _).map fun _ _ heq => Key.text.inj heq
  · constructor
    · exact fun hkey => keys_subset_of_adds hadds hkey
    · intro hkey
      obtain ⟨text, htext, rfl⟩ := List.mem_map.mp hkey
      obtain ⟨hmem, habsent⟩ := mem_absentTexts.mp htext
      obtain ⟨v, hread⟩ := hstored text hmem
      have hkeys := mem_keys_of_read hread
      rw [hrows, List.map_append, List.mem_append] at hkeys
      exact hkeys.resolve_left (not_mem_keys_of_read habsent)

end Cache

namespace Window

variable {start : Session} {f : String → Answer} {w : Window} {s : Session}

/-! ## The end of a window -/

/-- The rows after a success: those of the start, and one for each text that had none. -/
theorem Underway.rows (h : Underway start f w s) (hend : w.next = w.texts.length)
    (hstored : Stored w s) :
    ∃ new, s.cache.database.rows = start.cache.database.rows ++ new ∧
      (new.map Row.key).Perm ((start.cache.absentTexts w.texts).map .text) ∧
      new.map Row.binding = (new.map Row.key).map (bindingFor f) ∧
      s.cache.database.idsLeft + new.length = start.cache.database.idsLeft := by
  obtain ⟨new, hrows, hnodup, hadds, hcount⟩ := h.crew.since.rows
  refine ⟨new, hrows, Since.keys_perm hrows hnodup hadds fun text htext => ?_, ?_, hcount⟩
  · refine hstored.read_of_mem_take ?_
    rwa [hend, List.take_length]
  · rw [List.map_map]
    refine List.map_congr_left fun row hrow => ?_
    obtain ⟨text, v, hadded⟩ := hadds row hrow
    exact hadded.binding

theorem Underway.outcome (h : Underway start f w s) (hend : w.next = w.texts.length)
    (hstored : Stored w s) :
    start.cache.outcome f w.texts = .ok (w.handedOver, w.computed) := by
  have hhanded := h.handed
  rw [hend, List.take_length] at hhanded
  obtain ⟨new, hrows, hkeys, -, hcount⟩ := h.rows hend hstored
  have hlength := hkeys.length_eq
  rw [List.length_map, List.length_map] at hlength
  -- every missing text has got its row, so there was a number for each
  have hroom : start.cache.Room w.texts := by
    unfold Room
    omega
  have htally := h.tally ⟨hroom, isOk_of_map_eq hhanded⟩
  rw [hrows, List.length_append, computing, h.active_nil hend] at htally
  simp only [List.map_nil, List.sum_nil] at htally
  rw [Cache.outcome, mapM_eq_ok_iff_map.mpr hhanded]
  simp only
  congr 2
  omega

/-- The text that fails stands after those that were handed over, and none of these fails. -/
theorem Failed.split (h : Failed start f w s) {e : EmbedError} (hfailure : w.failure = some e) :
    ∃ text after, w.texts = w.texts.take w.next ++ text :: after ∧
      start.cache.Lands f w.texts text (.error e) ∧
      ∀ earlier ∈ w.texts.take w.next, (start.cache.answerFor f earlier).isOk := by
  obtain ⟨e', he', hanswer⟩ := h.failure
  rw [hfailure] at he'
  cases he'
  refine ⟨w.textAt w.next, w.texts.drop (w.next + 1), ?_, hanswer, isOk_of_map_eq h.handed⟩
  rw [textAt, List.getD_eq_getElem _ _ h.bound, List.getElem_cons_drop, List.take_append_drop]

theorem Failed.outcome (h : Failed start f w s) {e : EmbedError} (hfailure : w.failure = some e)
    (hroom : start.cache.Room w.texts) :
    start.cache.outcome f w.texts = .error (.embedding e) := by
  obtain ⟨text, after, htexts, hanswer, hbefore⟩ := h.split hfailure
  have hfails : w.texts.mapM (start.cache.answerFor f) = .error e :=
    mapM_eq_error_iff.mpr ⟨_, text, after, htexts, (hanswer.eq_of_room hroom).symm, hbefore⟩
  rw [Cache.outcome, hfails]

end Window

/-! ## Pipelines -/

namespace Pipeline

variable {p q : Pipeline} {f : String → Answer} {document : String} {s : Session}

def populate (p : Pipeline) (document : String) (s : Session) :
    Session × Option (Except RunError (List Embedding × Nat)) :=
  (p.window (p.splitter.sections document)).populate s

/-- Populating from a cache that no one else uses comes to its end: all vectors are handed over, or
the last step hands a failure over. -/
theorem populate_cases (hcomputes : p.provider.Computes f) (hidle : Idle s.cache) :
    (∃ w' : Window, w'.texts = p.sectionTexts document ∧ w'.Underway s f (p.populate document s).1 ∧
      w'.Stored (p.populate document s).1 ∧ w'.next = w'.texts.length ∧
      (p.populate document s).2 = some (.ok (w'.handedOver, w'.computed))) ∨
    ∃ m w₁ s₁ w' e, Window.Path m (p.window (p.splitter.sections document)) s w₁ s₁ ∧
      w₁.failure = none ∧ w₁.step? s₁ = some (w', (p.populate document s).1) ∧
      (p.populate document s).1.log = s₁.log ∧ w'.texts = p.sectionTexts document ∧
      w'.Failed s f (p.populate document s).1 ∧ w'.Stored (p.populate document s).1 ∧
      w'.failure = some e ∧ (p.populate document s).2 = some (.error (.embedding e)) := by
  have hunderway : (p.window (p.splitter.sections document)).Underway s f s :=
    Window.underway_of_new hidle p.concurrency_pos _
  have hstored : (p.window (p.splitter.sections document)).Stored s := by
    refine Window.stored_of_new rfl rfl rfl fun call hcall => ?_
    rw [hidle.calls] at hcall
    cases hcall
  have hload : (p.window (p.splitter.sections document)).load <
      (p.window (p.splitter.sections document)).steps := by
    simp [window, Window.load, Window.steps]
  unfold populate
  obtain ⟨m, w₁, s₁, hpath, hbound, hend, hover | ⟨w', s', hstep, hfailed, hlog, hpos⟩⟩ :=
    hunderway.reaches hcomputes
  · left
    rw [Window.populate_of_path hpath hover (by omega), Job.resultOf_of_done _ hend.running hover]
    refine ⟨w₁, hpath.keeps.1, hend, (hstored.path hpath).1, ?_, rfl⟩
    simpa [Window.isOver, hend.running] using hover
  · right
    obtain ⟨e, hfailure, -⟩ := hfailed.failure
    have hover : w'.isOver = true := by simp [Window.isOver, hfailure]
    have hwhole := hpath.trans (.step hstep (.refl w' s'))
    rw [Window.populate_of_path hwhole hover (by omega), Job.resultOf_of_failure _ hfailure]
    exact ⟨m, w₁, s₁, w', e, hpath, hend.running, hstep, hlog, hwhole.keeps.1, hfailed,
      (hstored.path hwhole).1, hfailure, rfl⟩

/-- The result of populating, in closed form, where there is a number for each row. -/
theorem populate_eq_outcome (hcomputes : p.provider.Computes f) (hidle : Idle s.cache)
    (hroom : s.cache.Room (p.sectionTexts document)) :
    (p.populate document s).2 = some (s.cache.outcome f (p.sectionTexts document)) := by
  rcases @populate_cases p f document s hcomputes hidle with
    ⟨w', htexts, hunderway, hstored, hend, hresult⟩ |
    ⟨_, _, _, w', e, _, _, _, _, htexts, hfailed, _, hfailure, hresult⟩
  · rw [hresult, ← htexts, hunderway.outcome hend hstored]
  · rw [hresult, ← htexts, hfailed.outcome hfailure (htexts ▸ hroom)]

theorem ranking_eq (p : Pipeline) (document : String) (offset k : Nat) (s : Session) :
    (p.ranking document offset k s).2 =
      match sectionAt? (p.splitter.sections document) offset with
      | none => some (.error (.noSection offset))
      | some chosen => (p.populate document s).2.map (·.bind fun found =>
          (rank (p.splitter.sections document) found.1 chosen k).mapError .embedding) := by
  cases hchosen : sectionAt? (p.splitter.sections document) offset with
  | none => simp only [ranking, hchosen]
  | some chosen =>
      simp only [ranking, hchosen, Job.finish_eq_populate, List.head?_cons, Option.join_some]
      rfl

/-- Every letter of a note is a section, and up to four are fetched at once. Most take a millisecond,
the one that fails takes two, and another one takes five. -/
def hasty : Pipeline :=
  { letters with
    provider := .source {
      name := "hasty"
      model := "fussy"
      dimension := 1
      reply := fun _ text =>
        { delay := .ofMillis (if text = "b" then 2 else if text = "d" then 5 else 1)
          outcome := fussy text } }
    concurrency := 4
    concurrency_pos := Nat.le_add_left 1 3 }

theorem computes_hasty : hasty.provider.Computes fussy :=
  Provider.computes_source (fun _ _ => rfl) fun _ _ => rfl

theorem idle_oneLetter : Idle oneLetter.cache := ⟨rfl, rfl, rfl, rfl⟩

/-- **A failure leaves a sound cache.** Let populating fail from a cache that no one else uses. Then
the failure is that of the first section that fails, if only because the others have left no number
for its row, and every section before it has a row. No text on which the provider was called and
failed has one. The rows that were there stay as they are, and every other row is for a section's text
and holds the vector that the provider gives for it. No call is in progress any more. The step that
hands the failure over calls on no source, and nothing comes after it. -/
theorem populate_failure_leaves_sound_cache (hcomputes : p.provider.Computes f)
    (hidle : Idle s.cache) {e : RunError}
    (hfails : (p.populate document s).2 = some (.error e)) :
    let texts := p.sectionTexts document
    let s' := (p.populate document s).1
    ∃ before text after cause, texts = before ++ text :: after ∧
      (s.cache.answerFor f text = .error cause ∨
        ¬ s.cache.Room texts ∧ cause = Database.full) ∧ e = .embedding cause ∧
      (∀ earlier ∈ before, (s.cache.answerFor f earlier).isOk ∧
        ∃ v, s'.cache.read earlier = .ok (some v)) ∧
      (∃ records, s'.log = s.log ++ records ∧ ∀ record ∈ records,
        ∃ asked ∈ texts, record.input = .one asked ∧
          ((f asked).isOk = false → Key.text asked ∉ s'.cache.database.rows.map Row.key)) ∧
      (∃ new, s'.cache.database.rows = s.cache.database.rows ++ new ∧ ∀ row ∈ new,
        ∃ added ∈ texts, ∃ v, f added = .ok v ∧ row.key = .text added ∧ row.cell.vector = .ok v) ∧
      Idle s'.cache ∧ s'.cache.textsInProgress = 0 ∧
      ∃ m w₁ s₁ w₂, Window.Path m (p.window (p.splitter.sections document)) s w₁ s₁ ∧
        w₁.failure = none ∧ w₁.step? s₁ = some (w₂, s') ∧ w₂.next = before.length ∧
        w₂.failure = some cause ∧ s'.log = s₁.log ∧
        ∀ n w₃ s₃, Window.Path n (p.window (p.splitter.sections document)) s w₃ s₃ →
          w₃.failure.isSome → s₃ = s' := by
  intro texts s'
  rcases @populate_cases p f document s hcomputes hidle with
    ⟨_, _, _, _, _, hresult⟩ |
    ⟨m, w₁, s₁, w₂, cause, hpath, hrunning, hstep, hlog, htexts, hfailed, hstored, hfailure,
      hresult⟩
  · rw [hfails] at hresult
    cases hresult
  rw [hfails] at hresult
  cases hresult
  obtain ⟨text, after, hsplit, hanswer, hbefore⟩ := hfailed.split hfailure
  obtain ⟨records, hrecords, hasked⟩ := hfailed.asks
  obtain ⟨new, hrows, hnew⟩ := hfailed.since.vector_of_new
  have hcause : s.cache.answerFor f text = .error cause ∨
      ¬ s.cache.Room texts ∧ cause = Database.full := by
    rw [htexts] at hanswer
    exact hanswer.imp Eq.symm fun hfull => ⟨hfull.1, Except.error.inj hfull.2⟩
  rw [htexts] at hasked hnew
  refine ⟨w₂.texts.take w₂.next, text, after, cause, htexts.symm.trans hsplit, hcause, rfl,
    fun earlier hearlier => ⟨hbefore earlier hearlier, hstored.read_of_mem_take hearlier⟩,
    ⟨records, hrecords, fun record hrecord => ?_⟩, ⟨new, hrows, hnew⟩, hfailed.idle,
    List.length_eq_zero_iff.mpr hfailed.idle.keys, m, w₁, s₁, w₂, hpath, hrunning, hstep, ?_,
    hfailure, hlog, fun n w₃ s₃ hpath' hfailure' => ?_⟩
  · obtain ⟨asked, hmem, hinput, habsent⟩ := hasked record hrecord
    exact ⟨asked, hmem, hinput, hfailed.since.not_mem_keys habsent⟩
  · exact (List.length_take_of_le (Nat.le_of_lt hfailed.bound)).symm
  · have hwhole := hpath.trans (.step hstep (.refl w₂ s'))
    exact (hwhole.eq_of_isOver (by simp [Window.isOver, hfailure]) hpath'
      (by simp [Window.isOver, hfailure'])).2

/-- A later section is stored before the failure comes, and another one is dropped. -/
theorem populate_failure_leaves_sound_cache_overtaken :
    hasty.provider.Computes fussy ∧ Idle oneLetter.cache ∧
    (hasty.populate "xabcd" oneLetter).2 = some (.error (.embedding .notConfigured)) ∧
    (hasty.populate "xabcd" oneLetter).1.log.map CallRecord.input =
      [.one "a", .one "b", .one "c", .one "d"] ∧
    (hasty.populate "xabcd" oneLetter).1.cache.contents =
      .ok [⟨"x", [⟨2⟩]⟩, ⟨"a", [⟨1⟩]⟩, ⟨"c", [⟨1⟩]⟩] ∧
    (hasty.populate "xabcd" oneLetter).1.cache.textsInProgress = 0 := by
  have hfails : (hasty.populate "xabcd" oneLetter).2 =
      some (.error (.embedding .notConfigured)) := by decide +kernel
  obtain ⟨-, -, -, -, -, -, -, -, -, -, -, hprogress, -⟩ :=
    populate_failure_leaves_sound_cache computes_hasty idle_oneLetter hfails
  refine ⟨computes_hasty, idle_oneLetter, hfails, ?_, ?_, hprogress⟩
  · decide +kernel
  · decide +kernel

end Pipeline

end NearNotes
