import Mathlib
import NearNotes.Pipeline.Basic
import NearNotes.Proofs.Blob
import NearNotes.Proofs.Nearest
import NearNotes.Proofs.Population.Stored

/-!
# The report on the whole cache

A run that succeeds reports on every row of the database, whatever the provider is and whoever
wrote the rows.

* `Row.Spells`, `Cache.spells_contents` : the entries of a cache are its rows, in their order;
* `Cache.Sound` : calls are in order and no key stands twice, as after opening (`sound_of_openOn`)
  and whatever happens then (`Sound.run`);
* `Window.stored_of_populate` : what was populated is in the rows;
* `similarRows_of_found` : nothing is lost where the texts are put to the numbers;
* `Pipeline.run_reports_nearest_others` : the report.
-/

namespace NearNotes

/-! ## Rows and entries -/

/-- A row has an entry's text for its key, and its value can be read as the entry's vector. -/
structure Row.Spells (row : Row) (e : Entry) : Prop where
  key : row.key = .text e.text
  vector : row.cell.vector = .ok e.embedding

theorem Row.spells_of_columns {row : Row} {e : Entry} {columns : Int64 × String × List UInt8}
    (hcolumns : row.columns = .ok columns) (he : Entry.ofColumns columns = .ok e) :
    row.Spells e := by
  unfold Row.columns at hcolumns
  split at hcolumns
  · rename_i text hkey
    obtain ⟨bytes, hbytes, heq⟩ := bind_eq_ok_iff.mp hcolumns
    cases heq
    simp only [Entry.ofColumns] at he
    split at he
    · rename_i v hparse
      cases he
      refine ⟨hkey, ?_⟩
      show (do Blob.decode (← row.cell.asBlob) : Except EmbedError Embedding) = _
      rw [hbytes]
      exact Blob.decode_eq_ok_iff_parse.mpr hparse
    · cases he
  · cases hcolumns

namespace Cache

theorem spells_of_mapM {rows : List Row} {columns : List (Int64 × String × List UInt8)}
    {entries : List Entry} (hcolumns : List.Forall₂ (fun row c => row.columns = .ok c) rows columns)
    (hentries : List.Forall₂ (fun c e => Entry.ofColumns c = .ok e) columns entries) :
    List.Forall₂ Row.Spells rows entries := by
  induction hcolumns generalizing entries with
  | nil =>
      cases hentries
      exact .nil
  | cons hrow _ ih =>
      cases hentries with
      | cons he hrest => exact .cons (Row.spells_of_columns hrow he) (ih hrest)

theorem spells_contents {c : Cache} {entries : List Entry} (h : c.contents = .ok entries) :
    List.Forall₂ Row.Spells c.database.rows entries := by
  obtain ⟨t, ht, h⟩ := bind_eq_ok_iff.mp h
  obtain ⟨columns, hcolumns, hentries⟩ := bind_eq_ok_iff.mp h
  have htable : c.database.table = some t := by
    unfold Database.rowsOf at ht
    split at ht
    · rename_i hsome
      cases ht
      exact hsome
    · cases ht
  rw [Database.rows_of_table htable]
  exact spells_of_mapM (mapM_eq_ok_iff.mp hcolumns) (mapM_eq_ok_iff.mp hentries)

theorem keys_of_spells {rows : List Row} {entries : List Entry}
    (h : List.Forall₂ Row.Spells rows entries) :
    rows.map Row.key = (entries.map Entry.text).map .text := by
  induction h with
  | nil => rfl
  | cons hrow _ ih => simp only [List.map_cons, hrow.key, ih]

theorem mem_texts_of_read {c : Cache} {entries : List Entry}
    (h : List.Forall₂ Row.Spells c.database.rows entries) {text : String} {v : Embedding}
    (hread : c.read text = .ok (some v)) : text ∈ entries.map Entry.text := by
  have hkeys := mem_keys_of_read hread
  rw [keys_of_spells h, List.mem_map] at hkeys
  obtain ⟨text', hmem', heq⟩ := hkeys
  exact Key.text.inj heq ▸ hmem'

/-- The calls in progress are in order, and no key stands twice in the database. -/
structure Sound (c : Cache) : Prop where
  orderly : Orderly c
  distinct : (c.database.rows.map Row.key).Nodup

theorem sound_of_openOn {db : Database} {opened : Cache} (h : openOn db = .ok opened)
    (dimension : Option Nat) : Sound { opened with dimension } := by
  have hdistinct := distinct_of_openOn h
  obtain ⟨db', -, heq⟩ := bind_eq_ok_iff.mp h
  cases heq
  exact ⟨orderly_of_no_calls db' dimension, hdistinct⟩

theorem Sound.run {c : Cache} (h : Sound c) (history : List Event) : Sound (c.run history) :=
  ⟨h.orderly.run history, (run_grows c history).distinct h.distinct⟩

end Cache

/-! ## Populating -/

theorem Window.onward_populate {w : Window} (hactive : w.active = []) (hfinished : w.finished = [])
    (hhanded : w.handedOver = []) {s : Session}
    (hbound : ∀ call ∈ s.cache.calls, call.id < s.cache.nextCall) :
    s.cache.Onward (w.populate s).1.cache := by
  obtain ⟨m, w', hpath, -⟩ := w.populate_path s
  exact ((stored_of_new hactive hfinished hhanded hbound).path hpath).2

theorem Window.stored_of_populate {w : Window} (hactive : w.active = []) (hfinished : w.finished = [])
    (hhanded : w.handedOver = []) {s s' : Session}
    (hbound : ∀ call ∈ s.cache.calls, call.id < s.cache.nextCall)
    {found : List Embedding × Nat} (h : w.populate s = (s', some (.ok found))) :
    ∀ text ∈ w.texts, ∃ v, s'.cache.read text = .ok (some v) := by
  obtain ⟨m, w', hpath, hresult⟩ := w.populate_path s
  obtain ⟨hstored, -⟩ := (stored_of_new hactive hfinished hhanded hbound).path hpath
  rw [h] at hstored hresult
  intro text htext
  -- The window is over without a failure, so every position was handed over.
  obtain hresult | hresult := hresult
  · cases hresult
  have hall : w'.next = w'.texts.length := by
    unfold Job.resultOf at hresult
    split at hresult
    · cases hresult
    · rename_i hfailure
      split at hresult
      · rename_i hover
        simpa [isOver, hfailure] using hover
      · cases hresult
  refine hstored.read_of_mem_take ?_
  rwa [hall, List.take_length, hpath.keeps.1]

namespace Pipeline

variable {p : Pipeline} {document : String} {s s' : Session} {report : Report}

theorem run_eq (p : Pipeline) (document : String) (s : Session) :
    p.run document s =
      (((p.window (p.splitter.sections document)).populate s).1,
        (p.runJob document).outcome ((p.window (p.splitter.sections document)).populate s).1.cache
          ((p.window (p.splitter.sections document)).populate s).2) := by
  rw [run, runAll, List.map_singleton, Job.finish_eq_populate rfl]
  rfl

/-- A run that succeeds has populated its window, and reports on the cache that this left. -/
theorem populate_of_run (h : p.run document s = (s', some (.ok report))) :
    ∃ found, (p.window (p.splitter.sections document)).populate s = (s', some (.ok found)) ∧
      p.report (p.splitter.sections document) found.2 s'.cache = .ok report := by
  rw [run_eq] at h
  obtain ⟨hsession, houtcome⟩ := Prod.mk.inj h
  generalize (p.window (p.splitter.sections document)).populate s = populated at *
  obtain ⟨s₁, result⟩ := populated
  cases hsession
  obtain ⟨result', hresult, hconclude⟩ := Option.map_eq_some_iff.mp houtcome
  have hresult : result = some result' := hresult
  cases result' with
  | error e => cases hconclude
  | ok found =>
      refine ⟨found, by rw [hresult], ?_⟩
      have hconclude : (p.report (p.splitter.sections document) found.2 s₁.cache).mapError
          RunError.embedding = .ok report := hconclude
      cases hreport : p.report (p.splitter.sections document) found.2 s₁.cache with
      | error e =>
          rw [hreport] at hconclude
          cases hconclude
      | ok r =>
          rw [hreport] at hconclude
          cases hconclude
          rfl

/-! ## Joining numbers and texts -/

/-- Where every number is that of an entry, each thing found becomes a row with its texts. -/
theorem similarRows_of_found {entries : List Entry} {found : List Nearest}
    (h : ∀ n ∈ found, n.query < entries.length ∧ n.neighbor < entries.length) :
    (similarRows entries found).length = found.length ∧
      ∀ (i : Nat) row, (similarRows entries found)[i]? = some row →
        found[i]? = some row.nearest ∧
        (entries[row.nearest.query]?).map Entry.text = some row.text ∧
        (entries[row.nearest.neighbor]?).map Entry.text = some row.neighborText := by
  have hsome : ∀ n ∈ found, (do
      let query ← entries[n.query]?
      let neighbor ← entries[n.neighbor]?
      return (⟨query.text, neighbor.text, n⟩ : SimilarRow)).isSome := by
    intro n hn
    obtain ⟨hquery, hneighbor⟩ := h n hn
    rw [List.getElem?_eq_getElem hquery, List.getElem?_eq_getElem hneighbor]
    rfl
  refine ⟨List.filterMap_length_eq_length.mpr hsome, fun i row hrow => ?_⟩
  rw [similarRows, getElem?_filterMap_of_isSome hsome] at hrow
  obtain ⟨n, hn, hrow⟩ := Option.bind_eq_some_iff.mp hrow
  obtain ⟨query, hquery, hrow⟩ := Option.bind_eq_some_iff.mp hrow
  obtain ⟨neighbor, hneighbor, hrow⟩ := Option.bind_eq_some_iff.mp hrow
  cases hrow
  exact ⟨hn, by rw [hquery]; rfl, by rw [hneighbor]; rfl⟩

theorem report_eq_ok {sections : List Section} {computed : Nat} {c : Cache}
    (h : p.report sections computed c = .ok report) :
    ∃ entries, ∃ corpus : Corpus, ∃ found, c.contents = .ok entries ∧
      corpus.vectors = entries.map Entry.embedding ∧
      corpus.neighbors p.query.neighbors p.query.selfMatch = .ok found ∧
      report = ⟨sections, computed, entries.length, similarRows entries found⟩ := by
  obtain ⟨entries, hentries, h⟩ := bind_eq_ok_iff.mp h
  obtain ⟨corpus, hcorpus, h⟩ := bind_eq_ok_iff.mp h
  obtain ⟨found, hfound, h⟩ := bind_eq_ok_iff.mp h
  exact ⟨entries, corpus, found, hentries, Corpus.vectors_of_ofList hcorpus, hfound,
    (Except.ok.inj h).symm⟩

/-- There is a report on every cache whose rows can be read as vectors of one length. -/
theorem report_of_uniform (p : Pipeline) {c : Cache} {entries : List Entry}
    (hentries : c.contents = .ok entries) {length : Nat}
    (huniform : ∀ e ∈ entries, e.embedding.length = length) (sections : List Section)
    (computed : Nat) :
    ∃ report, p.report sections computed c = .ok report ∧ report.sections = sections ∧
      report.providerCalls = computed ∧ report.corpusSize = entries.length := by
  have hvectors : ∀ v ∈ entries.map Entry.embedding, v.length = length := by
    simpa using huniform
  obtain ⟨corpus, hcorpus⟩ := Corpus.ofList_of_uniform hvectors
  unfold report
  rw [hentries]
  simp only [bind, Except.bind, hcorpus, Corpus.neighbors_eq]
  exact ⟨_, rfl, rfl, rfl, rfl⟩

/-- A row of a report on entries: it is about the entry at its place, and the neighbour is the
nearest other entry, which has another text. -/
structure Reports (entries : List Entry) (i : Nat) (row : SimilarRow) : Prop where
  query : row.nearest.query = i
  nearest : row.nearest.IsLeast (entries.map Entry.embedding)
  text : (entries[i]?).map Entry.text = some row.text
  neighborText : (entries[row.nearest.neighbor]?).map Entry.text = some row.neighborText
  differ : row.text ≠ row.neighborText

/-- In a corpus of two or more entries with distinct texts, every entry has its row. -/
theorem reports_of_neighbors {entries : List Entry} (htexts : (entries.map Entry.text).Nodup)
    {corpus : Corpus} (hcorpus : corpus.vectors = entries.map Entry.embedding) {k : Nat}
    (hk : 2 ≤ k) {found : List Nearest} (hfound : corpus.neighbors k .sameId = .ok found)
    (htwo : 2 ≤ entries.length) :
    (similarRows entries found).length = entries.length ∧
      ∀ (i : Nat) row, (similarRows entries found)[i]? = some row → Reports entries i row := by
  have hsize : corpus.size = entries.length := by
    rw [Corpus.size, hcorpus, List.length_map]
  obtain ⟨found', hfound', hlength, hall⟩ := corpus.neighbors_sameId hk (hsize ▸ htwo)
  cases hfound.symm.trans hfound'
  rw [hcorpus] at hall
  have hbounds : ∀ n ∈ found, n.query < entries.length ∧ n.neighbor < entries.length := by
    intro n hn
    obtain ⟨i, hi⟩ := List.mem_iff_getElem?.mp hn
    obtain ⟨v, w, hv, hw, -⟩ := (hall i n hi).2.distance
    have hquery := (List.getElem?_eq_some_iff.mp hv).1
    have hneighbor := (List.getElem?_eq_some_iff.mp hw).1
    rw [List.length_map] at hquery hneighbor
    exact ⟨hquery, hneighbor⟩
  obtain ⟨hrows, hjoined⟩ := similarRows_of_found hbounds
  refine ⟨hrows.trans (hlength.trans hsize), fun i row hrow => ?_⟩
  obtain ⟨hn, htext, hneighbor⟩ := hjoined i row hrow
  obtain ⟨hi, hleast⟩ := hall i row.nearest hn
  refine ⟨hi, hleast, hi ▸ htext, hneighbor, fun heq => ?_⟩
  -- Two entries with one text would be one entry.
  rw [← List.getElem?_map] at htext hneighbor
  have hlt := (List.getElem?_eq_some_iff.mp htext).1
  have hsame := htext.trans (congrArg some heq |>.trans hneighbor.symm)
  exact hleast.other ((List.getElem?_inj hlt htexts).mp hsame).symm

/-- **The report is right.** A run that succeeds reports on the sections of the note and on the
rows of the database as they are at its end: the texts of all sections are among them, and if there
are two rows or more then each has its place in the report, in the order of insertion, with its
nearest other row. -/
theorem run_reports_nearest_others (hsound : s.cache.Sound) (hself : p.query.selfMatch = .sameId)
    (hneighbors : 2 ≤ p.query.neighbors) (hrun : p.run document s = (s', some (.ok report))) :
    report.sections = p.splitter.sections document ∧
    ∃ entries, s'.cache.contents = .ok entries ∧
      List.Forall₂ Row.Spells s'.cache.database.rows entries ∧
      (∀ part ∈ report.sections, part.text ∈ entries.map Entry.text) ∧
      report.corpusSize = entries.length ∧
      (entries.length < 2 → report.rows = []) ∧
      (2 ≤ entries.length → report.rows.length = entries.length ∧
        ∀ (i : Nat) row, report.rows[i]? = some row → Reports entries i row) := by
  obtain ⟨found, hpopulate, hreport⟩ := populate_of_run hrun
  have hread := Window.stored_of_populate rfl rfl rfl hsound.orderly.idBound hpopulate
  have honward := @Window.onward_populate (p.window (p.splitter.sections document)) rfl rfl rfl s
    hsound.orderly.idBound
  rw [hpopulate] at honward
  obtain ⟨entries, corpus, nearest, hentries, hcorpus, hnearest, rfl⟩ := report_eq_ok hreport
  have hspells := Cache.spells_contents hentries
  have htexts : (entries.map Entry.text).Nodup := by
    have hkeys := honward.grows.distinct hsound.distinct
    rw [Cache.keys_of_spells hspells] at hkeys
    exact hkeys.of_map _
  rw [hself] at hnearest
  refine ⟨rfl, entries, hentries, hspells, fun part hpart => ?_, rfl, fun hsmall => ?_, fun htwo => ?_⟩
  · obtain ⟨v, hv⟩ := hread part.text (List.mem_map_of_mem hpart)
    exact Cache.mem_texts_of_read hspells hv
  · have hsize : corpus.size < 2 := by rwa [Corpus.size, hcorpus, List.length_map]
    rw [corpus.neighbors_of_small _ hsize] at hnearest
    cases hnearest
    rfl
  · exact reports_of_neighbors htexts hcorpus hneighbors hnearest htwo

/-! Three sections of two texts, in a cache with a row whose vector is no number. Another writer is
faster with the second text. -/

def nan : Binary64 := ⟨0x7FF8000000000000⟩

def two : Binary64 := ⟨0x4000000000000000⟩

def four : Binary64 := ⟨0x4010000000000000⟩

def rivalled : Pipeline where
  provider := .source {
    name := "slow"
    model := "zero"
    dimension := 1
    reply := fun _ text =>
      { delay := .ofMillis 1
        outcome := .ok [⟨0⟩]
        rival := if text = "b" then some (.blob (Blob.encode [two])) else none } }
  splitter := fun _ => [⟨0, ""⟩, ⟨1, ""⟩, ⟨2, ""⟩]
  query := { neighbors := 2 }
  concurrency := 2

def oneRow : Database :=
  { table := some { rows := [⟨1, .text "z", .blob (Blob.encode [nan])⟩], lastId := 1 } }

def threeRows : Session where
  now := 2000000
  cache := {
    database := { table := some {
      rows := [⟨1, .text "z", .blob (Blob.encode [nan])⟩, ⟨2, .text "a", .blob (Blob.encode [⟨0⟩])⟩,
        ⟨3, .text "b", .blob (Blob.encode [two])⟩]
      lastId := 4 } }
    hits := 1
    misses := 2
    nextCall := 3
    nextLock := 2 }
  log := [⟨.one "a", 0, 1⟩, ⟨.one "b", 1000000, 1⟩]

def threeEntries : List Entry := [⟨"z", [nan]⟩, ⟨"a", [⟨0⟩]⟩, ⟨"b", [two]⟩]

def rivalledReport : Report where
  sections := [⟨0, "a"⟩, ⟨1, "a"⟩, ⟨2, "b"⟩]
  providerCalls := 2
  corpusSize := 3
  rows := [⟨"z", "a", ⟨0, 1, nan⟩⟩, ⟨"a", "b", ⟨1, 2, four⟩⟩, ⟨"b", "a", ⟨2, 1, four⟩⟩]

theorem neighbors_threeEntries (corpus : Corpus)
    (h : corpus.vectors = threeEntries.map Entry.embedding) :
    corpus.neighbors 2 .sameId = .ok [⟨0, 1, nan⟩, ⟨1, 2, four⟩, ⟨2, 1, four⟩] := by
  have hranked : ∀ v, corpus.ranked v =
      (scores v 0 [[nan], [⟨0⟩], [two]]).mergeSort Scored.before := by
    intro v
    rw [Corpus.ranked, h]
    rfl
  have hz : scores [nan] 0 [[nan], [⟨0⟩], [two]] = [⟨0, nan⟩, ⟨1, nan⟩, ⟨2, nan⟩] := by
    decide +kernel
  have ha : scores [⟨0⟩] 0 [[nan], [⟨0⟩], [two]] = [⟨0, nan⟩, ⟨1, ⟨0⟩⟩, ⟨2, four⟩] := by
    decide +kernel
  have hb : scores [two] 0 [[nan], [⟨0⟩], [two]] = [⟨0, nan⟩, ⟨1, four⟩, ⟨2, ⟨0⟩⟩] := by
    decide +kernel
  have hz' : corpus.ranked [nan] = [⟨0, nan⟩, ⟨1, nan⟩, ⟨2, nan⟩] := by
    rw [hranked, hz]
    cbv
  have ha' : corpus.ranked [⟨0⟩] = [⟨1, ⟨0⟩⟩, ⟨2, four⟩, ⟨0, nan⟩] := by
    rw [hranked, ha]
    cbv
  have hb' : corpus.ranked [two] = [⟨2, ⟨0⟩⟩, ⟨1, four⟩, ⟨0, nan⟩] := by
    rw [hranked, hb]
    cbv
  rw [Corpus.neighbors_eq, h]
  simp only [threeEntries, List.map_cons, List.map_nil, hz', ha', hb']
  rfl

theorem run_reports_nearest_others_rivalled :
    Cache.openOn oneRow = .ok { database := oneRow } ∧
    rivalled.run "aab" { cache := { database := oneRow } } =
      (threeRows, some (.ok rivalledReport)) ∧
    threeRows.cache.contents = .ok threeEntries ∧
    ∀ (i : Nat) row, rivalledReport.rows[i]? = some row → Reports threeEntries i row := by
  have hopen : Cache.openOn oneRow = .ok { database := oneRow } := rfl
  have hpopulate : (rivalled.window [⟨0, "a"⟩, ⟨1, "a"⟩, ⟨2, "b"⟩]).populate
      { cache := { database := oneRow } } =
        (threeRows, some (.ok ([[⟨0⟩], [⟨0⟩], [two]], 2))) := rfl
  have hcontents : threeRows.cache.contents = .ok threeEntries := rfl
  obtain ⟨corpus, hcorpus, hvectors⟩ : ∃ corpus, Corpus.ofList
      (threeEntries.map Entry.embedding) = .ok corpus ∧
        corpus.vectors = threeEntries.map Entry.embedding := ⟨_, rfl, rfl⟩
  have hreport : rivalled.report [⟨0, "a"⟩, ⟨1, "a"⟩, ⟨2, "b"⟩] 2 threeRows.cache =
      .ok rivalledReport := by
    unfold report
    rw [hcontents]
    show (do
      let corpus ← Corpus.ofList (threeEntries.map Entry.embedding)
      let found ← corpus.neighbors 2 .sameId
      return (⟨_, _, _, similarRows threeEntries found⟩ : Report) : Except EmbedError Report) = _
    rw [hcorpus]
    show (do
      let found ← corpus.neighbors 2 .sameId
      return (⟨_, _, _, similarRows threeEntries found⟩ : Report) : Except EmbedError Report) = _
    rw [neighbors_threeEntries corpus hvectors]
    rfl
  have hrun : rivalled.run "aab" { cache := { database := oneRow } } =
      (threeRows, some (.ok rivalledReport)) := by
    rw [run_eq]
    have hsections : rivalled.splitter.sections "aab" = [⟨0, "a"⟩, ⟨1, "a"⟩, ⟨2, "b"⟩] := by
      decide
    rw [hsections, hpopulate]
    simp only [Job.outcome, runJob, hsections]
    show (threeRows, some ((rivalled.report [⟨0, "a"⟩, ⟨1, "a"⟩, ⟨2, "b"⟩] 2
      threeRows.cache).mapError RunError.embedding)) = _
    rw [hreport]
    rfl
  have hsound := Cache.sound_of_openOn hopen none
  obtain ⟨-, entries, hentries, -, -, -, -, hrows⟩ :=
    run_reports_nearest_others hsound rfl (by decide) hrun
  cases hcontents.symm.trans hentries
  exact ⟨hopen, hrun, hcontents, (hrows (by decide)).2⟩

end Pipeline

end NearNotes
