import Mathlib
import NearNotes.Proofs.Alike
import NearNotes.Proofs.Population.Outcome

/-!
# A ranking depends on its own note only

A cache holds the vectors of all notes that were ever read. The ranking of one note goes through it,
and still depends on the rows of this note's sections only.

* `Cache.outcome_of_alike` : populating comes to the same where the rows of all texts are alike;
* `Pipeline.AddsOwn`, `populate_addsOwn` : the rows that are added are for the note's own sections;
* `Pipeline.ranking_depends_on_own_rows` : the two-cache statement;
  `ranking_depends_on_last_number` : what the rows of other notes may still have used up.
-/

namespace NearNotes

open Cache

namespace Cache

variable {c c' : Cache} {texts : List String}

theorem absentTexts_of_alike (h : ∀ text ∈ texts, c.database.Alike text c'.database) :
    c'.absentTexts texts = c.absentTexts texts := by
  unfold absentTexts
  congr 1
  refine List.filter_congr fun text htext => ?_
  rw [read_of_alike (h text htext)]

theorem outcome_of_alike (h : ∀ text ∈ texts, c.database.Alike text c'.database)
    (hroom : c.Room texts) (hroom' : c'.Room texts) (hdimension : c'.dimension = c.dimension)
    (f : String → Answer) : c'.outcome f texts = c.outcome f texts := by
  have hspares : ∀ text ∈ texts, c.read text = .ok none → c.database.Spares 1 c'.database := by
    intro text htext hread
    have hread' := (read_of_alike (h text htext)).trans hread
    have hids := hroom.idsLeft_pos htext hread
    have hids' := hroom'.idsLeft_pos htext hread'
    unfold Database.Spares
    omega
  have hanswers : texts.mapM (c'.answerFor f) = texts.mapM (c.answerFor f) :=
    mapM_congr fun text htext => answerFor_of_alike (h text htext) (hspares text htext) hdimension f
  unfold outcome
  rw [hanswers, absentTexts_of_alike h]

end Cache

namespace Pipeline

variable {p : Pipeline} {f : String → Answer} {document : String} {s s' : Session}

/-- From one session to a later one, the rows stay as they are, and every other row is for a section
of the note. -/
def AddsOwn (p : Pipeline) (document : String) (s s' : Session) : Prop :=
  ∃ new, s'.cache.database.rows = s.cache.database.rows ++ new ∧
    ∀ row ∈ new, ∃ part ∈ p.splitter.sections document, row.key = .text part.text

theorem addsOwn_of_since (h : Since s.cache f (p.sectionTexts document) s'.cache) :
    p.AddsOwn document s s' := by
  obtain ⟨new, hrows, -, hadds, -⟩ := h.rows
  refine ⟨new, hrows, fun row hrow => ?_⟩
  obtain ⟨text, v, hadded⟩ := hadds row hrow
  obtain ⟨part, hpart, rfl⟩ := List.mem_map.mp hadded.asked
  exact ⟨part, hpart, hadded.key⟩

theorem populate_addsOwn (hcomputes : p.provider.Computes f) (hidle : Idle s.cache) :
    p.AddsOwn document s (p.populate document s).1 := by
  rcases @populate_cases p f document s hcomputes hidle with
    ⟨w', htexts, hunderway, -⟩ | ⟨_, _, _, w', _, _, _, _, _, htexts, hfailed, -⟩
  · exact addsOwn_of_since (htexts ▸ hunderway.crew.since)
  · exact addsOwn_of_since (htexts ▸ hfailed.since)

/-- A ranking leaves what populating leaves, unless no section is asked for. -/
theorem session_ranking (p : Pipeline) (document : String) (offset k : Nat) (s : Session) :
    (p.ranking document offset k s).1 = s ∨
      (p.ranking document offset k s).1 = (p.populate document s).1 := by
  cases hchosen : sectionAt? (p.splitter.sections document) offset with
  | none => left; simp only [ranking, hchosen]
  | some chosen =>
      right
      simp only [ranking, hchosen, Job.finish_eq_populate]
      rfl

theorem ranking_addsOwn (hcomputes : p.provider.Computes f) (hidle : Idle s.cache)
    (offset k : Nat) : p.AddsOwn document s (p.ranking document offset k s).1 := by
  rcases session_ranking p document offset k s with hstay | hpopulated
  · rw [hstay]
    exact ⟨[], (List.append_nil _).symm, fun row hrow => by cases hrow⟩
  · rw [hpopulated]
    exact populate_addsOwn hcomputes hidle

/-- **A ranking depends on its own note only.** Let two caches that no one else uses enforce one
dimension, or none, and have the same values, or none, for the texts of a note's sections, with a
number left in each for a row of every missing one. Whatever else they hold, in whatever order, and
whatever they were used for before, the ranking of the note comes to one result in both, and adds
rows for this note's sections only. -/
theorem ranking_depends_on_own_rows (hcomputes : p.provider.Computes f) (hidle : Idle s.cache)
    (hidle' : Idle s'.cache) (hdimension : s'.cache.dimension = s.cache.dimension)
    (halike : ∀ part ∈ p.splitter.sections document,
      s.cache.database.Alike part.text s'.cache.database)
    (hroom : s.cache.Room (p.sectionTexts document))
    (hroom' : s'.cache.Room (p.sectionTexts document)) (offset k : Nat) :
    (∃ result, (p.ranking document offset k s).2 = some result ∧
      (p.ranking document offset k s').2 = some result) ∧
    p.AddsOwn document s (p.ranking document offset k s).1 ∧
    p.AddsOwn document s' (p.ranking document offset k s').1 := by
  refine ⟨?_, ranking_addsOwn hcomputes hidle offset k, ranking_addsOwn hcomputes hidle' offset k⟩
  have htexts : ∀ text ∈ p.sectionTexts document,
      s.cache.database.Alike text s'.cache.database := by
    intro text htext
    obtain ⟨part, hpart, rfl⟩ := List.mem_map.mp htext
    exact halike part hpart
  rw [ranking_eq, ranking_eq, populate_eq_outcome hcomputes hidle hroom,
    populate_eq_outcome hcomputes hidle' hroom', outcome_of_alike htexts hroom hroom' hdimension]
  cases sectionAt? (p.splitter.sections document) offset with
  | none => exact ⟨_, rfl, rfl⟩
  | some chosen => exact ⟨_, rfl, rfl⟩

/-- Besides the letter of `oneLetter` there are a number, a key that is no text and a vector of
another length, and calls were made before. -/
def crowdedLetter : Session where
  now := 5
  cache := {
    database := { table := some {
      rows := [⟨2, .text "z", .int 7⟩, ⟨3, .bytes [255], .blob []⟩,
        ⟨5, .text "y", .blob (Blob.encode [⟨1⟩, ⟨2⟩])⟩, ⟨9, .text "x", .blob (Blob.encode [⟨2⟩])⟩]
      lastId := 9 } }
    dimension := some 1
    hits := 4
    misses := 2
    nextCall := 6
    nextLock := 3 }

theorem ranking_depends_on_own_rows_crowded :
    hasty.provider.Computes fussy ∧ Idle oneLetter.cache ∧ Idle crowdedLetter.cache ∧
    crowdedLetter.cache.dimension = oneLetter.cache.dimension ∧
    (hasty.splitter.sections "xaca").map Section.text = ["x", "a", "c", "a"] ∧
    (∀ part ∈ hasty.splitter.sections "xaca",
      oneLetter.cache.database.Alike part.text crowdedLetter.cache.database) ∧
    oneLetter.cache.Room (hasty.sectionTexts "xaca") ∧
    crowdedLetter.cache.Room (hasty.sectionTexts "xaca") ∧
    (hasty.ranking "xaca" 1 2 crowdedLetter).2 = (hasty.ranking "xaca" 1 2 oneLetter).2 ∧
    hasty.AddsOwn "xaca" crowdedLetter (hasty.ranking "xaca" 1 2 crowdedLetter).1 := by
  have hcrowded : Idle crowdedLetter.cache := ⟨rfl, rfl, rfl, rfl⟩
  have htexts : (hasty.splitter.sections "xaca").map Section.text = ["x", "a", "c", "a"] := by
    decide
  have halike : ∀ part ∈ hasty.splitter.sections "xaca",
      oneLetter.cache.database.Alike part.text crowdedLetter.cache.database := by
    intro part hpart
    have htext := List.mem_map_of_mem (f := Section.text) hpart
    generalize part.text = text at htext ⊢
    rw [htexts] at htext
    simp only [List.mem_cons, List.not_mem_nil, or_false] at htext
    rcases htext with rfl | rfl | rfl | rfl <;> exact ⟨by decide, rfl⟩
  have hroom : oneLetter.cache.Room (hasty.sectionTexts "xaca") := by decide +kernel
  have hroom' : crowdedLetter.cache.Room (hasty.sectionTexts "xaca") := by decide +kernel
  obtain ⟨⟨result, hone, hcrowd⟩, -, hadds⟩ :=
    ranking_depends_on_own_rows computes_hasty idle_oneLetter hcrowded rfl halike hroom hroom' 1 2
  exact ⟨computes_hasty, idle_oneLetter, hcrowded, rfl, htexts, halike, hroom, hroom',
    hcrowd.trans hone.symm, hadds⟩

/-- The last number may be that of another note's row, and then there is none for a missing section. -/
theorem ranking_depends_on_last_number :
    hasty.provider.Computes fussy ∧ Idle oneLetter.cache ∧ Idle lastLetter.cache ∧
    lastLetter.cache.dimension = oneLetter.cache.dimension ∧
    (∀ part ∈ hasty.splitter.sections "ac",
      oneLetter.cache.database.Alike part.text lastLetter.cache.database) ∧
    ((hasty.ranking "ac" 0 1 oneLetter).2.map Except.isOk) = some true ∧
    (hasty.ranking "ac" 0 1 lastLetter).2 = some (.error (.embedding Database.full)) := by
  have htexts : (hasty.splitter.sections "ac").map Section.text = ["a", "c"] := by decide
  refine ⟨computes_hasty, idle_oneLetter, ⟨rfl, rfl, rfl, rfl⟩, rfl, fun part hpart => ?_, ?_, ?_⟩
  · have htext := List.mem_map_of_mem (f := Section.text) hpart
    generalize part.text = text at htext ⊢
    rw [htexts] at htext
    simp only [List.mem_cons, List.not_mem_nil, or_false] at htext
    rcases htext with rfl | rfl <;> exact ⟨by decide, rfl⟩
  · decide +kernel
  · rw [ranking_eq, show (hasty.populate "ac" lastLetter).2 =
      some (.error (.embedding Database.full)) by decide +kernel]
    rfl

end Pipeline

end NearNotes
