import Mathlib
import NearNotes.Proofs.Flight.Alone
import NearNotes.Proofs.Flight.Onward

/-!
# Calls that only their own kind run beside

Several calls through one cache, all with one function for their outcomes, and no one else at the
cache. Whatever the order of their steps, each is answered as if it were alone.

* `Cache.answerFor` : what a call for a text comes to in a cache, if it is alone there;
  `conclude_cases` : what becomes of a computation for a missing text;
* `Cache.Room` : there are numbers for the rows of all missing texts; `Cache.Lands` : what a call
  comes to among others, which is the same but where there are not; `Cache.Yields` : every text has
  a vector and a number;
* `Cache.Since` : the rows that such calls have added since some start; `Since.room` : they leave
  room where there was room; `Since.read`, `Since.conclude` : what a look and a finished computation
  come to is what it was at the start;
* `Cache.Crew` : the calls in progress are in order, and those that compute have found no row;
* `Cache.Apart` : a step of one call leaves the other calls and their grants alone;
* `Crew.enqueue`, `Crew.takeUp`, `Crew.land`, `Crew.finish` : the steps keep the crew in order.
-/

namespace NearNotes

namespace Cache

open Database

/-! ## Answers -/

/-- What a call for a text comes to if it is alone: what is read, or else what becomes of the
function's outcome. -/
def answerFor (c : Cache) (f : String → Answer) (text : String) : Answer :=
  match c.read text with
  | .error e => .error e
  | .ok (some v) => .ok v
  | .ok none => (c.conclude text (f text)).2

/-- A finished computation for a text without a row fails and changes nothing, or its vector goes
into a new row. -/
theorem conclude_cases {c : Cache} {text : String} (h : c.read text = .ok none)
    (outcome : Answer) :
    (∃ e, c.conclude text outcome = (c, .error e)) ∨
      ∃ v, outcome = .ok v ∧ c.requireLength v = .ok () ∧ c.database.blocked = false ∧
        c.database.idsLeft ≠ 0 ∧ FitsRow text v ∧ c.conclude text outcome =
          ({ c with database := c.database.push (.text text) (.blob (Blob.encode v)) }, .ok v) := by
  cases outcome with
  | error e => exact Or.inl ⟨e, rfl⟩
  | ok v =>
      cases hlength : c.requireLength v with
      | error e => exact Or.inl ⟨e, by simp only [conclude, hlength]⟩
      | ok _ =>
          simp only [conclude, hlength, offer_of_none h]
          split_ifs with hblob hblocked hids hfits
          · exact Or.inl ⟨_, rfl⟩
          · exact Or.inl ⟨_, rfl⟩
          · exact Or.inl ⟨_, rfl⟩
          · exact Or.inr ⟨v, rfl, hlength, Bool.eq_false_iff.mpr hblocked, hids, hfits, rfl⟩
          · exact Or.inl ⟨_, rfl⟩

/-- What it comes to depends on the numbers that are left only where there are none. -/
theorem conclude_answer {c c' : Cache} {text : String} (h : c.read text = .ok none)
    (h' : c'.read text = .ok none) (hdimension : c'.dimension = c.dimension)
    (hblocked : c'.database.blocked = c.database.blocked)
    (hids : c'.database.idsLeft ≤ c.database.idsLeft) (outcome : Answer) :
    (c'.conclude text outcome).2 = (c.conclude text outcome).2 ∨
      c'.database.idsLeft = 0 ∧ (c'.conclude text outcome).2 = .error full := by
  cases outcome with
  | error e => exact Or.inl rfl
  | ok v =>
      have hlengths : c'.requireLength v = c.requireLength v := by
        unfold requireLength
        rw [hdimension]
      simp only [conclude, hlengths]
      cases c.requireLength v with
      | error e => exact Or.inl rfl
      | ok _ =>
          simp only [offer_of_none h, offer_of_none h', hblocked]
          by_cases hnone : c'.database.idsLeft = 0
          · split_ifs <;> simp [*]
          · split_ifs <;> first | omega | exact Or.inl rfl

/-! ## Rows -/

/-- A row that such calls add: for one of the texts, which has none at the start, with the vector
that the function gives. -/
structure Adds (start : Cache) (f : String → Answer) (texts : List String) (row : Row)
    (text : String) (v : Embedding) : Prop where
  asked : text ∈ texts
  key : row.key = .text text
  cell : row.cell = .blob (Blob.encode v)
  outcome : f text = .ok v
  absent : start.read text = .ok none
  length : start.requireLength v = .ok ()
  takes : start.database.blocked = false
  room : start.database.idsLeft ≠ 0
  fits : FitsRow text v

/-- The rows are those of the start and, after them, rows that such calls have added, each with a
number of its own. -/
structure Since (start : Cache) (f : String → Answer) (texts : List String) (c : Cache) : Prop where
  dimension : c.dimension = start.dimension
  blocked : c.database.blocked = start.database.blocked
  table : c.database.table.isSome = start.database.table.isSome
  rows : ∃ new, c.database.rows = start.database.rows ++ new ∧ (new.map Row.key).Nodup ∧
    (∀ row ∈ new, ∃ text v, start.Adds f texts row text v) ∧
    c.database.idsLeft + new.length = start.database.idsLeft

/-- The texts for which no row is read, each once. -/
def absentTexts (c : Cache) (texts : List String) : List String :=
  (texts.filter fun text => c.read text = .ok none).dedup

theorem mem_absentTexts {c : Cache} {texts : List String} {text : String} :
    text ∈ c.absentTexts texts ↔ text ∈ texts ∧ c.read text = .ok none := by
  simp [absentTexts]

def Room (c : Cache) (texts : List String) : Prop :=
  (c.absentTexts texts).length ≤ c.database.idsLeft

instance (c : Cache) (texts : List String) : Decidable (c.Room texts) :=
  inferInstanceAs (Decidable (_ ≤ _))

theorem Room.mono {c : Cache} {texts others : List String} (h : c.Room others)
    (hsub : texts ⊆ others) : c.Room texts := by
  have hsubset : c.absentTexts texts ⊆ c.absentTexts others := fun text htext =>
    mem_absentTexts.mpr ⟨hsub (mem_absentTexts.mp htext).1, (mem_absentTexts.mp htext).2⟩
  exact ((List.nodup_dedup _).subperm hsubset).length_le.trans h

/-- Where a text has no row and there is room for it, one number at least is left. -/
theorem Room.idsLeft_pos {c : Cache} {texts : List String} (h : c.Room texts) {text : String}
    (htext : text ∈ texts) (hread : c.read text = .ok none) : 0 < c.database.idsLeft :=
  (List.length_pos_of_mem (mem_absentTexts.mpr ⟨htext, hread⟩)).trans_le h

/-- An answer that a call among others may have: it is that of a call alone, or the others have left
no number for its row. -/
def Lands (start : Cache) (f : String → Answer) (texts : List String) (text : String)
    (a : Answer) : Prop :=
  a = start.answerFor f text ∨ ¬ start.Room texts ∧ a = .error full

structure Yields (start : Cache) (f : String → Answer) (texts : List String) : Prop where
  room : start.Room texts
  ok : ∀ text ∈ texts, (start.answerFor f text).isOk

theorem Lands.eq_of_room {start : Cache} {f : String → Answer} {texts : List String} {text : String}
    {a : Answer} (h : Lands start f texts text a) (hroom : start.Room texts) :
    a = start.answerFor f text := h.resolve_right fun hfull => hfull.1 hroom

theorem Lands.eq_of_ok {start : Cache} {f : String → Answer} {texts : List String} {text : String}
    {v : Embedding} (h : Lands start f texts text (.ok v)) : start.answerFor f text = .ok v :=
  (h.resolve_right fun hfull => by cases hfull.2).symm

section Since

variable {start c c' : Cache} {f : String → Answer} {texts : List String} {text : String}

theorem Since.refl (start : Cache) (f : String → Answer) (texts : List String) :
    Since start f texts start :=
  ⟨rfl, rfl, rfl, [], (List.append_nil _).symm, List.nodup_nil, by simp, rfl⟩

theorem Since.congr (h : Since start f texts c) (hdatabase : c'.database = c.database)
    (hdimension : c'.dimension = c.dimension) : Since start f texts c' := by
  refine ⟨hdimension.trans h.dimension, ?_, ?_, ?_⟩
  · rw [hdatabase]
    exact h.blocked
  · rw [hdatabase]
    exact h.table
  · rw [hdatabase]
    exact h.rows

/-- What a function's outcome comes to for a text that has no row at the start and is taken. -/
theorem Adds.answerFor {row : Row} {v : Embedding} (h : start.Adds f texts row text v) :
    start.answerFor f text = .ok v := by
  have hblob : ¬ Table.mostBytes < (Blob.encode v).length :=
    Nat.not_lt.mpr ((Table.cellSize_le_rowSize (.text text) (.blob (Blob.encode v))).trans h.fits)
  simp only [Cache.answerFor, h.absent, h.outcome, conclude, h.length, offer_of_none h.absent,
    if_neg hblob, h.takes, Bool.false_eq_true, if_false, if_neg h.room, if_pos h.fits]

theorem Adds.vector {row : Row} {v : Embedding} (h : start.Adds f texts row text v) :
    row.cell.vector = .ok v := by
  rw [h.cell]
  exact Blob.decode_encode h.fits.length_lt

/-- A text that has a row at the start, or cannot be looked for, reads as at the start. -/
theorem Since.read_of_ne (h : Since start f texts c) (hread : start.read text ≠ .ok none) :
    c.read text = start.read text := by
  obtain ⟨new, hrows, -⟩ := h.rows
  by_cases hsearch : start.database.Searchable text
  · cases hold : start.database.rowsFor text with
    | nil => exact absurd (read_of_nil hsearch hold) hread
    | cons row rest =>
        have hnow : c.database.rowsFor text =
            row :: (rest ++ new.filter fun row => row.key == .text text) := by
          rw [rowsFor_of_append hrows, hold, List.cons_append]
        rw [read_of_cons hsearch hold, read_of_cons ⟨h.table ▸ hsearch.table, hsearch.size⟩ hnow]
  · exact read_of_not_searchable h.table hsearch

/-- A text reads as missing, now and at the start, or else as what a call comes to. -/
theorem Since.read (h : Since start f texts c) (text : String) :
    (c.read text = .ok none ∧ start.read text = .ok none) ∨
      c.read text = (start.answerFor f text).map some := by
  by_cases hstart : start.read text = .ok none
  · obtain ⟨hsearch, hnone⟩ := read_eq_none_iff.mp hstart
    have hsearch' : c.database.Searchable text := ⟨h.table ▸ hsearch.table, hsearch.size⟩
    obtain ⟨new, hrows, -, hnew, -⟩ := h.rows
    have hnow : c.database.rowsFor text = new.filter fun row => row.key == .text text := by
      rw [rowsFor_of_append hrows, hnone, List.nil_append]
    cases hfound : new.filter fun row => row.key == .text text with
    | nil => exact Or.inl ⟨read_of_nil hsearch' (hnow.trans hfound), hstart⟩
    | cons row rest =>
        obtain ⟨hmem, hkey⟩ := List.mem_filter.mp (hfound ▸ List.mem_cons_self : row ∈ _)
        obtain ⟨text', v, hadds⟩ := hnew row hmem
        have htext : text' = text := by
          rw [beq_iff_eq, hadds.key] at hkey
          exact Key.text.inj hkey
        subst htext
        rw [hadds.answerFor, read_of_cons hsearch' (hnow.trans hfound), hadds.vector]
        exact Or.inr rfl
  · right
    rw [h.read_of_ne hstart, Cache.answerFor]
    cases hread : start.read text with
    | error e => rfl
    | ok found =>
        cases found with
        | none => exact absurd hread hstart
        | some v => rfl

theorem read_push_of_ne {other : String} (hne : other ≠ text) {cell : Cell} :
    ({ c with database := c.database.push (.text text) cell } : Cache).read other =
      c.read other := by
  have htable := table_push c.database (.text text) cell
  by_cases hsearch : c.database.Searchable other
  · obtain ⟨id, hrows⟩ := rows_push hsearch.table (.text text) cell
    have hkept : (c.database.push (.text text) cell).rowsFor other = c.database.rowsFor other := by
      rw [rowsFor_of_append hrows, List.filter_cons_of_neg (by simpa using Ne.symm hne),
        List.filter_nil, List.append_nil]
    unfold Cache.read
    rw [value?_eq hsearch, value?_eq ⟨htable.trans hsearch.table, hsearch.size⟩, hkept]
  · exact read_of_not_searchable htable hsearch

theorem Since.requireLength (h : Since start f texts c) (v : Embedding) :
    c.requireLength v = start.requireLength v := by
  unfold Cache.requireLength
  rw [h.dimension]

theorem Since.push (h : Since start f texts c) {v : Embedding} {row : Row}
    (hadds : start.Adds f texts row text v) (hread : c.read text = .ok none)
    (hids : c.database.idsLeft ≠ 0) :
    Since start f texts { c with database := c.database.push row.key row.cell } := by
  obtain ⟨hsearch, hnone⟩ := read_eq_none_iff.mp hread
  obtain ⟨new, hold, hnodup, hall, hcount⟩ := h.rows
  obtain ⟨id, hrows⟩ := rows_push hsearch.table row.key row.cell
  refine ⟨h.dimension, h.blocked, (table_push ..).trans h.table, new ++ [⟨id, row.key, row.cell⟩],
    ?_, ?_, ?_, ?_⟩
  · rw [← List.append_assoc, ← hold]
    exact hrows
  · refine nodup_map_append_singleton Row.key hnodup fun hmem => ?_
    refine not_mem_keys_of_read hread ?_
    rw [hold, List.map_append, ← hadds.key]
    exact List.mem_append_right _ hmem
  · intro other hother
    rcases List.mem_append.mp hother with hmem | hmem
    · exact hall other hmem
    · rw [List.mem_singleton.mp hmem]
      exact ⟨text, v, { hadds with }⟩
  · have hpush := idsLeft_push hsearch.table hids row.key row.cell
    rw [List.length_append]
    show (c.database.push row.key row.cell).idsLeft + (new.length + 1) = _
    omega

theorem Since.absent (h : Since start f texts c) (hread : c.read text = .ok none) :
    start.read text = .ok none := by
  rcases h.read text with ⟨-, hstart⟩ | hanswer
  · exact hstart
  · rw [hread] at hanswer
    cases hfor : start.answerFor f text with
    | error e =>
        rw [hfor] at hanswer
        cases hanswer
    | ok v =>
        rw [hfor] at hanswer
        cases hanswer

theorem keys_subset_of_adds {new : List Row}
    (hadds : ∀ row ∈ new, ∃ text v, start.Adds f texts row text v) :
    new.map Row.key ⊆ (start.absentTexts texts).map .text := by
  intro key hkey
  obtain ⟨row, hrow, rfl⟩ := List.mem_map.mp hkey
  obtain ⟨text, v, hadded⟩ := hadds row hrow
  rw [hadded.key]
  exact List.mem_map_of_mem (mem_absentTexts.mpr ⟨hadded.asked, hadded.absent⟩)

/-- Each number that was used up is that of a text which was missing and is not any more. -/
theorem Since.absentTexts_le (h : Since start f texts c) {others : List String}
    (hsub : texts ⊆ others) :
    (c.absentTexts others).length + start.database.idsLeft ≤
      (start.absentTexts others).length + c.database.idsLeft := by
  obtain ⟨new, hrows, hnodup, hadds, hcount⟩ := h.rows
  have hmissing : ((c.absentTexts others).map Key.text ++ new.map Row.key).Nodup := by
    refine List.nodup_append.mpr ⟨(List.nodup_dedup _).map fun _ _ => Key.text.inj, hnodup, ?_⟩
    intro key hkey added hadded heq
    obtain ⟨text, htext, rfl⟩ := List.mem_map.mp hkey
    refine not_mem_keys_of_read (mem_absentTexts.mp htext).2 ?_
    rw [hrows, List.map_append, heq]
    exact List.mem_append_right _ hadded
  have hsubset : (c.absentTexts others).map Key.text ++ new.map Row.key ⊆
      (start.absentTexts others).map .text := by
    refine List.append_subset.mpr ⟨List.map_subset _ fun text htext => ?_, fun key hkey => ?_⟩
    · obtain ⟨hmem, hread⟩ := mem_absentTexts.mp htext
      exact mem_absentTexts.mpr ⟨hmem, h.absent hread⟩
    · obtain ⟨text, htext, rfl⟩ := List.mem_map.mp (keys_subset_of_adds hadds hkey)
      obtain ⟨hmem, hread⟩ := mem_absentTexts.mp htext
      exact List.mem_map_of_mem (mem_absentTexts.mpr ⟨hsub hmem, hread⟩)
  have hlength := (hmissing.subperm hsubset).length_le
  rw [List.length_append, List.length_map, List.length_map, List.length_map] at hlength
  omega

theorem Since.room (h : Since start f texts c) {others : List String} (hsub : texts ⊆ others)
    (hroom : start.Room others) : c.Room others := by
  have hleft := h.absentTexts_le hsub
  unfold Room at *
  omega

/-- The numbers run out only where there are too few for the missing texts. -/
theorem Since.not_room (h : Since start f texts c) (htext : text ∈ texts)
    (hread : c.read text = .ok none) (hids : c.database.idsLeft = 0) : ¬ start.Room texts := by
  intro hroom
  have hleft := (h.room (List.Subset.refl _) hroom).idsLeft_pos htext hread
  omega

theorem Since.eq_answerFor (h : Since start f texts c) {a : Answer}
    (hread : c.read text = a.map some) : a = start.answerFor f text := by
  have hsome : ∀ b : Answer, b.map some ≠ .ok none := by
    intro b
    cases b with
    | error e => exact fun heq => by cases heq
    | ok v => exact fun heq => by cases heq
  rcases h.read text with ⟨hnone, -⟩ | hanswer
  · exact absurd (hread.symm.trans hnone) (hsome a)
  · have hmap := hread.symm.trans hanswer
    cases a with
    | error e =>
        cases hfor : start.answerFor f text with
        | error e' => rw [hfor] at hmap; cases hmap; rfl
        | ok v => rw [hfor] at hmap; cases hmap
    | ok v =>
        cases hfor : start.answerFor f text with
        | error e' => rw [hfor] at hmap; cases hmap
        | ok v' => rw [hfor] at hmap; cases hmap; rfl

/-- A computation that ends for a text without a row: the answer is what it would be at the start,
if there is a number for the row, and a row comes unless it fails. -/
theorem Since.conclude (h : Since start f texts c) (htext : text ∈ texts)
    (hread : c.read text = .ok none) :
    ∃ db, (c.conclude text (f text)).1 = { c with database := db } ∧
      Lands start f texts text (c.conclude text (f text)).2 ∧
      Since start f texts { c with database := db } ∧
      ((c.conclude text (f text)).2.isOk → db.rows.length = c.database.rows.length + 1) ∧
      ∀ other, other ≠ text → ({ c with database := db } : Cache).read other = c.read other := by
  have hstart := h.absent hread
  have hlands : Lands start f texts text (c.conclude text (f text)).2 := by
    obtain ⟨new, -, -, -, hcount⟩ := h.rows
    have halone : start.answerFor f text = (start.conclude text (f text)).2 := by
      simp only [Cache.answerFor, hstart]
    rcases conclude_answer hstart hread h.dimension h.blocked (by omega) (f text) with
      hsame | ⟨hids, hfull⟩
    · exact Or.inl (hsame.trans halone.symm)
    · exact Or.inr ⟨h.not_room htext hread hids, hfull⟩
  rcases conclude_cases hread (f text) with
    ⟨e, hfails⟩ | ⟨v, hf, hlength, hblocked, hids, hfits, hstored⟩
  · rw [hfails] at hlands ⊢
    exact ⟨c.database, rfl, hlands, h, fun hok => (by cases hok), fun _ _ => rfl⟩
  · rw [hstored] at hlands ⊢
    obtain ⟨hsearch, hnone⟩ := read_eq_none_iff.mp hread
    obtain ⟨id, hrows⟩ := rows_push hsearch.table (.text text) (.blob (Blob.encode v))
    have hadds : start.Adds f texts ⟨id, .text text, .blob (Blob.encode v)⟩ text v := by
      obtain ⟨new, -, -, -, hcount⟩ := h.rows
      exact ⟨htext, rfl, rfl, hf, hstart, h.requireLength v ▸ hlength, h.blocked ▸ hblocked,
        by omega, hfits⟩
    refine ⟨_, rfl, hlands, h.push hadds hread hids, fun _ => ?_, fun other hne => ?_⟩
    · rw [hrows, List.length_append]
      rfl
    · exact read_push_of_ne hne

end Since

/-! ## Calls -/

/-- The calls are in order, the rows are those that they have added, and each call is in line or
computes for a text without a row. -/
structure Crew (start : Cache) (f : String → Answer) (texts : List String) (c : Cache) : Prop where
  orderly : Orderly c
  since : Since start f texts c
  working : ∀ call ∈ c.calls,
    call.phase = .queued ∨ call.phase = .computing ∧ c.read call.text = .ok none

/-- From one cache to another, the calls of other numbers stay, and so do their grants. -/
structure Apart (id : CallId) (c c' : Cache) : Prop where
  calls : ∀ call, call.id ≠ id → (call ∈ c'.calls ↔ call ∈ c.calls)
  granted : ∀ other, other ≠ id → other ∈ c.granted → other ∈ c'.granted

theorem Apart.refl (id : CallId) (c : Cache) : Apart id c c :=
  ⟨fun _ _ => Iff.rfl, fun _ _ h => h⟩

theorem Apart.trans {id : CallId} {c₁ c₂ c₃ : Cache} (h : Apart id c₁ c₂) (h' : Apart id c₂ c₃) :
    Apart id c₁ c₃ :=
  ⟨fun call hne => (h'.calls call hne).trans (h.calls call hne),
    fun other hne hmem => h'.granted other hne (h.granted other hne hmem)⟩

theorem Apart.congr {id : CallId} {c c₁ c₂ : Cache} (h : Apart id c c₁) (hsame : SameFlight c₁ c₂) :
    Apart id c c₂ :=
  ⟨fun call hne => hsame.calls ▸ h.calls call hne,
    fun other hne hmem => hsame.granted ▸ h.granted other hne hmem⟩

section Crew

variable {start c c' : Cache} {f : String → Answer} {texts : List String} {text : String}
  {call : Call}

theorem Crew.congr (h : Crew start f texts c) (hsame : SameFlight c c')
    (hdatabase : c'.database = c.database) (hdimension : c'.dimension = c.dimension) :
    Crew start f texts c' := by
  refine ⟨h.orderly.congr hsame, h.since.congr hdatabase hdimension, ?_⟩
  rw [hsame.calls]
  intro call hcall
  rw [read_congr hdatabase]
  exact h.working call hcall

theorem Crew.enqueue (h : Crew start f texts c) (text : String) :
    Crew start f texts (c.enqueue text).1 ∧ Apart c.nextCall c (c.enqueue text).1 ∧
      ∃ lock, ⟨c.nextCall, text, lock, .queued⟩ ∈ (c.enqueue text).1.calls := by
  have hcalls := calls_enqueue c text
  rw [nextCall_lockFor] at hcalls
  refine ⟨⟨h.orderly.enqueue text, ?_, fun call hcall => ?_⟩, ⟨fun call hne => ?_, ?_⟩, ?_⟩
  · exact h.since.congr (database_enqueue c text) (dimension_enqueue c text)
  · rw [read_congr (database_enqueue c text)]
    rw [hcalls] at hcall
    rcases List.mem_append.mp hcall with hold | hlast
    · exact h.working call hold
    · rw [List.mem_singleton.mp hlast]
      exact Or.inl rfl
  · rw [hcalls, List.mem_append, List.mem_singleton]
    constructor
    · rintro (hold | rfl)
      · exact hold
      · exact absurd rfl hne
    · exact Or.inl
  · exact fun other _ hmem => (granted_enqueue c text).subset hmem
  · exact ⟨_, hcalls ▸ List.mem_append_right _ (List.mem_singleton_self _)⟩

theorem Crew.takeUp (h : Crew start f texts c) (hcall : call ∈ c.calls)
    (hgranted : call.id ∈ c.granted) (hread : c.read call.text = .ok none) :
    let c' : Cache := ({ c with granted := c.granted.erase call.id } : Cache).setPhase call.id
      .computing
    Crew start f texts c' ∧ Apart call.id c c' ∧ { call with phase := .computing } ∈ c'.calls := by
  intro c'
  have hmem : ∀ new, new ∈ c'.calls ↔
      new = { call with phase := .computing } ∨ new ∈ c.calls ∧ new.id ≠ call.id :=
    fun new => h.orderly.mem_setPhase hcall
  obtain ⟨first, hfirst, hid, -, hhead⟩ := (h.orderly.granted _).mp hgranted
  rw [h.orderly.eq_of_id_eq hfirst hcall hid] at hhead
  refine ⟨⟨h.orderly.setPhase hcall hhead (by decide), h.since.congr rfl rfl, ?_⟩, ⟨?_, ?_⟩, ?_⟩
  · intro new hnew
    rcases (hmem new).mp hnew with rfl | ⟨hold, -⟩
    · exact Or.inr ⟨rfl, hread⟩
    · exact h.working new hold
  · intro new hne
    rw [hmem]
    constructor
    · rintro (rfl | ⟨hold, -⟩)
      · exact absurd rfl hne
      · exact hold
    · exact fun hold => Or.inr ⟨hold, hne⟩
  · intro other hne hother
    exact (List.mem_erase_of_ne hne).mpr hother
  · exact (hmem _).mpr (Or.inl rfl)

theorem Filed.apart_finish (h : Filed c) (hcall : call ∈ c.calls) :
    Apart call.id c (c.finish call.id) := by
  refine ⟨fun other hne => ?_, fun other hne hother => ?_⟩
  · rw [h.mem_calls_finish hcall]
    exact and_iff_left hne
  · rw [h.granted_finish hcall]
    exact List.mem_append_left _ ((List.mem_erase_of_ne hne).mpr hother)

theorem Crew.finish (h : Crew start f texts c) (hcall : call ∈ c.calls) :
    Crew start f texts (c.finish call.id) ∧ Apart call.id c (c.finish call.id) ∧
      ∀ other ∈ (c.finish call.id).calls, other.id ≠ call.id := by
  have hmem : ∀ other, other ∈ (c.finish call.id).calls ↔ other ∈ c.calls ∧ other.id ≠ call.id :=
    fun other => h.orderly.mem_calls_finish hcall
  refine ⟨⟨h.orderly.finish hcall, ?_, fun other hother => ?_⟩, h.orderly.apart_finish hcall,
    fun other hother => ((hmem other).mp hother).2⟩
  · exact h.since.congr (database_finish c call.id) (dimension_finish c call.id)
  · rw [read_congr (database_finish c call.id)]
    exact h.working other ((hmem other).mp hother).1

theorem Crew.land (h : Crew start f texts c) (hcall : call ∈ c.calls)
    (hphase : call.phase = .computing) (htext : call.text ∈ texts) :
    let c' := ((c.conclude call.text (f call.text)).1).finish call.id
    Crew start f texts c' ∧ Apart call.id c c' ∧ (∀ other ∈ c'.calls, other.id ≠ call.id) ∧
      Lands start f texts call.text (c.conclude call.text (f call.text)).2 ∧
      ((c.conclude call.text (f call.text)).2.isOk →
        c'.database.rows.length = c.database.rows.length + 1) ∧
      ∀ other, other ≠ call.text → c'.read other = c.read other := by
  intro c'
  have hread : c.read call.text = .ok none := by
    rcases h.working call hcall with hqueued | ⟨-, hread⟩
    · rw [hphase] at hqueued
      cases hqueued
    · exact hread
  obtain ⟨db, hdb, hanswer, hsince, hcount, hothers⟩ := h.since.conclude htext hread
  have hsame : SameFlight c { c with database := db } := ⟨rfl, rfl, rfl, rfl, rfl, rfl⟩
  have horderly : Orderly { c with database := db } := h.orderly.congr hsame
  have hmem : ∀ other, other ∈ c'.calls ↔ other ∈ c.calls ∧ other.id ≠ call.id := by
    intro other
    show other ∈ ((c.conclude call.text (f call.text)).1.finish call.id).calls ↔ _
    rw [hdb]
    exact horderly.mem_calls_finish hcall
  have hdatabase : c'.database = db := by
    show ((c.conclude call.text (f call.text)).1.finish call.id).database = db
    rw [database_finish, hdb]
  have hreads : ∀ other, other ≠ call.text → c'.read other = c.read other := fun other hne =>
    (@read_congr { c with database := db } c' hdatabase other).trans (hothers other hne)
  refine ⟨⟨?_, ?_, fun other hother => ?_⟩, ?_, fun other hother => ((hmem other).mp hother).2,
    hanswer, fun hok => hdatabase ▸ hcount hok, hreads⟩
  · show Orderly ((c.conclude call.text (f call.text)).1.finish call.id)
    rw [hdb]
    exact horderly.finish hcall
  · refine hsince.congr hdatabase ?_
    show ((c.conclude call.text (f call.text)).1.finish call.id).dimension = c.dimension
    rw [dimension_finish, hdb]
  · obtain ⟨hold, hne⟩ := (hmem other).mp hother
    rcases h.working other hold with hqueued | ⟨hcomputing, hother'⟩
    · exact Or.inl hqueued
    · right
      refine ⟨hcomputing, ?_⟩
      -- Another call that computes does so for another text.
      have hdiffer : other.text ≠ call.text := by
        intro heq
        refine hne (congrArg Call.id (h.orderly.eq_of_not_queued hold hcall heq ?_ ?_))
        · rw [hcomputing]
          decide
        · rw [hphase]
          decide
      rw [hreads other.text hdiffer]
      exact hother'
  · show Apart call.id c ((c.conclude call.text (f call.text)).1.finish call.id)
    rw [hdb]
    have hapart := horderly.apart_finish hcall
    exact ⟨hapart.calls, hapart.granted⟩

end Crew

end Cache

end NearNotes
