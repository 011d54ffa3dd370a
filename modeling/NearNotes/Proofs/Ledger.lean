import Mathlib
import NearNotes.Proofs.Blob
import NearNotes.Proofs.Flight.Alone

/-!
# The cache is an insert-once ledger

A `Ledger` is an ordered list of texts with their vectors and knows neither rows nor bytes nor
locks. Operations on a cache, one after the other, answer what they answer on a ledger.

* `Ledger` : the abstract store; `Ledger.store`, `Ledger.getOrCompute` : its two writers;
* `Operation`, `Result` : what can be asked and what is answered; `Ledger.perform` and
  `Session.perform` : the two ways to answer; `performAll` : one operation after the other;
* `Stores`, `Represents` : the database has exactly the entries of the ledger, and no call is in
  progress;
* `Represents.perform`, `Represents.performAll` : operations keep that, and get the ledger's answers;
* `Ledger.performAll_entries` : entries stay where they are;
* `Session.performs_as_ledger` : so it is from a database without rows on, as long as there are numbers
  and no row is too big; `Session.store_beyond_limits` : and else not.
-/

namespace NearNotes

open Cache

/-- An ordered list of texts with their vectors. -/
structure Ledger where
  entries : List Entry := []
  /-- The length that every vector must have, if one is enforced. -/
  dimension : Option Nat := none
deriving DecidableEq, Repr

namespace Ledger

def find? (l : Ledger) (text : String) : Option Embedding :=
  (l.entries.find? (·.text == text)).map Entry.embedding

/-- Refuses a vector of another length than the enforced one. -/
def check (l : Ledger) (v : Embedding) : Except EmbedError Unit :=
  match l.dimension with
  | none => .ok ()
  | some expected =>
    if v.length = expected then .ok () else .error (.dimensionMismatch expected v.length)

def add (l : Ledger) (text : String) (v : Embedding) : Ledger :=
  { l with entries := l.entries ++ [⟨text, v⟩] }

/-- An absent text is added; a present one keeps its vector, and any other is refused. -/
def store (l : Ledger) (text : String) (v : Embedding) : Ledger × Except EmbedError Unit :=
  match l.check v with
  | .error e => (l, .error e)
  | .ok () =>
    match l.find? text with
    | none => (l.add text v, .ok ())
    | some stored => (l, if stored = v then .ok () else .error (.duplicateKey text))

/-- The vector of a computation for an absent text, if it is one and of the right length, is added
and is the answer. -/
def accept (l : Ledger) (text : String) : Answer → Ledger × Answer
  | .error e => (l, .error e)
  | .ok v =>
    match l.check v with
    | .error e => (l, .error e)
    | .ok () => (l.add text v, .ok v)

/-- A present text is answered without computing. The list tells what was computed. -/
def getOrCompute (l : Ledger) (text : String) (outcome : Answer) : Ledger × Answer × List Input :=
  match l.find? text with
  | some v => (l, .ok v, [])
  | none =>
    let (l, answer) := l.accept text outcome
    (l, answer, [.one text])

theorem length_add (l : Ledger) (text : String) (v : Embedding) :
    (l.add text v).entries.length = l.entries.length + 1 := List.length_append

theorem length_accept_le (l : Ledger) (text : String) (outcome : Answer) :
    (l.accept text outcome).1.entries.length ≤ l.entries.length + 1 := by
  unfold accept
  split
  · exact Nat.le_succ _
  · split
    · exact Nat.le_succ _
    · exact (l.length_add text _).le

theorem find?_add {l : Ledger} {text : String} (h : l.find? text = none) (v : Embedding) :
    (l.add text v).find? text = some v := by
  rw [find?, Option.map_eq_none_iff] at h
  simp [find?, add, List.find?_append, h]

end Ledger

/-! ## Operations -/

inductive Operation
  | store (text : String) (v : Embedding)
  | lookup (text : String)
  /-- A computation, if there is one, takes some time and comes to the outcome. -/
  | getOrCompute (text : String) (delay : Duration) (outcome : Answer)
  | entries
  | size
  | isEmpty
  | prepare
  /-- The cache is opened anew on its database, and may enforce another dimension. -/
  | reopen (dimension : Option Nat)

inductive Result
  | done (outcome : Except EmbedError Unit)
  | found (outcome : Except EmbedError (Option Embedding))
  /-- The answer, if the call ends, and what was computed for it. -/
  | answer (answer : Option Answer) (computed : List Input)
  | entries (outcome : Except EmbedError (List Entry))
  | size (outcome : Except EmbedError Nat)
  | isEmpty (outcome : Except EmbedError Bool)

/-- The database takes the operation's text, and its vector in a row of the text. -/
def Operation.Fits : Operation → Prop
  | store text v => FitsRow text v
  | lookup text => text.utf8ByteSize ≤ Table.mostBytes
  | getOrCompute text _ outcome =>
    text.utf8ByteSize ≤ Table.mostBytes ∧ ∀ v, outcome = .ok v → FitsRow text v
  | _ => True

/-- The numbers that an operation may use up. -/
def Operation.inserts : Operation → Nat
  | store .. | getOrCompute .. => 1
  | _ => 0

def Ledger.perform (l : Ledger) : Operation → Ledger × Result
  | .store text v => let (l, outcome) := l.store text v; (l, .done outcome)
  | .lookup text => (l, .found (.ok (l.find? text)))
  | .getOrCompute text _ outcome =>
    let (l, answer, computed) := l.getOrCompute text outcome
    (l, .answer (some answer) computed)
  | .entries => (l, .entries (.ok l.entries))
  | .size => (l, .size (.ok l.entries.length))
  | .isEmpty => (l, .isEmpty (.ok l.entries.isEmpty))
  | .prepare => (l, .done (.ok ()))
  | .reopen dimension => ({ l with dimension }, .done (.ok ()))

/-- A cache on a database that may enforce a dimension. -/
def Cache.openWith (db : Database) (dimension : Option Nat) : Except EmbedError Cache :=
  (openOn db).map fun c => dimension.elim c c.enforcing

/-- The session after the cache was replaced, or else the failure to do so. -/
def Session.replace (s : Session) : Except EmbedError Cache → Session × Result
  | .ok c => ({ s with cache := c }, .done (.ok ()))
  | .error e => (s, .done (.error e))

def Session.perform (s : Session) : Operation → Session × Result
  | .store text v =>
    let (c, outcome) := s.cache.write text v
    ({ s with cache := c }, .done outcome)
  | .lookup text => (s, .found (s.cache.read text))
  | .getOrCompute text delay outcome =>
    let (s', answer) := (Provider.cached (.source (.always { delay, outcome }))).embed text s
    (s', .answer answer ((s'.log.drop s.log.length).map CallRecord.input))
  | .entries => (s, .entries s.cache.contents)
  | .size => (s, .size s.cache.size)
  | .isEmpty => (s, .isEmpty s.cache.isEmpty)
  | .prepare => s.replace s.cache.prepare
  | .reopen dimension => s.replace (Cache.openWith s.cache.database dimension)

def performAll {σ : Type} (perform : σ → Operation → σ × Result) :
    σ → List Operation → σ × List Result
  | s, [] => (s, [])
  | s, operation :: rest =>
    let (s, result) := perform s operation
    let (s, results) := performAll perform s rest
    (s, result :: results)

/-! ## Rows and entries -/

/-- A row holds an entry: its text, and its vector as a blob that can be read back. -/
structure Holds (row : Row) (e : Entry) : Prop where
  key : row.key = .text e.text
  cell : row.cell = .blob (Blob.encode e.embedding)
  fits : e.embedding.length < 2 ^ 32

/-- A database has exactly the entries of a list, with distinct texts, and takes new rows. -/
structure Stores (db : Database) (entries : List Entry) : Prop where
  table : db.table.isSome
  unblocked : db.blocked = false
  rows : List.Forall₂ Holds db.rows entries
  distinct : (entries.map Entry.text).Nodup

namespace Stores

variable {db : Database} {l : Ledger}

theorem keys_eq {rows : List Row} {entries : List Entry} (h : List.Forall₂ Holds rows entries) :
    rows.map Row.key = (entries.map Entry.text).map Key.text := by
  induction h with
  | nil => rfl
  | cons hrow _ ih => rw [List.map_cons, List.map_cons, List.map_cons, ih, hrow.key]

theorem find?_rows {rows : List Row} {entries : List Entry} (h : List.Forall₂ Holds rows entries)
    (text : String) :
    (rows.filter fun row => row.key == .text text).head?.map Row.cell =
      ((entries.find? (·.text == text)).map Entry.embedding).map (.blob <| Blob.encode ·) := by
  induction h with
  | nil => rfl
  | @cons row e rows entries hrow _ ih =>
      by_cases htext : e.text = text
      · have hkey : (row.key == .text text) = true := by simp [hrow.key, htext]
        simp [hkey, htext, hrow.cell]
      · have hkey : (row.key == .text text) = false := by simp [hrow.key, htext]
        simpa [hkey, htext] using ih

theorem value? (h : Stores db l.entries) {text : String}
    (hsize : text.utf8ByteSize ≤ Table.mostBytes) :
    db.value? text = .ok ((l.find? text).map (.blob <| Blob.encode ·)) := by
  rw [Database.value?_eq ⟨h.table, hsize⟩, Database.rowsFor, find?_rows h.rows, Ledger.find?]

theorem fits_of_mem {rows : List Row} {entries : List Entry}
    (h : List.Forall₂ Holds rows entries) {e : Entry} (he : e ∈ entries) :
    e.embedding.length < 2 ^ 32 := by
  induction h with
  | nil => cases he
  | cons hrow _ ih =>
      rcases List.mem_cons.mp he with rfl | he
      · exact hrow.fits
      · exact ih he

theorem fits_of_find? (h : Stores db l.entries) {text : String} {v : Embedding}
    (hv : l.find? text = some v) : v.length < 2 ^ 32 := by
  obtain ⟨e, he, rfl⟩ := Option.map_eq_some_iff.mp hv
  exact fits_of_mem h.rows (List.mem_of_find?_eq_some he)

theorem read {c : Cache} (h : Stores c.database l.entries) {text : String}
    (hsize : text.utf8ByteSize ≤ Table.mostBytes) : c.read text = .ok (l.find? text) := by
  unfold Cache.read
  rw [h.value? hsize]
  cases hfound : l.find? text with
  | none => rfl
  | some v =>
      have hdecode := Blob.decode_encode (h.fits_of_find? hfound)
      show (do return some (← Blob.decode (Blob.encode v)) : Except EmbedError _) = _
      rw [hdecode]
      rfl

/-- The key of a text is among the rows exactly if the ledger finds the text. -/
theorem mem_keys_iff (h : Stores db l.entries) (text : String) :
    Key.text text ∈ db.rows.map Row.key ↔ (l.find? text).isSome := by
  rw [keys_eq h.rows, Ledger.find?, Option.isSome_map, List.find?_isSome]
  simp

theorem idsLeft_insertNew (h : Stores db l.entries) {db' : Database} {key : Key} {cell : Cell}
    {added : Bool} (hinsert : db.insertNew key cell = .ok (db', added)) :
    db'.idsLeft + 1 = db.idsLeft := by
  obtain ⟨hblocked, -⟩ | ⟨-, hids⟩ := Database.idsLeft_of_insertNew hinsert
  · rw [h.unblocked] at hblocked
    cases hblocked
  · exact hids

theorem insertNew_absent (h : Stores db l.entries) {text : String} {v : Embedding}
    (hnone : l.find? text = none) (hfits : FitsRow text v) (hids : 0 < db.idsLeft) :
    ∃ db', db.insertNew (.text text) (.blob (Blob.encode v)) = .ok (db', true) ∧
      Stores db' (l.add text v).entries ∧ db'.idsLeft + 1 = db.idsLeft := by
  have hnew : Key.text text ∉ db.rows.map Row.key := by
    rw [h.mem_keys_iff, hnone]
    exact Bool.false_ne_true
  obtain ⟨db', added, hinsert⟩ := Database.insertNew_eq_ok h.table hfits (Or.inr hids)
  obtain ⟨-, htable, hblocked, ⟨-, -, hold⟩ | ⟨rfl, -, id, hrows⟩⟩ :=
    Database.insertNew_cases hinsert
  · rcases hold with hold | hold
    · rw [h.unblocked] at hold
      cases hold
    · exact absurd hold hnew
  · refine ⟨db', hinsert, ⟨htable, hblocked.trans h.unblocked, ?_, ?_⟩,
      h.idsLeft_insertNew hinsert⟩
    · rw [hrows]
      exact List.rel_append h.rows (.cons ⟨rfl, rfl, hfits.length_lt⟩ .nil)
    · have htext : text ∉ l.entries.map Entry.text := by
        intro hmem
        exact hnew (keys_eq h.rows ▸ List.mem_map_of_mem hmem)
      exact nodup_map_append_singleton Entry.text h.distinct htext

theorem insertNew_present (h : Stores db l.entries) {text : String} {v stored : Embedding}
    (hsome : l.find? text = some stored) (hfits : FitsRow text v) (hids : 0 < db.idsLeft) :
    ∃ db', db.insertNew (.text text) (.blob (Blob.encode v)) = .ok (db', false) ∧
      Stores db' l.entries ∧ db'.idsLeft + 1 = db.idsLeft := by
  have hold : Key.text text ∈ db.rows.map Row.key := by
    rw [h.mem_keys_iff, hsome]
    rfl
  obtain ⟨db', added, hinsert⟩ := Database.insertNew_eq_ok h.table hfits (Or.inr hids)
  obtain ⟨-, htable, hblocked, ⟨rfl, hrows, -⟩ | ⟨-, hnew, -⟩⟩ := Database.insertNew_cases hinsert
  · exact ⟨db', hinsert, ⟨htable, hblocked.trans h.unblocked, hrows ▸ h.rows, h.distinct⟩,
      h.idsLeft_insertNew hinsert⟩
  · exact absurd hold hnew

/-- Blobs are equal exactly if the vectors are, bit for bit. -/
theorem compareStored (h : Stores db l.entries) {text : String} {v stored : Embedding}
    (hsome : l.find? text = some stored) (hfits : FitsRow text v) :
    Cache.compareStored db text (Blob.encode v) =
      if stored = v then .ok () else .error (.duplicateKey text) := by
  have hinj : Blob.encode stored = Blob.encode v ↔ stored = v :=
    Blob.encode_inj (h.fits_of_find? hsome) hfits.length_lt
  unfold Cache.compareStored
  rw [h.value? hfits.text_le, hsome]
  simp only [bind, Except.bind, Option.map_some, Cell.asBlob, hinj]
  rfl

theorem prepare (h : Stores db l.entries) : db.prepare = .ok db := by
  obtain ⟨t, ht⟩ := Option.isSome_iff_exists.mp h.table
  have hkeys : (db.rows.map Row.key).Nodup := by
    rw [keys_eq h.rows]
    exact h.distinct.map fun _ _ => Key.text.inj
  rw [Database.rows_of_table ht] at hkeys
  have hdistinct : t.hasDistinctKeys = true := decide_eq_true hkeys
  simp only [Database.prepare, ht, hdistinct, if_true]

/-- A database without rows is made ready as one that stores nothing, with as many numbers left. -/
theorem prepare_of_empty (hblocked : db.blocked = false) (hempty : db.rows = []) :
    ∃ db', db.prepare = .ok db' ∧ Stores db' [] ∧ db'.idsLeft = db.idsLeft := by
  cases htable : db.table with
  | none =>
      refine ⟨{ db with table := some {} }, by rw [Database.prepare, htable], ?_, ?_⟩
      · exact ⟨rfl, hblocked, .nil, List.nodup_nil⟩
      · rw [Database.idsLeft, Database.idsLeft, htable]
        rfl
  | some t =>
      have hstores : Stores db ({} : Ledger).entries :=
        ⟨by rw [htable]; rfl, hblocked, hempty ▸ .nil, List.nodup_nil⟩
      exact ⟨db, hstores.prepare, hstores, rfl⟩

theorem size {c : Cache} (h : Stores c.database l.entries) : c.size = .ok l.entries.length := by
  obtain ⟨t, ht⟩ := Option.isSome_iff_exists.mp h.table
  have hlength := h.rows.length_eq
  rw [Database.rows_of_table ht] at hlength
  unfold Cache.size Database.rowsOf
  rw [ht, ← hlength]
  rfl

theorem isEmpty {c : Cache} (h : Stores c.database l.entries) :
    c.isEmpty = .ok l.entries.isEmpty := by
  unfold Cache.isEmpty
  rw [h.size]
  cases l.entries with
  | nil => rfl
  | cons e entries => rfl

theorem mapM_columns {rows : List Row} {entries : List Entry}
    (h : List.Forall₂ Holds rows entries) :
    ∃ columns, rows.mapM Row.columns = .ok columns ∧
      columns.mapM Entry.ofColumns = .ok entries := by
  induction h with
  | nil => exact ⟨[], rfl, rfl⟩
  | @cons row e rows entries hrow _ ih =>
      obtain ⟨columns, hcolumns, hentries⟩ := ih
      have hfirst : row.columns = .ok (row.id, e.text, Blob.encode e.embedding) := by
        unfold Row.columns
        rw [hrow.key, hrow.cell]
        rfl
      have hparse : Blob.parse (Blob.encode e.embedding) = .ok e.embedding :=
        Blob.decode_eq_ok_iff_parse.mp (Blob.decode_encode hrow.fits)
      refine ⟨(row.id, e.text, Blob.encode e.embedding) :: columns, ?_, ?_⟩
      · rw [List.mapM_cons, hfirst, hcolumns]
        rfl
      · rw [List.mapM_cons, hentries, Entry.ofColumns, hparse]
        rfl

theorem contents_of_rows {c : Cache} (htable : c.database.table.isSome) {entries : List Entry}
    (hrows : List.Forall₂ Holds c.database.rows entries) : c.contents = .ok entries := by
  obtain ⟨t, ht⟩ := Option.isSome_iff_exists.mp htable
  obtain ⟨columns, hcolumns, hentries⟩ := mapM_columns (Database.rows_of_table ht ▸ hrows)
  unfold Cache.contents Database.rowsOf
  rw [ht]
  simp only [bind, Except.bind, hcolumns, hentries]

theorem contents {c : Cache} (h : Stores c.database l.entries) : c.contents = .ok l.entries :=
  contents_of_rows h.table h.rows

end Stores

/-! ## The simulation -/

/-- No call is in progress, and the database has exactly the entries of the ledger. -/
structure Represents (c : Cache) (l : Ledger) : Prop where
  idle : Idle c
  dimension : c.dimension = l.dimension
  stores : Stores c.database l.entries

namespace Represents

variable {c : Cache} {l : Ledger}

theorem requireLength (h : Represents c l) (v : Embedding) : c.requireLength v = l.check v := by
  unfold Cache.requireLength Ledger.check
  rw [h.dimension]
  cases l.dimension with
  | none => rfl
  | some expected =>
      by_cases hlength : v.length = expected
      · simp [hlength]
      · simp [hlength, Ne.symm hlength]

theorem withDatabase (h : Represents c l) {db : Database} {entries : List Entry}
    (hstores : Stores db entries) :
    Represents { c with database := db } { l with entries } :=
  ⟨⟨h.idle.calls, h.idle.keys, h.idle.locks, h.idle.granted⟩, h.dimension, hstores⟩

/-- Storing goes as in the ledger, and uses up one number at most. -/
theorem write (h : Represents c l) {text : String} {v : Embedding} (hfits : FitsRow text v)
    (hids : 0 < c.database.idsLeft) :
    Represents (c.write text v).1 (l.store text v).1 ∧
      (c.write text v).2 = (l.store text v).2 ∧
      c.database.idsLeft ≤ (c.write text v).1.database.idsLeft + 1 := by
  unfold Cache.write Ledger.store
  rw [h.requireLength]
  cases l.check v with
  | error e => exact ⟨h, rfl, Nat.le_succ _⟩
  | ok _ =>
      cases hfound : l.find? text with
      | none =>
          obtain ⟨db, hinsert, hstores, hleft⟩ := h.stores.insertNew_absent hfound hfits hids
          simp only [hinsert]
          exact ⟨h.withDatabase hstores, trivial, hleft.ge⟩
      | some stored =>
          obtain ⟨db, hinsert, hstores, hleft⟩ := h.stores.insertNew_present hfound hfits hids
          simp only [hinsert]
          exact ⟨h.withDatabase hstores, hstores.compareStored hfound hfits, hleft.ge⟩

/-- The outcome of a computation for an absent text goes as in the ledger, and a number is used up
exactly for a new entry. -/
theorem conclude (h : Represents c l) {text : String} (hnone : l.find? text = none)
    {outcome : Answer} (htakes : ∀ v, outcome = .ok v → FitsRow text v ∧ 0 < c.database.idsLeft) :
    Represents (c.conclude text outcome).1 (l.accept text outcome).1 ∧
      (c.conclude text outcome).2 = (l.accept text outcome).2 ∧
      (c.conclude text outcome).1.database.idsLeft +
          (l.accept text outcome).1.entries.length =
        c.database.idsLeft + l.entries.length := by
  cases outcome with
  | error e => exact ⟨h, rfl, rfl⟩
  | ok v =>
      unfold Cache.conclude Ledger.accept
      simp only [h.requireLength]
      cases l.check v with
      | error e => exact ⟨h, rfl, rfl⟩
      | ok _ =>
          obtain ⟨hrow, hids⟩ := htakes v rfl
          obtain ⟨db, hinsert, hstores, hleft⟩ := h.stores.insertNew_absent hnone hrow hids
          have hread : ({ c with database := db } : Cache).read text =
              .ok ((l.add text v).find? text) := hstores.read (l := l.add text v) hrow.text_le
          rw [Ledger.find?_add hnone] at hread
          unfold offer readBack
          simp only [hinsert, hread]
          refine ⟨h.withDatabase hstores, trivial, ?_⟩
          rw [← hleft, Ledger.length_add]
          omega

theorem vacated (h : Represents c l) : Represents c.vacated l :=
  ⟨idle_vacated c, h.dimension, h.stores⟩

theorem missed (h : Represents c l) : Represents c.missed l :=
  ⟨⟨h.idle.calls, h.idle.keys, h.idle.locks, h.idle.granted⟩, h.dimension, h.stores⟩

/-- A present text is answered from its row, and an absent one is computed once. -/
theorem getOrCompute {s : Session} (h : Represents s.cache l) {text : String} (delay : Duration)
    {outcome : Answer} (hsize : text.utf8ByteSize ≤ Table.mostBytes)
    (hfits : ∀ v, outcome = .ok v → FitsRow text v) (hids : 0 < s.cache.database.idsLeft) :
    Represents (s.perform (.getOrCompute text delay outcome)).1.cache
        (l.perform (.getOrCompute text delay outcome)).1 ∧
      (s.perform (.getOrCompute text delay outcome)).2 =
        (l.perform (.getOrCompute text delay outcome)).2 ∧
      s.cache.database.idsLeft ≤
        (s.perform (.getOrCompute text delay outcome)).1.cache.database.idsLeft + 1 := by
  have hread := h.stores.read hsize
  cases hfound : l.find? text with
  | some v =>
      rw [hfound] at hread
      simp only [Session.perform, Provider.embed_of_hit _ hread, Ledger.perform,
        Ledger.getOrCompute, hfound, List.drop_length, List.map_nil, true_and]
      exact ⟨⟨⟨h.idle.calls, h.idle.keys, h.idle.locks, h.idle.granted⟩, h.dimension, h.stores⟩,
        Nat.le_succ _⟩
  | none =>
      rw [hfound] at hread
      obtain ⟨hrep, hanswer, hleft⟩ := h.missed.conclude hfound fun v hv => ⟨hfits v hv, hids⟩
      have hlength := l.length_accept_le text outcome
      have hreply : (Source.always { delay, outcome }).reply s.log.length text =
          { delay, outcome } := rfl
      simp only [Session.perform, Provider.embed_of_miss _ h.idle hread hreply, overtaken_none,
        Ledger.perform, Ledger.getOrCompute, hfound, List.drop_left, List.map_singleton, hanswer,
        true_and]
      refine ⟨hrep.vacated, ?_⟩
      change _ = s.cache.database.idsLeft + _ at hleft
      show _ ≤ (s.cache.missed.conclude text outcome).1.database.idsLeft + 1
      omega

/-- A cache that is opened on prepared rows represents them, under the dimension asked for. -/
theorem openWith {db db' : Database} {entries : List Entry} (hprepare : db.prepare = .ok db')
    (hstores : Stores db' entries) (dimension : Option Nat) :
    ∃ c, Cache.openWith db dimension = .ok c ∧ Represents c ⟨entries, dimension⟩ ∧
      c.database = db' := by
  have hopen : openOn db = .ok { database := db' } := by
    unfold openOn
    rw [hprepare]
    rfl
  unfold Cache.openWith
  rw [hopen]
  cases dimension with
  | none => exact ⟨_, rfl, ⟨⟨rfl, rfl, rfl, rfl⟩, rfl, hstores⟩, rfl⟩
  | some expected => exact ⟨_, rfl, ⟨⟨rfl, rfl, rfl, rfl⟩, rfl, hstores⟩, rfl⟩

/-- **One operation** keeps what the cache represents, is answered as the ledger answers and uses
up no more numbers than it may. -/
theorem perform {s : Session} (h : Represents s.cache l) {operation : Operation}
    (hfits : operation.Fits) (hids : operation.inserts ≤ s.cache.database.idsLeft) :
    Represents (s.perform operation).1.cache (l.perform operation).1 ∧
      (s.perform operation).2 = (l.perform operation).2 ∧
      s.cache.database.idsLeft ≤
        (s.perform operation).1.cache.database.idsLeft + operation.inserts := by
  cases operation with
  | store text v =>
      obtain ⟨hrep, hanswer, hleft⟩ := h.write hfits hids
      exact ⟨hrep, congrArg Result.done hanswer, hleft⟩
  | lookup text => exact ⟨h, congrArg Result.found (h.stores.read hfits), Nat.le_refl _⟩
  | getOrCompute text delay outcome => exact h.getOrCompute delay hfits.1 hfits.2 hids
  | entries => exact ⟨h, congrArg Result.entries h.stores.contents, Nat.le_refl _⟩
  | size => exact ⟨h, congrArg Result.size h.stores.size, Nat.le_refl _⟩
  | isEmpty => exact ⟨h, congrArg Result.isEmpty h.stores.isEmpty, Nat.le_refl _⟩
  | prepare =>
      have hprepare : s.cache.prepare = .ok s.cache := by
        unfold Cache.prepare
        rw [h.stores.prepare]
        rfl
      simp only [Session.perform, hprepare, Session.replace, Ledger.perform, true_and]
      exact ⟨h, Nat.le_refl _⟩
  | reopen dimension =>
      obtain ⟨c', hopen, hrep, hdatabase⟩ := openWith h.stores.prepare h.stores dimension
      simp only [Session.perform, hopen, Session.replace, Ledger.perform, true_and, hdatabase]
      exact ⟨hrep, Nat.le_refl _⟩

/-- All operations, one after the other, are answered as the ledger answers them, where there are
numbers for them. -/
theorem performAll {s : Session} (h : Represents s.cache l) {operations : List Operation}
    (hfits : ∀ operation ∈ operations, operation.Fits)
    (hids : (operations.map Operation.inserts).sum ≤ s.cache.database.idsLeft) :
    Represents (performAll Session.perform s operations).1.cache
        (performAll Ledger.perform l operations).1 ∧
      (performAll Session.perform s operations).2 =
        (performAll Ledger.perform l operations).2 := by
  induction operations generalizing s l with
  | nil => exact ⟨h, rfl⟩
  | cons operation rest ih =>
      rw [List.map_cons, List.sum_cons] at hids
      obtain ⟨hrep, hanswer, hleft⟩ := h.perform (hfits operation (by simp)) (by omega)
      obtain ⟨hreps, hanswers⟩ :=
        ih hrep (fun other hother => hfits other (by simp [hother])) (by omega)
      refine ⟨hreps, ?_⟩
      simp only [NearNotes.performAll, hanswer, hanswers]

end Represents

/-! ## Entries stay -/

namespace Ledger

theorem store_entries (l : Ledger) (text : String) (v : Embedding) :
    l.entries <+: (l.store text v).1.entries := by
  unfold store
  split
  · exact List.prefix_refl _
  · split
    · exact List.prefix_append _ _
    · exact List.prefix_refl _

theorem accept_entries (l : Ledger) (text : String) (outcome : Answer) :
    l.entries <+: (l.accept text outcome).1.entries := by
  unfold accept
  split
  · exact List.prefix_refl _
  · split
    · exact List.prefix_refl _
    · exact List.prefix_append _ _

theorem perform_entries (l : Ledger) (operation : Operation) :
    l.entries <+: (l.perform operation).1.entries := by
  cases operation with
  | store text v => exact l.store_entries text v
  | getOrCompute text delay outcome =>
      simp only [perform, getOrCompute]
      split
      · exact List.prefix_refl _
      · exact l.accept_entries text outcome
  | _ => exact List.prefix_refl _

theorem performAll_entries (l : Ledger) (operations : List Operation) :
    l.entries <+: (performAll perform l operations).1.entries := by
  induction operations generalizing l with
  | nil => exact List.prefix_refl _
  | cons operation rest ih => exact (l.perform_entries operation).trans (ih _)

end Ledger

theorem performAll_append {σ : Type} (perform : σ → Operation → σ × Result) (s : σ)
    (before after : List Operation) :
    (performAll perform s (before ++ after)).1 =
      (performAll perform (performAll perform s before).1 after).1 := by
  induction before generalizing s with
  | nil => rfl
  | cons operation rest ih => exact ih _

/-- A cache on a database without rows answers any sequence of operations as a ledger does, where no
text or row is too big and there is a number for each operation that may use one up. At any time it
lists the ledger's entries, whose texts are distinct, and all of them are there at the end, at the
beginning of the list and in the same order. -/
theorem Session.performs_as_ledger (s : Session) {db : Database} (hblocked : db.blocked = false)
    (hempty : db.rows = []) (dimension : Option Nat) (operations : List Operation)
    (hfits : ∀ operation ∈ operations, operation.Fits)
    (hids : (operations.map Operation.inserts).sum ≤ db.idsLeft) :
    ∃ opened, Cache.openWith db dimension = .ok opened ∧
      (performAll perform { s with cache := opened } operations).2 =
        (performAll Ledger.perform { dimension } operations).2 ∧
      ∀ n, ∃ entries,
        (performAll perform { s with cache := opened } (operations.take n)).1.cache.contents =
          .ok entries ∧
        entries = (performAll Ledger.perform { dimension } (operations.take n)).1.entries ∧
        (entries.map Entry.text).Nodup ∧
        entries <+: (performAll Ledger.perform { dimension } operations).1.entries := by
  obtain ⟨db', hprepare, hstores, hleft⟩ := Stores.prepare_of_empty hblocked hempty
  obtain ⟨opened, hopen, hrep, hdatabase⟩ := Represents.openWith hprepare hstores dimension
  have hroom : (operations.map Operation.inserts).sum ≤ opened.database.idsLeft := by
    rwa [hdatabase, hleft]
  refine ⟨opened, hopen, ?_, fun n => ?_⟩
  · exact (Represents.performAll (s := { s with cache := opened }) hrep hfits hroom).2
  · have hfits' : ∀ operation ∈ operations.take n, operation.Fits :=
      fun operation h => hfits operation (List.mem_of_mem_take h)
    have hroom' : ((operations.take n).map Operation.inserts).sum ≤ opened.database.idsLeft :=
      (((List.take_sublist n operations).map _).sum_le_sum fun _ _ => Nat.zero_le _).trans hroom
    have hstores :=
      (Represents.performAll (s := { s with cache := opened }) hrep hfits' hroom').1.stores
    refine ⟨_, hstores.contents, rfl, hstores.distinct, ?_⟩
    rw [← List.take_append_drop n operations, performAll_append, List.take_append_drop]
    exact Ledger.performAll_entries _ _

/-- Zeros of both signs, and a NaN, stored, computed and asked for under two texts. -/
def signedZeros : List Operation :=
  [.store "a" [⟨0⟩], .store "a" [⟨0x8000000000000000⟩], .store "a" [⟨0⟩],
    .getOrCompute "a" .zero (.ok [⟨1⟩]), .store "b" [],
    .getOrCompute "b" (.ofSecs 1) (.error .notConfigured),
    .getOrCompute "b" (.ofSecs 1) (.ok [⟨0x7FF8000000000001⟩]), .reopen none, .prepare,
    .lookup "b", .entries]

theorem Session.performs_as_ledger_at_signedZeros :
    (∀ operation ∈ signedZeros, operation.Fits) ∧
      (signedZeros.map Operation.inserts).sum ≤ ({} : Database).idsLeft ∧
      ∃ opened, Cache.openWith {} (some 1) = .ok opened ∧
        (performAll perform { cache := opened } signedZeros).2 =
          [.done (.ok ()), .done (.error (.duplicateKey "a")), .done (.ok ()),
            .answer (some (.ok [⟨0⟩])) [], .done (.error (.dimensionMismatch 1 0)),
            .answer (some (.error .notConfigured)) [.one "b"],
            .answer (some (.ok [⟨0x7FF8000000000001⟩])) [.one "b"], .done (.ok ()), .done (.ok ()),
            .found (.ok (some [⟨0x7FF8000000000001⟩])),
            .entries (.ok [⟨"a", [⟨0⟩]⟩, ⟨"b", [⟨0x7FF8000000000001⟩]⟩])] := by
  have hfits : ∀ operation ∈ signedZeros, operation.Fits := by
    simp [signedZeros, Operation.Fits]
    decide
  have hids : (signedZeros.map Operation.inserts).sum ≤ ({} : Database).idsLeft := by decide
  obtain ⟨opened, hopen, hresults, -⟩ :=
    Session.performs_as_ledger {} rfl rfl (some 1) signedZeros hfits hids
  refine ⟨hfits, hids, opened, hopen, hresults.trans ?_⟩
  rfl

theorem utf8ByteSize_replicate (n : Nat) :
    (String.ofList (List.replicate n 'a')).utf8ByteSize = n := by
  rw [String.utf8ByteSize_ofList]
  induction n with
  | zero => rfl
  | succ n ih =>
      rw [List.replicate_succ, String.utf8Len, ih]
      rfl

/-- A text that is too big is not stored, but a ledger takes it. -/
theorem Session.store_of_gt {text : String} (h : Table.mostBytes < text.utf8ByteSize) :
    ∃ opened, Cache.openWith {} none = .ok opened ∧
      (perform { cache := opened } (.store text [])).2 = .done (.error Database.tooBig) ∧
      (Ledger.perform {} (.store text [])).2 = .done (.ok ()) := by
  have hinsert : Database.insertNew { table := some {} } (.text text) (.blob (Blob.encode [])) =
      .error Database.tooBig := by
    exact (Database.insertNew_eq rfl _ _).trans (if_pos (Or.inl h))
  refine ⟨{ database := { table := some {} } }, rfl, ?_, rfl⟩
  simp only [perform, Cache.write, Cache.requireLength, hinsert]

/-- A ledger takes what a database may not: an empty table may have given out its last number, and
one byte more than a row may have is too big for a new database. -/
theorem Session.store_beyond_limits :
    (∃ opened, Cache.openWith { table := some { lastId := Int64.maxValue } } none = .ok opened ∧
      opened.contents = .ok [] ∧
      (perform { cache := opened } (.store "a" [])).2 = .done (.error Database.full) ∧
      (Ledger.perform {} (.store "a" [])).2 = .done (.ok ())) ∧
    ∃ opened, Cache.openWith {} none = .ok opened ∧
      (perform { cache := opened }
          (.store (String.ofList (List.replicate (Table.mostBytes + 1) 'a')) [])).2 =
        .done (.error Database.tooBig) ∧
      (Ledger.perform {}
          (.store (String.ofList (List.replicate (Table.mostBytes + 1) 'a')) [])).2 =
        .done (.ok ()) := by
  refine ⟨⟨_, rfl, rfl, rfl, rfl⟩, Session.store_of_gt ?_⟩
  rw [utf8ByteSize_replicate]
  exact Nat.lt_succ_self _

end NearNotes
