import Mathlib
import NearNotes.Cache.Flight
import NearNotes.Proofs.Blob
import NearNotes.Proofs.Keyed

/-!
# Rows come and stay

* `Database.rows`, `Database.rowsFor` : the rows of a database, and those of one text, also where
  rows were added (`rowsFor_of_append`);
* `Database.Grows` : rows are added at the end and never for a key that has one; `Grows.trans`,
  `Grows.rowsFor_of_ne`;
* `insertNew_eq` : an insert with its checks in order; `insertNew_cases`, `insert_cases` : what one
  that succeeds can do; both let a database grow; `idsLeft_of_insertNew` : the numbers it leaves;
* `Database.Searchable` : a text can be looked for at all; `FitsRow` : its row can be written;
  `longVector` : a vector whose row cannot;
* `read_eq_none_iff`, `read_eq_some_iff` : what a look at a text says about its rows;
* `write_grows`, `offer_grows` : storing a vector changes nothing but the database, which grows;
  `offer_of_none` : what an offer for a missing text comes to.
-/

namespace NearNotes

namespace Database

/-- The rows of the table; a database without one has none. -/
def rows (db : Database) : List Row := (db.table.map Table.rows).getD []

def rowsFor (db : Database) (text : String) : List Row :=
  db.rows.filter fun row => row.key == .text text

theorem rows_of_table {db : Database} {t : Table} (h : db.table = some t) : db.rows = t.rows := by
  rw [rows, h]
  rfl

theorem idsLeft_of_table {db : Database} {t : Table} (h : db.table = some t) :
    db.idsLeft = t.idsLeft := by
  rw [idsLeft, h]
  rfl

theorem rowsFor_of_append {db db' : Database} {new : List Row} (h : db'.rows = db.rows ++ new)
    (text : String) :
    db'.rowsFor text = db.rowsFor text ++ new.filter fun row => row.key == .text text := by
  rw [rowsFor, h, List.filter_append, rowsFor]

theorem rowsFor_of_not_mem_keys {db : Database} {text : String}
    (h : Key.text text ∉ db.rows.map Row.key) : db.rowsFor text = [] := by
  refine List.filter_eq_nil_iff.mpr fun row hrow hkey => h ?_
  rw [← beq_iff_eq.mp hkey]
  exact List.mem_map_of_mem hrow

structure Grows (db db' : Database) : Prop where
  rows : db.rows <+: db'.rows
  table : db.table.isSome → db'.table.isSome
  distinct : (db.rows.map Row.key).Nodup → (db'.rows.map Row.key).Nodup
  kept : ∀ text, db.rowsFor text ≠ [] → db'.rowsFor text = db.rowsFor text

theorem Grows.refl (db : Database) : Grows db db := ⟨List.prefix_refl _, id, id, fun _ _ => rfl⟩

theorem Grows.trans {db₁ db₂ db₃ : Database} (h₁ : Grows db₁ db₂) (h₂ : Grows db₂ db₃) :
    Grows db₁ db₃ := by
  refine ⟨h₁.rows.trans h₂.rows, fun h => h₂.table (h₁.table h),
    fun h => h₂.distinct (h₁.distinct h), fun text h => ?_⟩
  have hkept := h₁.kept text h
  rw [h₂.kept text (hkept ▸ h), hkept]

theorem Grows.of_rows_eq {db db' : Database} (hrows : db'.rows = db.rows)
    (htable : db'.table.isSome) : Grows db db' :=
  ⟨hrows ▸ List.prefix_refl _, fun _ => htable, fun h => hrows ▸ h, fun text _ => by
    rw [rowsFor, hrows, rowsFor]⟩

theorem Grows.of_new_row {db db' : Database} {row : Row} (hrows : db'.rows = db.rows ++ [row])
    (hnew : row.key ∉ db.rows.map Row.key) (htable : db'.table.isSome) : Grows db db' := by
  refine ⟨hrows ▸ List.prefix_append _ _, fun _ => htable, fun h => ?_, fun text hne => ?_⟩
  · rw [hrows]
    exact nodup_map_append_singleton Row.key h hnew
  · have hkey : row.key ≠ .text text := fun heq => hne (rowsFor_of_not_mem_keys (heq ▸ hnew))
    rw [rowsFor_of_append hrows, List.filter_cons_of_neg (by simpa using hkey)]
    exact List.append_nil _

/-- Rows of a text that has none come only at once: what has changed was empty. -/
theorem Grows.rowsFor_of_ne {db db' : Database} (h : Grows db db') {text : String}
    (hne : db'.rowsFor text ≠ db.rowsFor text) :
    db.rowsFor text = [] ∧ db'.rowsFor text ≠ [] := by
  have hnil : db.rowsFor text = [] := by
    by_contra hrows
    exact hne (h.kept text hrows)
  exact ⟨hnil, hnil ▸ hne⟩

end Database

/-! ## Numbers and sizes -/

namespace Table

theorem keySize_le_rowSize (key : Key) (cell : Cell) : key.size ≤ rowSize key cell := by
  unfold rowSize
  omega

theorem cellSize_le_rowSize (key : Key) (cell : Cell) : cell.size ≤ rowSize key cell := by
  unfold rowSize
  omega

theorem toInt_next {t : Table} (h : t.idsLeft ≠ 0) : (t.lastId + 1).toInt = t.lastId.toInt + 1 := by
  have hleft : t.lastId.toInt < Int64.maxValue.toInt := by
    unfold idsLeft at h
    omega
  have hlow := t.lastId.le_toInt
  rw [Int64.toInt_maxValue] at hleft
  rw [Int64.toInt_add, Int64.toInt_one]
  exact Int.bmod_eq_of_le (by omega) (by omega)

theorem idsLeft_skipId {t : Table} (h : t.idsLeft ≠ 0) : t.skipId.idsLeft + 1 = t.idsLeft := by
  have hnext : t.skipId.lastId.toInt = t.lastId.toInt + 1 := toInt_next h
  unfold idsLeft at h ⊢
  omega

theorem idsLeft_append {t : Table} (h : t.idsLeft ≠ 0) (key : Key) (cell : Cell) :
    (t.append key cell).idsLeft + 1 = t.idsLeft := idsLeft_skipId h

end Table

namespace Database

/-! ## Inserts -/

theorem find?_isSome_iff (t : Table) (key : Key) :
    (t.find? key).isSome ↔ key ∈ t.rows.map Row.key := by
  rw [Table.find?, List.find?_isSome, List.mem_map]
  constructor
  · rintro ⟨row, hrow, hkey⟩
    exact ⟨row, hrow, by simpa using hkey⟩
  · rintro ⟨row, hrow, hkey⟩
    exact ⟨row, hrow, by simpa using hkey⟩

theorem requireSize_of_le {n : Nat} (h : n ≤ Table.mostBytes) : requireSize n = .ok () := if_pos h

theorem requireSize_of_gt {n : Nat} (h : Table.mostBytes < n) : requireSize n = .error tooBig :=
  if_neg (Nat.not_le.mpr h)

theorem insertNew_eq {db : Database} {t : Table} (h : db.table = some t) (key : Key) (cell : Cell) :
    db.insertNew key cell =
      if Table.mostBytes < key.size ∨ Table.mostBytes < cell.size then .error tooBig
      else if db.blocked then .ok (db, false)
      else if t.idsLeft = 0 then .error full
      else if key ∈ t.rows.map Row.key then .ok ({ db with table := some t.skipId }, false)
      else if Table.mostBytes < Table.rowSize key cell then .error tooBig
      else .ok ({ db with table := some (t.append key cell) }, true) := by
  unfold insertNew rowsOf
  rw [h]
  by_cases hkey : Table.mostBytes < key.size
  · rw [requireSize_of_gt hkey, if_pos (Or.inl hkey)]
    rfl
  by_cases hcell : Table.mostBytes < cell.size
  · rw [requireSize_of_le (Nat.not_lt.mp hkey), requireSize_of_gt hcell, if_pos (Or.inr hcell)]
    rfl
  rw [requireSize_of_le (Nat.not_lt.mp hkey), requireSize_of_le (Nat.not_lt.mp hcell),
    if_neg (not_or.mpr ⟨hkey, hcell⟩)]
  simp only [bind, Except.bind, pure, Except.pure, find?_isSome_iff]
  split_ifs with _ _ _ hrow
  · rfl
  · rfl
  · rfl
  · rw [requireSize_of_gt hrow]
  · rw [requireSize_of_le (Nat.not_lt.mp hrow)]

/-- The key is there, or inserts are ignored, and the rows stay; or the row is new and goes to the
end. -/
theorem insertNew_cases {db db' : Database} {key : Key} {cell : Cell} {added : Bool}
    (h : db.insertNew key cell = .ok (db', added)) :
    db.table.isSome ∧ db'.table.isSome ∧ db'.blocked = db.blocked ∧
      ((added = false ∧ db'.rows = db.rows ∧ (db.blocked = true ∨ key ∈ db.rows.map Row.key)) ∨
        (added = true ∧ key ∉ db.rows.map Row.key ∧
          ∃ id, db'.rows = db.rows ++ [⟨id, key, cell⟩])) := by
  cases htable : db.table with
  | none =>
      unfold insertNew rowsOf at h
      rw [htable] at h
      cases h
  | some t =>
      rw [insertNew_eq htable] at h
      rw [rows_of_table htable]
      split_ifs at h with _ hblocked _ hfound
      all_goals cases h
      · exact ⟨rfl, by rw [htable]; rfl, rfl, Or.inl ⟨rfl, rows_of_table htable, Or.inl hblocked⟩⟩
      · exact ⟨rfl, rfl, rfl, Or.inl ⟨rfl, rfl, Or.inr hfound⟩⟩
      · exact ⟨rfl, rfl, rfl, Or.inr ⟨rfl, hfound, t.lastId + 1, rfl⟩⟩

/-- The database with a new row at the end of its table. -/
def push (db : Database) (key : Key) (cell : Cell) : Database :=
  { db with table := db.table.map (·.append key cell) }

@[simp] theorem table_push (db : Database) (key : Key) (cell : Cell) :
    (db.push key cell).table.isSome = db.table.isSome := Option.isSome_map

theorem rows_push {db : Database} (h : db.table.isSome) (key : Key) (cell : Cell) :
    ∃ id, (db.push key cell).rows = db.rows ++ [⟨id, key, cell⟩] := by
  obtain ⟨t, ht⟩ := Option.isSome_iff_exists.mp h
  refine ⟨t.lastId + 1, ?_⟩
  rw [rows_of_table ht, rows, push, ht]
  rfl

theorem idsLeft_push {db : Database} (h : db.table.isSome) (hids : db.idsLeft ≠ 0) (key : Key)
    (cell : Cell) : (db.push key cell).idsLeft + 1 = db.idsLeft := by
  obtain ⟨t, ht⟩ := Option.isSome_iff_exists.mp h
  have hpushed : (db.push key cell).table = some (t.append key cell) := by
    rw [push, ht]
    rfl
  rw [idsLeft_of_table ht] at hids ⊢
  rw [idsLeft_of_table hpushed]
  exact Table.idsLeft_append hids key cell

theorem insertNew_of_not_mem {db : Database} (h : db.table.isSome) {key : Key}
    (hnew : key ∉ db.rows.map Row.key) (cell : Cell) :
    db.insertNew key cell =
      if Table.mostBytes < key.size ∨ Table.mostBytes < cell.size then .error tooBig
      else if db.blocked then .ok (db, false)
      else if db.idsLeft = 0 then .error full
      else if Table.mostBytes < Table.rowSize key cell then .error tooBig
      else .ok (db.push key cell, true) := by
  obtain ⟨t, ht⟩ := Option.isSome_iff_exists.mp h
  rw [rows_of_table ht] at hnew
  rw [insertNew_eq ht, if_neg hnew, idsLeft_of_table ht, push, ht]
  rfl

theorem idsLeft_of_insertNew {db db' : Database} {key : Key} {cell : Cell} {added : Bool}
    (h : db.insertNew key cell = .ok (db', added)) :
    (db.blocked = true ∧ db' = db) ∨ (db.blocked = false ∧ db'.idsLeft + 1 = db.idsLeft) := by
  obtain ⟨t, htable⟩ := Option.isSome_iff_exists.mp (insertNew_cases h).1
  have hids := idsLeft_of_table htable
  rw [insertNew_eq htable] at h
  split_ifs at h with _ hblocked hleft _
  all_goals cases h
  · exact Or.inl ⟨hblocked, rfl⟩
  · exact Or.inr ⟨Bool.eq_false_iff.mpr hblocked, hids ▸ Table.idsLeft_skipId hleft⟩
  · exact Or.inr ⟨Bool.eq_false_iff.mpr hblocked, hids ▸ Table.idsLeft_append hleft key cell⟩

theorem insertNew_eq_ok {db : Database} (h : db.table.isSome) {key : Key} {cell : Cell}
    (hsize : Table.rowSize key cell ≤ Table.mostBytes) (hids : db.blocked = true ∨ 0 < db.idsLeft) :
    ∃ db' added, db.insertNew key cell = .ok (db', added) := by
  obtain ⟨t, ht⟩ := Option.isSome_iff_exists.mp h
  have hkey := Table.keySize_le_rowSize key cell
  have hcell := Table.cellSize_le_rowSize key cell
  rw [insertNew_eq ht, if_neg (by omega)]
  split_ifs with hblocked hleft
  · exact ⟨_, _, rfl⟩
  · rw [idsLeft, ht, Option.getD_some] at hids
    exact absurd (hids.resolve_left hblocked) (by omega)
  · exact ⟨_, _, rfl⟩
  · omega
  · exact ⟨_, _, rfl⟩

theorem storage_of_insertNew {db : Database} {key : Key} {cell : Cell} {e : EmbedError}
    (h : db.insertNew key cell = .error e) : ∃ reason, e = .storage reason := by
  cases htable : db.table with
  | none =>
      unfold insertNew rowsOf at h
      rw [htable] at h
      cases h
      exact ⟨_, rfl⟩
  | some t =>
      rw [insertNew_eq htable] at h
      split_ifs at h
      all_goals cases h
      all_goals exact ⟨_, rfl⟩

theorem insert_cases {db db' : Database} {key : Key} {cell : Cell}
    (h : db.insert key cell = .ok db') :
    db'.table.isSome ∧ (db'.rows = db.rows ∨
      (key ∉ db.rows.map Row.key ∧ ∃ id, db'.rows = db.rows ++ [⟨id, key, cell⟩])) := by
  unfold insert at h
  cases hinsert : db.insertNew key cell with
  | error e =>
      rw [hinsert] at h
      cases h
  | ok result =>
      obtain ⟨db₁, added⟩ := result
      rw [hinsert] at h
      simp only [bind, Except.bind, pure, Except.pure] at h
      split at h
      · cases h
        obtain ⟨-, htable, -, ⟨-, hrows, -⟩ | ⟨-, hnew⟩⟩ := insertNew_cases hinsert
        · exact ⟨htable, Or.inl hrows⟩
        · exact ⟨htable, Or.inr hnew⟩
      · cases h

theorem insertNew_grows {db db' : Database} {key : Key} {cell : Cell} {added : Bool}
    (h : db.insertNew key cell = .ok (db', added)) : Grows db db' := by
  obtain ⟨-, htable, -, ⟨-, hrows, -⟩ | ⟨-, hnew, id, hrows⟩⟩ := insertNew_cases h
  · exact Grows.of_rows_eq hrows htable
  · exact Grows.of_new_row hrows hnew htable

theorem insert_grows {db db' : Database} {key : Key} {cell : Cell}
    (h : db.insert key cell = .ok db') : Grows db db' := by
  obtain ⟨htable, hrows | ⟨hnew, id, hrows⟩⟩ := insert_cases h
  · exact Grows.of_rows_eq hrows htable
  · exact Grows.of_new_row hrows hnew htable

theorem rows_of_prepare {db db' : Database} (h : db.prepare = .ok db') :
    db'.table.isSome ∧ db'.rows = db.rows := by
  unfold prepare at h
  split at h
  · rename_i hnone
    cases h
    refine ⟨rfl, ?_⟩
    rw [rows, rows, hnone]
    rfl
  · rename_i t htable
    split at h
    · cases h
      exact ⟨Option.isSome_of_eq_some htable, rfl⟩
    · cases h

/-! ## Values -/

/-- A text can be looked for: there is a table, and the text is short enough to be handed over. -/
structure Searchable (db : Database) (text : String) : Prop where
  table : db.table.isSome
  size : text.utf8ByteSize ≤ Table.mostBytes

theorem Searchable.grows {db db' : Database} {text : String} (h : db.Searchable text)
    (hgrows : db.Grows db') : db'.Searchable text := ⟨hgrows.table h.table, h.size⟩

theorem value?_eq {db : Database} {text : String} (h : db.Searchable text) :
    db.value? text = .ok ((db.rowsFor text).head?.map Row.cell) := by
  obtain ⟨t, ht⟩ := Option.isSome_iff_exists.mp h.table
  rw [rowsFor, rows_of_table ht, List.head?_filter]
  unfold value? rowsOf
  rw [ht, requireSize_of_le h.size]
  rfl

theorem value?_eq_error {db : Database} {text : String} (h : ¬ db.Searchable text) :
    ∃ reason, db.value? text = .error (.storage reason) := by
  unfold value? rowsOf
  cases ht : db.table with
  | none => exact ⟨_, rfl⟩
  | some t =>
      have hsize : Table.mostBytes < text.utf8ByteSize := by
        by_contra hle
        exact h ⟨ht ▸ rfl, Nat.not_lt.mp hle⟩
      rw [requireSize_of_gt hsize]
      exact ⟨_, rfl⟩

theorem rowsFor_eq_singleton {db : Database} (hdistinct : (db.rows.map Row.key).Nodup)
    {text : String} {row : Row} {rest : List Row} (h : db.rowsFor text = row :: rest) :
    db.rowsFor text = [row] := by
  cases rest with
  | nil => exact h
  | cons other rest =>
      exfalso
      have hsub : ((db.rowsFor text).map Row.key).Nodup :=
        hdistinct.sublist (List.filter_sublist.map Row.key)
      have hkey : ∀ r ∈ db.rowsFor text, r.key = .text text := by
        intro r hr
        simpa using (List.mem_filter.mp hr).2
      rw [h, List.map_cons, List.map_cons, hkey row (by rw [h]; simp),
        hkey other (by rw [h]; simp)] at hsub
      simp at hsub

end Database

def FitsRow (text : String) (v : Embedding) : Prop :=
  Table.rowSize (.text text) (.blob (Blob.encode v)) ≤ Table.mostBytes

instance (text : String) (v : Embedding) : Decidable (FitsRow text v) :=
  inferInstanceAs (Decidable (_ ≤ _))

theorem FitsRow.text_le {text : String} {v : Embedding} (h : FitsRow text v) :
    text.utf8ByteSize ≤ Table.mostBytes :=
  (Table.keySize_le_rowSize (.text text) (.blob (Blob.encode v))).trans h

/-- Whatever fits is far too short for the count in its blob to overflow. -/
theorem FitsRow.length_lt {text : String} {v : Embedding} (h : FitsRow text v) :
    v.length < 2 ^ 32 := by
  have hblob := (Table.cellSize_le_rowSize (.text text) (.blob (Blob.encode v))).trans h
  change (Blob.encode v).length ≤ 1000000000 at hblob
  rw [Blob.length_encode] at hblob
  omega

/-- A vector whose blob alone is too big. -/
def longVector : Embedding := List.replicate 125000000 ⟨0⟩

theorem length_longVector : longVector.length = 125000000 := List.length_replicate

theorem mostBytes_lt_longVector : Table.mostBytes < (Blob.encode longVector).length := by
  rw [Blob.length_encode, length_longVector]
  decide

namespace Cache

open Database

/-! ## Reading -/

theorem read_of_nil {c : Cache} {text : String} (h : c.database.Searchable text)
    (hrows : c.database.rowsFor text = []) : c.read text = .ok none := by
  unfold read
  rw [value?_eq h, hrows]
  rfl

theorem read_of_cons {c : Cache} {text : String} {row : Row} {rest : List Row}
    (h : c.database.Searchable text) (hrows : c.database.rowsFor text = row :: rest) :
    c.read text = row.cell.vector.map some := by
  unfold read
  rw [value?_eq h, hrows]
  show (do return some (← row.cell.vector) : Except EmbedError (Option Embedding)) = _
  cases row.cell.vector with
  | ok v => rfl
  | error e => rfl

theorem read_eq_error {c : Cache} {text : String} (h : ¬ c.database.Searchable text) :
    ∃ reason, c.read text = .error (.storage reason) := by
  obtain ⟨reason, hvalue⟩ := value?_eq_error h
  refine ⟨reason, ?_⟩
  unfold read
  rw [hvalue]
  rfl

/-- Why a text cannot be looked for does not depend on the rows. -/
theorem read_of_not_searchable {c c' : Cache} {text : String}
    (htable : c'.database.table.isSome = c.database.table.isSome)
    (h : ¬ c.database.Searchable text) : c'.read text = c.read text := by
  unfold read
  congr 1
  cases hsome : c.database.table with
  | some t =>
      obtain ⟨t', hsome'⟩ := Option.isSome_iff_exists.mp (htable.trans (hsome ▸ rfl))
      have hsize : Table.mostBytes < text.utf8ByteSize := by
        by_contra hle
        exact h ⟨hsome ▸ rfl, Nat.not_lt.mp hle⟩
      simp only [value?, rowsOf, hsome, hsome', requireSize_of_gt hsize]
      rfl
  | none =>
      rw [hsome, Option.isSome_none, Option.isSome_eq_false_iff, Option.isNone_iff_eq_none] at htable
      simp only [value?, rowsOf, htable, hsome]

theorem searchable_of_read {c : Cache} {text : String} {found : Option Embedding}
    (h : c.read text = .ok found) : c.database.Searchable text := by
  by_contra hnot
  obtain ⟨reason, he⟩ := read_eq_error hnot
  rw [he] at h
  cases h

theorem read_eq_none_iff {c : Cache} {text : String} :
    c.read text = .ok none ↔ c.database.Searchable text ∧ c.database.rowsFor text = [] := by
  constructor
  · intro h
    have hsearch := searchable_of_read h
    refine ⟨hsearch, ?_⟩
    cases hrows : c.database.rowsFor text with
    | nil => rfl
    | cons row rest =>
        rw [read_of_cons hsearch hrows] at h
        cases hv : row.cell.vector with
        | ok v =>
            rw [hv] at h
            cases h
        | error e =>
            rw [hv] at h
            cases h
  · rintro ⟨hsearch, hrows⟩
    exact read_of_nil hsearch hrows

theorem read_eq_some_iff {c : Cache} {text : String} {v : Embedding} :
    c.read text = .ok (some v) ↔ c.database.Searchable text ∧
      ∃ row rest, c.database.rowsFor text = row :: rest ∧ row.cell.vector = .ok v := by
  constructor
  · intro h
    have hsearch := searchable_of_read h
    cases hrows : c.database.rowsFor text with
    | nil =>
        rw [read_of_nil hsearch hrows] at h
        cases h
    | cons row rest =>
        rw [read_of_cons hsearch hrows] at h
        refine ⟨hsearch, row, rest, rfl, ?_⟩
        cases hv : row.cell.vector with
        | ok w =>
            rw [hv] at h
            cases h
            rfl
        | error e =>
            rw [hv] at h
            cases h
  · rintro ⟨hsearch, row, rest, hrows, hv⟩
    rw [read_of_cons hsearch hrows, hv]
    rfl

theorem read_of_rows_eq {c c' : Cache} (hrows : c'.database.rows = c.database.rows)
    (htable : c'.database.table.isSome = c.database.table.isSome) (text : String) :
    c'.read text = c.read text := by
  by_cases hsearch : c.database.Searchable text
  · unfold read
    rw [value?_eq hsearch, value?_eq ⟨htable ▸ hsearch.table, hsearch.size⟩, rowsFor, rowsFor, hrows]
  · exact read_of_not_searchable htable hsearch

theorem not_mem_keys_of_read {c : Cache} {text : String} (h : c.read text = .ok none) :
    Key.text text ∉ c.database.rows.map Row.key := by
  intro hmem
  obtain ⟨row, hrow, hkey⟩ := List.mem_map.mp hmem
  have hfound : row ∈ c.database.rowsFor text := List.mem_filter.mpr ⟨hrow, by simp [hkey]⟩
  rw [(read_eq_none_iff.mp h).2] at hfound
  cases hfound

theorem mem_keys_of_read {c : Cache} {text : String} {v : Embedding}
    (h : c.read text = .ok (some v)) : Key.text text ∈ c.database.rows.map Row.key := by
  obtain ⟨-, row, rest, hrows, -⟩ := read_eq_some_iff.mp h
  have hrow : row ∈ c.database.rowsFor text := by
    rw [hrows]
    exact List.mem_cons_self
  obtain ⟨hmem, hkey⟩ := List.mem_filter.mp hrow
  rw [← beq_iff_eq.mp hkey]
  exact List.mem_map_of_mem hmem

/-! ## Storing -/

/-- The row that an insert has added is the one that is read. -/
theorem read_of_added {c : Cache} {db : Database} {text : String} {v : Embedding} {id : Int64}
    (htable : db.table.isSome) (hnew : Key.text text ∉ c.database.rows.map Row.key)
    (hrows : db.rows = c.database.rows ++ [⟨id, .text text, .blob (Blob.encode v)⟩])
    (hfits : FitsRow text v) :
    ({ c with database := db } : Cache).read text = .ok (some v) := by
  have hfound : db.rowsFor text = [⟨id, .text text, .blob (Blob.encode v)⟩] := by
    rw [rowsFor_of_append hrows, rowsFor_of_not_mem_keys hnew]
    simp
  exact read_eq_some_iff.mpr
    ⟨⟨htable, hfits.text_le⟩, _, [], hfound, Blob.decode_encode hfits.length_lt⟩

theorem write_grows (c : Cache) (text : String) (v : Embedding) :
    ∃ db, (c.write text v).1 = { c with database := db } ∧ c.database.Grows db := by
  unfold write
  cases c.requireLength v with
  | error e => exact ⟨c.database, rfl, Grows.refl _⟩
  | ok _ =>
      cases h : c.database.insertNew (.text text) (.blob (Blob.encode v)) with
      | error e => exact ⟨c.database, by simp only [h], Grows.refl _⟩
      | ok result =>
          obtain ⟨db, added⟩ := result
          refine ⟨db, ?_, insertNew_grows h⟩
          cases added with
          | true => simp only [h]
          | false => simp only [h]

theorem offer_grows (c : Cache) (text : String) (v : Embedding) (refusal : Option String) :
    ∃ db, (c.offer text v refusal).1 = { c with database := db } ∧ c.database.Grows db := by
  unfold offer
  cases h : c.database.insertNew (.text text) (.blob (Blob.encode v)) with
  | error e => exact ⟨c.database, rfl, Grows.refl _⟩
  | ok result => exact ⟨result.1, rfl, insertNew_grows h⟩

/-- An offer for a text without a row, with the checks in the order in which they are made. Where
inserts are ignored the row is missed afterwards, and else it is read back. -/
theorem offer_of_none {c : Cache} {text : String} (h : c.read text = .ok none) (v : Embedding) :
    c.offer text v =
      if Table.mostBytes < (Blob.encode v).length then (c, .error tooBig)
      else if c.database.blocked then (c, .error (.corruptData "row vanished after insert"))
      else if c.database.idsLeft = 0 then (c, .error full)
      else if FitsRow text v then
        ({ c with database := c.database.push (.text text) (.blob (Blob.encode v)) }, .ok v)
      else (c, .error tooBig) := by
  obtain ⟨hsearch, -⟩ := read_eq_none_iff.mp h
  have hnew := not_mem_keys_of_read h
  have htext : ¬ Table.mostBytes < (Key.text text).size := Nat.not_lt.mpr hsearch.size
  have hsize : (Blob.encode v).length = (Cell.blob (Blob.encode v)).size := rfl
  unfold offer
  rw [insertNew_of_not_mem hsearch.table hnew, hsize]
  by_cases hblob : Table.mostBytes < (Cell.blob (Blob.encode v)).size
  · rw [if_pos (Or.inr hblob), if_pos hblob]
  rw [if_neg (not_or.mpr ⟨htext, hblob⟩), if_neg hblob]
  by_cases hblocked : c.database.blocked = true
  · simp only [if_pos hblocked, readBack, h]
  rw [if_neg hblocked, if_neg hblocked]
  by_cases hids : c.database.idsLeft = 0
  · rw [if_pos hids, if_pos hids]
  rw [if_neg hids, if_neg hids]
  by_cases hfits : FitsRow text v
  · obtain ⟨id, happended⟩ := rows_push hsearch.table (.text text) (.blob (Blob.encode v))
    have hread : ({ c with
        database := c.database.push (.text text) (.blob (Blob.encode v)) } : Cache).read text =
          .ok (some v) :=
      read_of_added ((table_push ..).trans hsearch.table) hnew happended hfits
    rw [if_neg (Nat.not_lt.mpr hfits), if_pos hfits]
    simp only [readBack, hread]
  · rw [if_pos (Nat.not_le.mp hfits), if_neg hfits]

theorem read_of_readBack {c : Cache} {text : String} {refusal : Option String} {w : Embedding}
    (h : c.readBack text refusal = .ok w) : c.read text = .ok (some w) := by
  cases refusal with
  | some e => cases h
  | none =>
      unfold readBack at h
      cases hread : c.read text with
      | error e =>
          simp only [hread] at h
          cases h
      | ok found =>
          cases found with
          | none =>
              simp only [hread] at h
              cases h
          | some stored =>
              simp only [hread] at h
              rw [Except.ok.inj h]

/-- What is answered for an offered vector is what the row holds afterwards. -/
theorem read_offer {c : Cache} {text : String} {v w : Embedding} {refusal : Option String}
    (h : (c.offer text v refusal).2 = .ok w) :
    (c.offer text v refusal).1.read text = .ok (some w) := by
  unfold offer at h ⊢
  cases hinsert : c.database.insertNew (.text text) (.blob (Blob.encode v)) with
  | error e =>
      simp only [hinsert] at h
      cases h
  | ok result =>
      simp only [hinsert] at h ⊢
      exact read_of_readBack h

end Cache

end NearNotes
