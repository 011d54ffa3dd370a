import Mathlib
import NearNotes.Proofs.Blob
import NearNotes.Proofs.Flight.Agreement
import NearNotes.Proofs.Flight.Single
import NearNotes.Proofs.Results

/-!
# Vectors of one length

A cache that enforces a length holds vectors of this length only, if it did so at first and other
writers keep to it. Both ways to write check the length; the ways to read rely on that.

* `Cell.OfLength`, `Row.Regular`, `Event.Obeys` : a value that is a vector of a length, a row with
  such a value, and other writers that keep to it;
* `Uniform` : the invariant, which also has the vectors that are about to be stored;
* `FromRow` : answers that come of looks; `Uniform.read_ok`, `Uniform.fromRow_error` : what a look
  finds;
* `Uniform.begin`, `Uniform.takeUp`, `Uniform.computed`, `Uniform.settle`, `Uniform.write`,
  `Uniform.rival` : one lemma for each step;
* `Uniform.apply`, `Uniform.run`, `Uniform.length_of_answerAt` : every event, every history, and the
  answers along it.
-/

namespace NearNotes

def Cell.OfLength (length : Nat) (cell : Cell) : Prop :=
  ∃ v, cell.vector = .ok v ∧ v.length = length

theorem Cell.ofLength_encode {length : Nat} (hshort : length < 2 ^ 32) {v : Embedding}
    (h : v.length = length) : (Cell.blob (Blob.encode v)).OfLength length :=
  ⟨v, Blob.decode_encode (h ▸ hshort), h⟩

/-- A row holds a vector of the length, under a key that is known or a text. -/
structure Row.Regular (length : Nat) (known : List Key) (row : Row) : Prop where
  cell : row.cell.OfLength length
  key : row.key ∈ known ∨ ∃ text, row.key = .text text

namespace Cache

/-- Other writers keep to the length. -/
def Event.Obeys (length : Nat) : Event → Prop
  | .rival _ cell => cell.OfLength length
  | _ => True

/-- A length is enforced, there is a table, every row holds a vector of this length, and so does every
call that is about to store one. New keys are texts. -/
structure Uniform (length : Nat) (known : List Key) (c : Cache) : Prop where
  short : length < 2 ^ 32
  dimension : c.dimension = some length
  table : c.database.table.isSome
  rows : ∀ row ∈ c.database.rows, row.Regular length known
  storing : ∀ call ∈ c.calls, ∀ v, call.phase = .storing v → v.length = length

/-- What a row gives for an answer: a vector of the length, or an error that is not about lengths. -/
def FromRow (length : Nat) : Answer → Prop
  | .ok v => v.length = length
  | .error e => ∀ expected actual, e ≠ .dimensionMismatch expected actual

variable {c c' : Cache} {length : Nat} {known : List Key} {text : String} {v : Embedding}
  {id : CallId}

/-! ## Looks -/

theorem Uniform.read_ok (h : c.Uniform length known) (hread : c.read text = .ok (some v)) :
    v.length = length := by
  obtain ⟨-, row, rest, hrows, hv⟩ := read_eq_some_iff.mp hread
  have hrow : row ∈ c.database.rowsFor text := hrows ▸ List.mem_cons_self
  obtain ⟨w, hw, hlength⟩ := (h.rows row (List.mem_filter.mp hrow).1).cell
  rw [hv] at hw
  cases hw
  exact hlength

theorem Uniform.storage_of_read (h : c.Uniform length known) {e : EmbedError}
    (hread : c.read text = .error e) : ∃ reason, e = .storage reason := by
  by_cases hsearch : c.database.Searchable text
  · cases hrows : c.database.rowsFor text with
    | nil =>
        rw [read_of_nil hsearch hrows] at hread
        cases hread
    | cons row rest =>
        have hrow : row ∈ c.database.rowsFor text := hrows ▸ List.mem_cons_self
        obtain ⟨w, hw, -⟩ := (h.rows row (List.mem_filter.mp hrow).1).cell
        rw [read_of_cons hsearch hrows, hw] at hread
        cases hread
  · obtain ⟨reason, herror⟩ := read_eq_error hsearch
    rw [herror] at hread
    cases hread
    exact ⟨reason, rfl⟩

theorem Uniform.fromRow_error (h : c.Uniform length known) {e : EmbedError}
    (hread : c.read text = .error e) : FromRow length (.error e) := by
  obtain ⟨reason, rfl⟩ := h.storage_of_read hread
  exact fun _ _ => EmbedError.noConfusion

/-! ## Lengths -/

theorem Uniform.requireLength (h : c.Uniform length known) (v : Embedding) :
    c.requireLength v =
      if v.length = length then .ok () else .error (.dimensionMismatch length v.length) := by
  unfold Cache.requireLength
  rw [h.dimension]
  simp only [ne_eq, ite_not, eq_comm (a := length)]

/-! ## Frames -/

theorem Uniform.of_calls (h : c.Uniform length known) (hdimension : c'.dimension = c.dimension)
    (hdatabase : c'.database = c.database) (hcalls : ∀ call ∈ c'.calls, call ∈ c.calls ∨
      ∀ v, call.phase = .storing v → v.length = length) : c'.Uniform length known := by
  refine ⟨h.short, hdimension.trans h.dimension, hdatabase ▸ h.table, hdatabase ▸ h.rows,
    fun call hcall v hphase => ?_⟩
  rcases hcalls call hcall with hold | hnew
  · exact h.storing call hold v hphase
  · exact hnew v hphase

theorem Uniform.of_rows (h : c.Uniform length known) {db : Database} (htable : db.table.isSome)
    (hrows : ∀ row ∈ db.rows, row ∈ c.database.rows ∨ row.Regular length known) :
    ({ c with database := db } : Cache).Uniform length known := by
  refine ⟨h.short, h.dimension, htable, fun row hrow => ?_, h.storing⟩
  rcases hrows row hrow with hold | hnew
  · exact h.rows row hold
  · exact hnew

/-- A row may be added for a text, with a vector of the length. -/
theorem Uniform.of_added (h : c.Uniform length known) {db : Database} (htable : db.table.isSome)
    (text : String) {cell : Cell} (hcell : cell.OfLength length) (hadded : db.rows = c.database.rows ∨
      ∃ number, db.rows = c.database.rows ++ [⟨number, .text text, cell⟩]) :
    ({ c with database := db } : Cache).Uniform length known := by
  refine h.of_rows htable fun row hrow => ?_
  rcases hadded with hrows | ⟨number, hrows⟩
  · exact Or.inl (hrows ▸ hrow)
  · rw [hrows] at hrow
    rcases List.mem_append.mp hrow with hold | hlast
    · exact Or.inl hold
    · rw [List.mem_singleton.mp hlast]
      exact Or.inr ⟨hcell, Or.inr ⟨text, rfl⟩⟩

theorem Uniform.finish (h : c.Uniform length known) (id : CallId) :
    (c.finish id).Uniform length known :=
  h.of_calls (dimension_finish c id) (database_finish c id) fun _ hcall =>
    Or.inl (mem_of_mem_finish hcall)

theorem Uniform.setPhase (h : c.Uniform length known) (id : CallId) {phase : Phase}
    (hphase : ∀ v, phase = .storing v → v.length = length) :
    (c.setPhase id phase).Uniform length known := by
  refine h.of_calls rfl rfl fun call hcall => ?_
  obtain ⟨old, hold, rfl⟩ := List.mem_map.mp hcall
  split
  · exact Or.inr hphase
  · exact Or.inl hold

/-! ## Steps of a call -/

theorem Uniform.begin (h : c.Uniform length known) (text : String) :
    (c.begin text).1.Uniform length known ∧ ∀ a, (c.begin text).2 = .inl a → FromRow length a := by
  unfold Cache.begin
  cases hread : c.read text with
  | error e =>
      refine ⟨h, fun a ha => ?_⟩
      cases ha
      exact h.fromRow_error hread
  | ok found =>
      cases found with
      | some v =>
          refine ⟨h.of_calls rfl rfl fun _ => Or.inl, fun a ha => ?_⟩
          cases ha
          exact h.read_ok hread
      | none =>
          refine ⟨h.of_calls (dimension_enqueue c text) (database_enqueue c text)
            fun call hcall => ?_, nofun⟩
          rw [calls_enqueue] at hcall
          rcases List.mem_append.mp hcall with hold | hlast
          · exact Or.inl hold
          · rw [List.mem_singleton.mp hlast]
            exact Or.inr nofun

theorem Uniform.takeUp (h : c.Uniform length known) (id : CallId) :
    (c.takeUp id).1.Uniform length known ∧ ∀ a, (c.takeUp id).2 = some a → FromRow length a := by
  cases hcall : c.call? id with
  | none =>
      unfold Cache.takeUp
      rw [hcall]
      exact ⟨h, nofun⟩
  | some call =>
      have hgranted : ∀ hits misses,
          ({ c with granted := c.granted.erase id, hits, misses } : Cache).Uniform length known :=
        fun _ _ => h.of_calls rfl rfl fun _ => Or.inl
      rw [takeUp_eq hcall]
      cases hread : c.read call.text with
      | error e =>
          refine ⟨(hgranted c.hits c.misses).finish id, fun a ha => ?_⟩
          cases ha
          exact h.fromRow_error hread
      | ok found =>
          cases found with
          | some v =>
              refine ⟨(hgranted (c.hits + 1) c.misses).finish id, fun a ha => ?_⟩
              cases ha
              exact h.read_ok hread
          | none =>
              have hwaits : ∀ v : Embedding, Phase.computing = .storing v → v.length = length := nofun
              exact ⟨(hgranted c.hits (c.misses + 1)).setPhase id hwaits, nofun⟩

/-- The end of a computation is refused with what the computation failed with, or for its length. -/
theorem Uniform.computed (h : c.Uniform length known) (id : CallId) (outcome : Answer) :
    (c.computed id outcome).1.Uniform length known ∧ ∀ a, (c.computed id outcome).2 = some a →
      (∃ e, outcome = .error e ∧ a = .error e) ∨
        ∃ v, outcome = .ok v ∧ v.length ≠ length ∧
          a = .error (.dimensionMismatch length v.length) := by
  cases outcome with
  | error e =>
      refine ⟨h.finish id, fun a ha => Or.inl ⟨e, rfl, ?_⟩⟩
      cases ha
      rfl
  | ok v =>
      unfold Cache.computed
      by_cases hlength : v.length = length
      · have hfits := h.requireLength v
        rw [if_pos hlength] at hfits
        simp only [hfits]
        refine ⟨h.setPhase id fun w hphase => ?_, nofun⟩
        cases hphase
        exact hlength
      · have hrefused := h.requireLength v
        rw [if_neg hlength] at hrefused
        simp only [hrefused]
        refine ⟨h.finish id, fun a ha => Or.inr ⟨v, rfl, hlength, ?_⟩⟩
        cases ha
        rfl

theorem Uniform.insertNew (h : c.Uniform length known) (text : String) (hlength : v.length = length)
    {db : Database} {added : Bool}
    (hinsert : c.database.insertNew (.text text) (.blob (Blob.encode v)) = .ok (db, added)) :
    ({ c with database := db } : Cache).Uniform length known := by
  have hcell := Cell.ofLength_encode h.short hlength
  obtain ⟨-, htable, -, ⟨-, hrows, -⟩ | ⟨-, -, hrows⟩⟩ := Database.insertNew_cases hinsert
  · exact h.of_added htable text hcell (Or.inl hrows)
  · exact h.of_added htable text hcell (Or.inr hrows)

theorem Uniform.readBack (h : c.Uniform length known) (text : String) (refusal : Option String) :
    FromRow length (c.readBack text refusal) := by
  cases refusal with
  | some reason => exact fun _ _ => EmbedError.noConfusion
  | none =>
      unfold Cache.readBack
      cases hread : c.read text with
      | error e => exact h.fromRow_error hread
      | ok found =>
          cases found with
          | some w => exact h.read_ok hread
          | none => exact fun _ _ => EmbedError.noConfusion

/-- A vector of the length is offered, and the answer is what the row holds then. -/
theorem Uniform.offer (h : c.Uniform length known) (text : String) (hlength : v.length = length)
    (refusal : Option String) : (c.offer text v refusal).1.Uniform length known ∧
      FromRow length (c.offer text v refusal).2 := by
  unfold Cache.offer
  cases hinsert : c.database.insertNew (.text text) (.blob (Blob.encode v)) with
  | error e =>
      obtain ⟨reason, rfl⟩ := Database.storage_of_insertNew hinsert
      exact ⟨h, fun _ _ => EmbedError.noConfusion⟩
  | ok result =>
      have hinserted := h.insertNew text hlength hinsert
      exact ⟨hinserted, hinserted.readBack text refusal⟩

theorem Uniform.settle (h : c.Uniform length known) (id : CallId) (refusal : Option String) :
    (c.settle id refusal).1.Uniform length known ∧
      ∀ a, (c.settle id refusal).2 = some a → FromRow length a := by
  unfold Cache.settle
  split
  · rename_i text lock v hcall
    have hlength : v.length = length := h.storing _ (call?_eq_some hcall).1 v rfl
    obtain ⟨hoffered, hanswer⟩ := h.offer text hlength refusal
    refine ⟨hoffered.finish _, fun a ha => ?_⟩
    cases ha
    exact hanswer
  · exact ⟨h, nofun⟩

/-! ## Writers -/

theorem Uniform.write (h : c.Uniform length known) (text : String) (v : Embedding) :
    (c.write text v).1.Uniform length known := by
  have hrequire := h.requireLength v
  unfold Cache.write
  by_cases hlength : v.length = length
  · rw [if_pos hlength] at hrequire
    simp only [hrequire]
    split
    · exact h
    · rename_i hinsert
      exact h.insertNew text hlength hinsert
    · rename_i hinsert
      exact h.insertNew text hlength hinsert
  · rw [if_neg hlength] at hrequire
    simp only [hrequire]
    exact h

theorem Uniform.rival (h : c.Uniform length known) (text : String) {cell : Cell}
    (hcell : cell.OfLength length) : (c.apply (.rival text cell)).Uniform length known := by
  unfold Cache.apply
  rw [if_pos (show c.enabled (.rival text cell) = true from rfl)]
  simp only
  split
  · rename_i db hinsert
    obtain ⟨htable, hadded⟩ := Database.insert_cases hinsert
    exact h.of_added htable text hcell (hadded.imp_right And.right)
  · exact h

theorem Uniform.prepare (h : c.Uniform length known) (hprepare : c.prepare = .ok c') :
    c'.Uniform length known := by
  obtain ⟨db, hdb, heq⟩ := bind_eq_ok_iff.mp hprepare
  cases heq
  obtain ⟨htable, hrows⟩ := Database.rows_of_prepare hdb
  exact h.of_rows htable fun row hrow => Or.inl (hrows ▸ hrow)

/-! ## Every event -/

/-- **Every event keeps the length.** -/
theorem Uniform.apply (h : c.Uniform length known) {event : Event} (hobeys : event.Obeys length) :
    (c.apply event).Uniform length known := by
  unfold Cache.apply
  split
  · cases event with
    | begin text => exact (h.begin text).1
    | takeUp id => exact (h.takeUp id).1
    | computed id outcome => exact (h.computed id outcome).1
    | settle id refusal => exact (h.settle id refusal).1
    | abandon id => exact h.finish id
    | write text v => exact h.write text v
    | rival text cell => exact h.rival text hobeys
  · exact h

/-- **So does every history.** -/
theorem Uniform.run (h : c.Uniform length known) {history : List Event}
    (hobeys : ∀ event ∈ history, event.Obeys length) : (c.run history).Uniform length known := by
  induction history generalizing c with
  | nil => exact h
  | cons event history ih =>
      exact ih (h.apply (hobeys event List.mem_cons_self))
        fun event' hmem => hobeys event' (List.mem_cons_of_mem _ hmem)

/-- A call that is answered with a vector along a history is answered with one of the length. -/
theorem Uniform.length_of_answerAt (h : c.Uniform length known) {history : List Event}
    (hobeys : ∀ event ∈ history, event.Obeys length) {moment : Nat}
    (hanswer : c.answerAt history moment = some (text, .ok v)) : v.length = length := by
  have hafter : (c.run (history.take (moment + 1))).Uniform length known :=
    h.run fun event hmem => hobeys event (List.mem_of_mem_take hmem)
  exact hafter.read_ok (read_of_answerAt hanswer)

end Cache

end NearNotes
