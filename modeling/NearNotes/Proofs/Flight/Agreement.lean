import Mathlib
import NearNotes.Proofs.Flight.Step

/-!
# Agreement on one vector for a text

Whoever inserted the row of a text, and whatever a call computed itself, the answer is what the
row holds.

* `answered`, `answerAt` : the answers that the calls of a history end with;
* `read_of_answered` : an answer is what a look at the text finds right afterwards;
* `read_grows` : what a look has found, every later one finds;
* `answers_agree` : so all answers for a text are the vector of its one row.
-/

namespace NearNotes

namespace Cache

open Database

/-! ## Answers -/

/-- The text of a call with the answer that one of its steps ends it with. -/
def answerTo (c : Cache) (id : CallId) (answer : Option Answer) : Option (String × Answer) := do
  return ((← c.call? id).text, ← answer)

theorem answerTo_eq_some {c : Cache} {id : CallId} {answer : Option Answer} {text : String}
    {a : Answer} (h : c.answerTo id answer = some (text, a)) :
    ∃ call, c.call? id = some call ∧ call.text = text ∧ answer = some a := by
  unfold answerTo at h
  cases hcall : c.call? id with
  | none =>
      rw [hcall] at h
      cases h
  | some call =>
      cases answer with
      | none =>
          rw [hcall] at h
          cases h
      | some b =>
          rw [hcall] at h
          cases h
          exact ⟨call, rfl, rfl, rfl⟩

/-- The call that an event ends with an answer: its text, and the answer. -/
def answered (c : Cache) (event : Event) : Option (String × Answer) :=
  if c.enabled event then
    match event with
    | .begin text => (c.begin text).2.getLeft?.map (text, ·)
    | .takeUp id => c.answerTo id (c.takeUp id).2
    | .computed id outcome => c.answerTo id (c.computed id outcome).2
    | .settle id refusal => c.answerTo id (c.settle id refusal).2
    | .abandon _ | .write .. | .rival .. => none
  else none

def answerAt (c : Cache) (history : List Event) (moment : Nat) : Option (String × Answer) :=
  history[moment]?.bind (c.run (history.take moment)).answered

theorem begin_answer {c : Cache} {text : String} {v : Embedding}
    (h : (c.begin text).2 = .inl (.ok v)) : c.read text = .ok (some v) := by
  unfold begin at h
  cases hread : c.read text with
  | error e =>
      rw [hread] at h
      cases h
  | ok found =>
      cases found with
      | some w =>
          rw [hread] at h
          cases h
          rfl
      | none =>
          rw [hread] at h
          cases h

theorem takeUp_answer {c : Cache} {id : CallId} {call : Call} {v : Embedding}
    (hcall : c.call? id = some call) (h : (c.takeUp id).2 = some (.ok v)) :
    c.read call.text = .ok (some v) := by
  rw [takeUp_eq hcall] at h
  cases hread : c.read call.text with
  | error e =>
      rw [hread] at h
      cases h
  | ok found =>
      cases found with
      | some w =>
          rw [hread] at h
          cases h
          rfl
      | none =>
          rw [hread] at h
          cases h

/-- The end of a computation is never a vector's way out: it has to be stored first. -/
theorem computed_answer (c : Cache) (id : CallId) (outcome : Answer) (v : Embedding) :
    (c.computed id outcome).2 ≠ some (.ok v) := by
  unfold computed
  split
  · exact fun h => by cases h
  · split
    · exact fun h => by cases h
    · exact fun h => by cases h

theorem settle_answer {c : Cache} {id : CallId} {call : Call} {refusal : Option String}
    {v : Embedding} (hcall : c.call? id = some call)
    (h : (c.settle id refusal).2 = some (.ok v)) :
    (c.settle id refusal).1.read call.text = .ok (some v) := by
  unfold settle at h ⊢
  rw [hcall] at h ⊢
  split at h
  · rename_i heq
    cases heq
    simp only [Option.some.injEq] at h
    rw [read_congr (database_finish _ _)]
    exact read_offer h
  · cases h

/-- The answer of a call is what a look at its text finds right afterwards. -/
theorem read_of_answered {c : Cache} {event : Event} {text : String} {v : Embedding}
    (h : c.answered event = some (text, .ok v)) : (c.apply event).read text = .ok (some v) := by
  unfold answered at h
  unfold apply
  split at h
  · rename_i henabled
    rw [if_pos henabled]
    cases event with
    | begin text' =>
        obtain ⟨a, ha, heq⟩ := Option.map_eq_some_iff.mp h
        cases heq
        rw [read_congr (database_begin c _)]
        exact begin_answer (Sum.getLeft?_eq_some_iff.mp ha)
    | takeUp id =>
        obtain ⟨call, hcall, rfl, hanswer⟩ := answerTo_eq_some h
        rw [read_congr (database_takeUp c id)]
        exact takeUp_answer hcall hanswer
    | computed id outcome =>
        obtain ⟨call, hcall, rfl, hanswer⟩ := answerTo_eq_some h
        exact absurd hanswer (computed_answer c id outcome v)
    | settle id refusal =>
        obtain ⟨call, hcall, rfl, hanswer⟩ := answerTo_eq_some h
        exact settle_answer hcall hanswer
    | abandon id => cases h
    | write text' w => cases h
    | rival text' cell => cases h
  · cases h

/-! ## Answers along a history -/

theorem read_grows {c c' : Cache} (h : c.database.Grows c'.database) {text : String}
    {v : Embedding} (hread : c.read text = .ok (some v)) : c'.read text = .ok (some v) := by
  obtain ⟨hsearch, row, rest, hrows, hv⟩ := read_eq_some_iff.mp hread
  have hkept := h.kept text (hrows ▸ List.cons_ne_nil row rest)
  exact read_eq_some_iff.mpr ⟨hsearch.grows h, row, rest, hkept.trans hrows, hv⟩

theorem read_of_answerAt {c : Cache} {history : List Event} {moment : Nat} {text : String}
    {v : Embedding} (h : c.answerAt history moment = some (text, .ok v)) :
    (c.run (history.take (moment + 1))).read text = .ok (some v) := by
  obtain ⟨event, hevent, hanswer⟩ := Option.bind_eq_some_iff.mp h
  rw [run_take_succ c hevent]
  exact read_of_answered hanswer

/-- Looks at two moments of a history that both find a vector find the same one. -/
theorem read_agree (c : Cache) (history : List Event) {i j : Nat} {text : String}
    {v w : Embedding} (hv : (c.run (history.take i)).read text = .ok (some v))
    (hw : (c.run (history.take j)).read text = .ok (some w)) : v = w := by
  rcases Nat.le_total i j with hle | hle
  · have := read_grows (run_take_grows c history hle) hv
    rw [hw] at this
    cases this
    rfl
  · have := read_grows (run_take_grows c history hle) hw
    rw [hv] at this
    cases this
    rfl

theorem distinct_of_openOn {db : Database} {c : Cache} (h : openOn db = .ok c) :
    (c.database.rows.map Row.key).Nodup := by
  unfold openOn Database.prepare at h
  cases htable : db.table with
  | none =>
      rw [htable] at h
      cases h
      exact List.nodup_nil
  | some t =>
      rw [htable] at h
      simp only at h
      split at h
      · rename_i hdistinct
        cases h
        rw [rows_of_table htable]
        exact of_decide_eq_true hdistinct
      · cases h

/-- Every answer of a call is the vector of the one row that its text has at that moment, and all
answers for a text, and all looks at it that find a vector, agree along a whole history. -/
theorem answers_agree {db : Database} {opened : Cache} (h : openOn db = .ok opened)
    (dimension : Option Nat) (history : List Event) (text : String) (v : Embedding) (moment : Nat) :
    let start : Cache := { opened with dimension }
    start.answerAt history moment = some (text, .ok v) →
    (∃ row, (start.run (history.take (moment + 1))).database.rowsFor text = [row] ∧
      row.cell.vector = .ok v) ∧
    (∀ other w, start.answerAt history other = some (text, .ok w) → w = v) ∧
    (∀ other w, (start.run (history.take other)).read text = .ok (some w) → w = v) := by
  intro start hanswer
  have hread := read_of_answerAt hanswer
  obtain ⟨-, row, rest, hrows, hv⟩ := read_eq_some_iff.mp hread
  have hstart : (opened.database.rows.map Row.key).Nodup := distinct_of_openOn h
  have hdistinct := (run_grows start (history.take (moment + 1))).distinct hstart
  refine ⟨⟨row, rowsFor_eq_singleton hdistinct hrows, hv⟩, ?_, ?_⟩
  · intro other w hother
    exact read_agree start history (read_of_answerAt hother) hread
  · intro other w hother
    exact read_agree start history hother hread

/-- A call that loses the race against another writer answers with the other's vector. -/
theorem answers_agree_lost_race :
    let start : Cache := { database := { table := some {} } }
    let history : List Event := [.begin "a", .takeUp 0, .rival "a" (.blob (Blob.encode [⟨1⟩])),
      .computed 0 (.ok [⟨2⟩]), .settle 0]
    openOn {} = .ok start ∧ start.answerAt history 4 = some ("a", .ok [⟨1⟩]) ∧
      ∃ row, (start.run (history.take 5)).database.rowsFor "a" = [row] ∧
        row.cell.vector = .ok [⟨1⟩] := by
  intro start history
  have hopen : openOn {} = .ok start := rfl
  have hanswer : start.answerAt history 4 = some ("a", .ok [⟨1⟩]) := by decide
  exact ⟨hopen, hanswer, (answers_agree hopen none history "a" [⟨1⟩] 4 hanswer).1⟩

end Cache

end NearNotes
