import Mathlib
import NearNotes.Proofs.Keyed
import NearNotes.Proofs.Population.Staffed

/-!
# A window on its way

A window of any width over a provider whose answers are those of a function. Whatever the delays, and
whoever else uses its cache, every position comes to the answer of a call that is alone. A window that
is alone at its cache comes to its end.

* `Window.load` : how much there is left to do at most;
* `Window.Aligned` : which positions are in the window; joining, polls and handing over keep it;
* `Window.Coursing` : the invariant of a window without a failure, beside others; `Coursing.step` : a
  step leaves less to do (`Window.Advances`), or hands a failure over;
* `Window.Underway` : the invariant of a window alone; `Underway.step`, with `Window.Failed`;
* `Underway.exists_due`, `Underway.wait` : where no step can be taken there is a moment to wait for,
  and waiting changes nothing else;
* `Underway.reaches` : a path to the end, no longer than the load.
-/

namespace NearNotes

open Cache

/-- Since some start, the source was asked for some of the texts, and only where no row was read. -/
def Session.Asks (start : Session) (texts : List String) (s : Session) : Prop :=
  ∃ records, s.log = start.log ++ records ∧ ∀ record ∈ records,
    ∃ text ∈ texts, record.input = .one text ∧ start.cache.read text = .ok none

theorem Session.Asks.append {start s s' : Session} {texts : List String} (h : start.Asks texts s)
    (hlog : ∃ records, s'.log = s.log ++ records ∧ ∀ record ∈ records,
      ∃ text ∈ texts, record.input = .one text ∧ start.cache.read text = .ok none) :
    start.Asks texts s' := by
  obtain ⟨earlier, hearlier, hasked⟩ := h
  obtain ⟨records, hlater, hrecords⟩ := hlog
  refine ⟨earlier ++ records, by rw [hlater, hearlier, List.append_assoc], fun record hrecord => ?_⟩
  rcases List.mem_append.mp hrecord with hold | hnew
  · exact hasked record hold
  · exact hrecords record hnew

/-- A call that is not finished is to be polled, and its answer handed over. -/
theorem Provider.one_lt_weight (p : Provider) {text : String} {work : Option Work} {s : Session}
    (h : ∀ rest, work = some rest → rest.Pursues p text s) : 1 < p.weight work := by
  cases work with
  | none => exact Nat.lt_add_left _ (by decide)
  | some rest =>
      cases h rest rfl with
      | line known => exact Nat.lt_add_left _ (by decide)
      | compute known polled due late => exact Nat.lt_add_left _ (by decide)

namespace Window

def load (w : Window) : Nat :=
  (w.texts.length - w.joined) * (w.provider.waits + 4) +
    (w.active.map fun a => w.provider.weight a.work).sum + w.finished.length

def computing (w : Window) : Nat := (w.active.map fun a => Work.computing a.work).sum

def Busy (w : Window) (text : String) : Prop :=
  ∃ a ∈ w.active, Work.computing a.work = 1 ∧ w.textAt a.position = text

/-- The texts, none or one, on which the provider is called in a step that leads to a window: where
a call was counted, it is that of the first in line. -/
def callsTo (w : Window) (s : Session) (w' : Window) : List String :=
  if w.computed < w'.computed then ((w.wake s).fill.ready.head?.map w.textAt).toList else []

theorem callsTo_of_computed_eq {w w' : Window} {s : Session} (h : w'.computed = w.computed) :
    w.callsTo s w' = [] := by
  rw [callsTo, h, if_neg (Nat.lt_irrefl _)]

theorem computed_poll (w : Window) (a : Active) (s : Session) :
    (w.poll a s).1.computed = w.computed + (w.polled a s).started.toNat := by
  cases h : (w.polled a s).progress with
  | pending work => rw [poll_of_pending h]
  | done answer => rw [poll_of_done h]

/-- The poll of the first in line calls the provider on its text if it starts to compute. -/
theorem callsTo_poll {w : Window} {s : Session} {a : Active} {rest : List Nat}
    (h : (w.wake s).fill.ready = a.position :: rest) :
    w.callsTo s (({ (w.wake s).fill with ready := rest } : Window).poll a s).1 =
      if (({ (w.wake s).fill with ready := rest } : Window).polled a s).started then
        [(w.wake s).fill.textAt a.position] else [] := by
  rw [callsTo, computed_poll, h]
  change (if w.computed < w.computed + _ then _ else _) = _
  split
  · rename_i hless
    rw [if_pos (by_contra fun hnot => by simp [hnot] at hless)]
    rfl
  · rename_i hnot
    rw [if_neg fun hstarted => hnot (by simp [hstarted])]

/-- A window without a failure, beside others for the given texts: every position that joined is
unfinished, finished with the answer of a call that is alone, as far as there are numbers for the
rows, or handed over with it. -/
structure Coursing (start : Session) (f : String → Answer) (texts : List String) (w : Window)
    (s : Session) : Prop where
  running : w.failure = none
  room : 1 ≤ w.width
  manned : Manned w s
  joined : w.joined ≤ w.texts.length
  entered : w.next ≤ w.joined
  positions : (w.active.map Active.position ++ w.finished.map Prod.fst).Perm
    (List.range' w.next (w.joined - w.next))
  handed : w.handedOver.map Except.ok = (w.texts.take w.next).map (start.cache.answerFor f)
  finished : ∀ entry ∈ w.finished, start.cache.Lands f texts (w.textAt entry.1) entry.2

/-- A window that is on its way, and alone at its cache. Where all texts come to a vector, those that
were computed have a row or are about to get one. -/
structure Underway (start : Session) (f : String → Answer) (w : Window) (s : Session) : Prop
    extends Coursing start f w.texts w s where
  crew : Crew start.cache f w.texts s.cache
  owned : ∀ call ∈ s.cache.calls, w.Holds call.id
  asks : start.Asks w.texts s
  tally : start.cache.Yields f w.texts →
    w.computed + start.cache.database.rows.length = s.cache.database.rows.length + w.computing

/-- A window that has handed a failure over: it is that of the first text that fails, and nothing
but rows is left in the cache. -/
structure Failed (start : Session) (f : String → Answer) (w : Window) (s : Session) : Prop where
  bound : w.next < w.texts.length
  failure : ∃ e, w.failure = some e ∧
    start.cache.Lands f w.texts (w.textAt w.next) (.error e)
  handed : w.handedOver.map Except.ok = (w.texts.take w.next).map (start.cache.answerFor f)
  since : Since start.cache f w.texts s.cache
  idle : Idle s.cache
  asks : start.Asks w.texts s

/-- What a step of a window comes to that hands no failure over, with the texts on which it calls the
provider. It leaves less to do, and goes on under one number, which is the window's or new. Where all
texts come to a vector, a row comes only for a text that was computed, and a text is computed only
once the provider was called on it. -/
structure Advances (start : Session) (f : String → Answer) (texts called : List String) (w : Window)
    (s : Session) (w' : Window) (s' : Session) : Prop where
  coursing : Coursing start f texts w' s'
  less : w'.load < w.load
  crew : Crew start.cache f texts s'.cache
  now : s'.now = s.now
  number : ∃ id, Apart id s.cache s'.cache ∧ (w.Holds id ∨ s.cache.nextCall ≤ id) ∧
    (∀ other, other ≠ id → (w'.Holds other ↔ w.Holds other)) ∧
    ∀ call ∈ s'.cache.calls, call.id = id → w'.Holds id
  log : ∃ records, s'.log = s.log ++ records ∧ ∀ record ∈ records,
    ∃ text ∈ w.texts, record.input = .one text ∧ start.cache.read text = .ok none
  counted : called.length + w.computed = w'.computed
  tally : start.cache.Yields f texts →
    w'.computed + s.cache.database.rows.length + w.computing =
      w.computed + s'.cache.database.rows.length + w'.computing
  traced : start.cache.Yields f texts →
    ∀ text, w'.Busy text ∨ s'.cache.read text ≠ s.cache.read text → w.Busy text ∨ text ∈ called

/-! ## Positions -/

/-- The positions in the window are those that have joined and are not handed over. -/
def Aligned (w : Window) : Prop :=
  (w.active.map Active.position ++ w.finished.map Prod.fst).Perm
    (List.range' w.next (w.joined - w.next))

section Aligned

variable {w : Window} {a : Active}

theorem Aligned.nodup (h : w.Aligned) :
    (w.active.map Active.position).Nodup ∧ (w.finished.map Prod.fst).Nodup := by
  have hall := h.nodup_iff.mpr (List.nodup_range' ..)
  exact ⟨(List.nodup_append'.mp hall).1, (List.nodup_append'.mp hall).2.1⟩

theorem Aligned.mem_positions (h : w.Aligned) (hentered : w.next ≤ w.joined) {position : Nat} :
    position ∈ w.active.map Active.position ++ w.finished.map Prod.fst ↔
      w.next ≤ position ∧ position < w.joined := by
  rw [h.mem_iff, List.mem_range'_1, Nat.add_sub_cancel' hentered]

theorem Aligned.occupied_eq (h : w.Aligned) : w.occupied = w.joined - w.next := by
  have hlength := h.length_eq
  rwa [List.length_append, List.length_map, List.length_map, List.length_range'] at hlength

theorem Aligned.fill (h : w.Aligned) (hentered : w.next ≤ w.joined) : w.fill.Aligned := by
  set room := min (w.width - w.occupied) (w.texts.length - w.joined) with hroom
  have hrange : List.range' w.next (w.joined + room - w.next) =
      List.range' w.next (w.joined - w.next) ++ List.range' w.joined room := by
    rw [Nat.sub_add_comm hentered, ← List.range'_append_1, Nat.add_sub_cancel' hentered]
  have hactive : w.fill.active.map Active.position =
      w.active.map Active.position ++ List.range' w.joined room := by
    show (w.active ++ _).map _ = _
    rw [List.map_append, List.map_map]
    simp [Function.comp_def, hroom]
  show (w.fill.active.map Active.position ++ w.finished.map Prod.fst).Perm
    (List.range' w.next (w.joined + room - w.next))
  rw [hactive, hrange, List.append_assoc]
  refine (List.perm_append_comm.append_left _).trans ?_
  rw [← List.append_assoc]
  exact h.append_right _

/-- What is handed over is the first position in the window. -/
theorem Aligned.handsOver (h : w.Aligned) (hless : w.next < w.joined) {v : Embedding}
    (hfound : (w.next, .ok v) ∈ w.finished) : Aligned { w with
      finished := w.finished.filter (·.1 != w.next)
      handedOver := w.handedOver ++ [v] } := by
  obtain ⟨before, after, hfinished, hfilter, -⟩ := split_of_nodup Prod.fst h.nodup.2 hfound
  have hnext : (w.handedOver ++ [v]).length = w.next + 1 := List.length_append
  have hpositions : (w.active.map Active.position ++ w.finished.map Prod.fst).Perm _ := h
  rw [hfinished, List.map_append, List.map_cons,
    show w.joined - w.next = w.joined - (w.next + 1) + 1 by omega, List.range'_succ,
    ← List.append_assoc] at hpositions
  show (w.active.map Active.position ++ (w.finished.filter (·.1 != w.next)).map Prod.fst).Perm
    (List.range' (w.handedOver ++ [v]).length (w.joined - (w.handedOver ++ [v]).length))
  rw [hnext, hfilter, List.map_append, ← List.append_assoc]
  exact (List.perm_middle.symm.trans hpositions).cons_inv

theorem Aligned.poll (h : w.Aligned) (ha : a ∈ w.active) (s : Session) :
    (w.poll a s).1.Aligned := by
  obtain ⟨before, after, hactive, hfilter, -⟩ := split_of_nodup Active.position h.nodup.1 ha
  cases hprogress : (w.polled a s).progress with
  | pending work =>
      rw [poll_of_pending hprogress]
      have hkept : (w.active.map fun b =>
          if b.position == a.position then { b with work := some work } else b).map
            Active.position = w.active.map Active.position := by
        rw [List.map_map]
        refine List.map_congr_left fun b _ => ?_
        simp only [Function.comp_apply]
        split <;> rfl
      show (List.map Active.position _ ++ w.finished.map Prod.fst).Perm _
      rw [hkept]
      exact h
  | done answer =>
      rw [poll_of_done hprogress]
      have hpositions : (w.active.map Active.position ++ w.finished.map Prod.fst).Perm _ := h
      rw [hactive] at hpositions
      refine List.Perm.trans ?_ hpositions
      show ((w.active.filter (·.position != a.position)).map Active.position ++
        (w.finished ++ [(a.position, answer)]).map Prod.fst).Perm _
      rw [hfilter]
      simp only [List.map_append, List.map_cons, List.map_nil, List.append_assoc]
      refine .append_left _ ?_
      rw [← List.append_assoc]
      exact List.perm_append_singleton _ _

end Aligned

section Coursing

variable {start : Session} {f : String → Answer} {texts : List String} {w : Window} {s : Session}
  {a : Active}

theorem coursing_of_new (start : Session) (f : String → Answer) (s : Session) {p : Provider}
    {width : Nat} (hwidth : 1 ≤ width) (own : List String) :
    Coursing start f texts { provider := p, width, texts := own } s where
  running := rfl
  room := hwidth
  manned := by
    refine ⟨?_, ?_, List.nodup_nil, ?_, ?_⟩
    · simp
    · simp
    · simp
    · simp
  joined := Nat.zero_le _
  entered := Nat.le_refl _
  positions := .refl _
  handed := rfl
  finished := by simp

theorem Coursing.mem_positions (h : Coursing start f texts w s) {position : Nat} :
    position ∈ w.active.map Active.position ++ w.finished.map Prod.fst ↔
      w.next ≤ position ∧ position < w.joined :=
  Aligned.mem_positions h.positions h.entered

theorem Coursing.active_lt (h : Coursing start f texts w s) (ha : a ∈ w.active) :
    a.position < w.joined :=
  (h.mem_positions.mp (List.mem_append_left _ (List.mem_map_of_mem ha))).2

theorem Coursing.finished_lt (h : Coursing start f texts w s) {entry : Nat × Answer}
    (hentry : entry ∈ w.finished) : entry.1 < w.joined :=
  (h.mem_positions.mp (List.mem_append_right _ (List.mem_map_of_mem hentry))).2

theorem Coursing.nodup (h : Coursing start f texts w s) :
    (w.active.map Active.position).Nodup ∧ (w.finished.map Prod.fst).Nodup :=
  Aligned.nodup h.positions

theorem textAt_mem {position : Nat} (h : position < w.texts.length) :
    w.textAt position ∈ w.texts := by
  rw [textAt, List.getD_eq_getElem _ _ h]
  exact List.getElem_mem h

theorem Coursing.text_mem (h : Coursing start f texts w s) (ha : a ∈ w.active) :
    w.textAt a.position ∈ w.texts :=
  textAt_mem ((h.active_lt ha).trans_le h.joined)

/-- When everything is handed over, nobody is left in the window. -/
theorem Coursing.active_nil (h : Coursing start f texts w s) (hend : w.next = w.texts.length) :
    w.active = [] := by
  have hoccupied : w.active.length + w.finished.length = w.joined - w.next :=
    Aligned.occupied_eq h.positions
  have hjoined := h.joined
  exact List.eq_nil_of_length_eq_zero (by omega)

/-! ## Waking and joining -/

theorem Coursing.wake (h : Coursing start f texts w s) (hquiet : w.provider.Quiet) :
    Coursing start f texts (w.wake s) s :=
  ⟨h.running, h.room, h.manned.wake hquiet, h.joined, h.entered, h.positions, h.handed, h.finished⟩

theorem load_fill (w : Window) : w.fill.load = w.load := by
  set room := min (w.width - w.occupied) (w.texts.length - w.joined) with hroom
  have hactive : w.fill.active = w.active ++ (List.range' w.joined room).map ({ position := · }) :=
    rfl
  have hjoins : (((List.range' w.joined room).map ({ position := · } : Nat → Active)).map
      fun a => w.provider.weight a.work).sum = room * (w.provider.waits + 4) := by
    rw [List.map_map]
    simp [Function.comp_def, Provider.weight]
  have hsplit : (w.texts.length - w.joined) * (w.provider.waits + 4) =
      (w.texts.length - (w.joined + room)) * (w.provider.waits + 4) +
        room * (w.provider.waits + 4) := by
    rw [← Nat.add_mul]
    congr 1
    omega
  show (w.texts.length - (w.joined + room)) * (w.provider.waits + 4) +
    (w.fill.active.map fun a => w.provider.weight a.work).sum + w.finished.length = w.load
  rw [hactive, List.map_append, List.sum_append, hjoins, load, hsplit]
  omega

theorem computing_fill (w : Window) : w.fill.computing = w.computing := by
  simp [computing, fill, Work.computing, Function.comp_def]

theorem busy_fill {text : String} (h : w.fill.Busy text) : w.Busy text := by
  obtain ⟨a, ha, hcomputing, htext⟩ := h
  refine ⟨a, (mem_active_fill w ha).resolve_right fun hfresh => ?_, hcomputing, htext⟩
  rw [hfresh.1] at hcomputing
  cases hcomputing

theorem Coursing.fill (h : Coursing start f texts w s) : Coursing start f texts w.fill s := by
  have hjoin := h.joined
  have hentered := h.entered
  refine ⟨h.running, h.room, h.manned.fill fun a => h.active_lt, ?_, ?_,
    Aligned.fill h.positions hentered, h.handed, h.finished⟩
  · show w.joined + min (w.width - w.occupied) (w.texts.length - w.joined) ≤ w.texts.length
    omega
  · exact hentered.trans (Nat.le_add_right _ _)

theorem Advances.of_filled {called : List String} {w' : Window} {s' : Session}
    (h : Advances start f texts called (w.wake s).fill s w' s') :
    Advances start f texts called w s w' s' := by
  have hholds : ∀ id, (w.wake s).fill.Holds id ↔ w.Holds id := fun id => holds_fill (w.wake s) id
  have hload : (w.wake s).fill.load = w.load := load_fill (w.wake s)
  have hcomputing : (w.wake s).fill.computing = w.computing := computing_fill (w.wake s)
  obtain ⟨id, hapart, hnumber, hothers, howned⟩ := h.number
  refine ⟨h.coursing, hload ▸ h.less, h.crew, h.now, ⟨id, hapart, ?_, ?_, howned⟩, h.log, h.counted,
    ?_, ?_⟩
  · rwa [hholds] at hnumber
  · intro other hne
    rw [hothers other hne, hholds]
  · intro hyields
    rw [← hcomputing]
    exact h.tally hyields
  · intro hyields text hcase
    exact (h.traced hyields text hcase).imp_left (busy_fill (w := w.wake s))

/-! ## Steps -/

theorem Coursing.handsOver (h : Coursing start f texts w s) (hcrew : Crew start.cache f texts s.cache)
    {v : Embedding} (hfound : (w.next, .ok v) ∈ w.finished) :
    Advances start f texts [] w s { w with
      finished := w.finished.filter (·.1 != w.next)
      handedOver := w.handedOver ++ [v] } s := by
  set w' := { w with
    finished := w.finished.filter (·.1 != w.next)
    handedOver := w.handedOver ++ [v] }
  obtain ⟨before, after, hfinished, hfilter, -⟩ := split_of_nodup Prod.fst h.nodup.2 hfound
  have hfinished' : w'.finished = before ++ after := hfilter
  have hnext : w'.next = w.next + 1 := by
    show (w.handedOver ++ [v]).length = _
    rw [List.length_append]
    rfl
  have hless := h.finished_lt hfound
  have hbound : w.next < w.texts.length := hless.trans_le h.joined
  have hcoursing : Coursing start f texts w' s := by
    refine ⟨h.running, h.room, ⟨h.manned.pursued, h.manned.apart, h.manned.once, h.manned.ready,
      h.manned.fresh⟩, h.joined, ?_, ?_, ?_, ?_⟩
    · rw [hnext]
      exact hless
    · exact Aligned.handsOver h.positions hless hfound
    · rw [hnext]
      show (w.handedOver ++ [v]).map Except.ok = (w.texts.take (w.next + 1)).map _
      rw [List.take_add_one, List.getElem?_eq_getElem hbound, List.map_append, h.handed,
        Option.toList_some, List.map_append, List.map_singleton, List.map_singleton]
      have hanswer := (h.finished _ hfound).eq_of_ok
      rw [textAt, List.getD_eq_getElem _ _ hbound] at hanswer
      rw [hanswer]
    · intro entry hentry
      rw [hfinished'] at hentry
      refine h.finished entry ?_
      rw [hfinished]
      simp only [List.mem_append, List.mem_cons] at hentry ⊢
      tauto
  refine ⟨hcoursing, ?_, hcrew, rfl, ⟨s.cache.nextCall, .refl _ _, Or.inr (Nat.le_refl _),
    fun _ _ => Iff.rfl, fun call hcall hid => ?_⟩, ⟨[], (List.append_nil _).symm, by simp⟩,
    Nat.zero_add _, fun _ => rfl, fun _ text hcase => Or.inl ?_⟩
  · show _ + _ + w'.finished.length < _ + _ + w.finished.length
    rw [hfinished', hfinished]
    simp only [List.length_append, List.length_cons]
    exact Nat.add_lt_add_left (by omega) _
  · exact absurd hid (hcrew.orderly.id_ne_nextCall hcall)
  · exact hcase.resolve_right fun hne => hne rfl

theorem Coursing.fetched (h : Coursing start f texts w s) (hcrew : Crew start.cache f texts s.cache)
    (hsub : ∀ text ∈ w.texts, text ∈ texts) (hcomputes : w.provider.Computes f) {rest : List Nat}
    (hfirst : w.ready = a.position :: rest) (ha : a ∈ w.active) :
    (({ w with ready := rest } : Window).polled a s).Fetched start.cache f texts w.provider
      (w.textAt a.position) (s.cache.ticket a.work) (w.provider.weight a.work)
      (s.cache.database.rows.length + Work.computing a.work) s := by
  have hgo := h.manned.canGo h.nodup.1 ha (hfirst ▸ List.mem_cons_self)
  exact w.provider.fetch_fetched hcomputes hcrew (hsub _ (h.text_mem ha)) (h.manned.pursued a ha) hgo

/-- What is left of a position in the window after a poll: its work goes on in its place. -/
def leftOf (a : Active) (progress : Progress) : List Active :=
  progress.rest.toList.map fun work => { a with work := some work }

theorem mem_leftOf {b : Active} {progress : Progress} :
    b ∈ leftOf a progress ↔ ∃ work, progress = .pending work ∧ b = { a with work := some work } := by
  cases progress with
  | pending work => simp [leftOf, Progress.rest]
  | done answer => simp [leftOf, Progress.rest]

theorem sum_computing_leftOf (a : Active) (progress : Progress) :
    ((leftOf a progress).map fun b => Work.computing b.work).sum = Work.computing progress.rest := by
  cases progress with
  | pending work => simp [leftOf, Progress.rest]
  | done answer => simp [leftOf, Progress.rest, Work.computing]

/-- The window after the poll of a position: what is left of it stands in its place, and its answer,
if it has one, at the end of those that are finished. -/
theorem Coursing.poll_eq (h : Coursing start f texts w s) (ha : a ∈ w.active) (rest : List Nat) :
    let poll := ({ w with ready := rest } : Window).polled a s
    ∃ first last, w.active = first ++ a :: last ∧
      (∀ b, b ∈ first ++ last ↔ b ∈ w.active ∧ b.position ≠ a.position) ∧
      ({ w with ready := rest } : Window).poll a s = ({ w with
        ready := rest
        computed := w.computed + poll.started.toNat
        active := first ++ leftOf a poll.progress ++ last
        finished := w.finished ++ poll.progress.answer?.toList.map (a.position, ·) },
        poll.session) := by
  intro poll
  obtain ⟨first, last, hactive, hfilter, hmap⟩ := split_of_nodup Active.position h.nodup.1 ha
  refine ⟨first, last, hactive, fun b => ?_, ?_⟩
  · rw [← hfilter, List.mem_filter, bne_iff_ne]
  · cases hprogress : poll.progress with
    | pending work =>
        rw [poll_of_pending hprogress]
        simp only [hmap, leftOf, Progress.rest, Progress.answer?, Option.toList_some,
          List.map_singleton, Option.toList_none, List.map_nil, List.append_nil, List.append_assoc,
          List.singleton_append]
        rfl
    | done answer =>
        rw [poll_of_done hprogress]
        simp only [hfilter, leftOf, Progress.rest, Progress.answer?, Option.toList_some,
          List.map_singleton, Option.toList_none, List.map_nil, List.append_nil]
        rfl

/-- What is left of a position and its answer stand for it among the positions. -/
theorem positions_perm (a : Active) (progress : Progress) (first last : List Active)
    (finished : List (Nat × Answer)) :
    ((first ++ leftOf a progress ++ last).map Active.position ++
      (finished ++ progress.answer?.toList.map (a.position, ·)).map Prod.fst).Perm
        ((first ++ a :: last).map Active.position ++ finished.map Prod.fst) := by
  cases progress with
  | pending work => simp [leftOf, Progress.rest, Progress.answer?]
  | done answer =>
      simp only [leftOf, Progress.rest, Progress.answer?, Option.toList_some, Option.toList_none,
        List.map_append, List.map_cons, List.map_nil, List.append_assoc, List.append_nil]
      refine .append_left _ ?_
      rw [← List.append_assoc]
      exact List.perm_append_singleton _ _

/-- A poll that leaves less to do for its position leaves less to do for all. -/
theorem weight_lt (p : Provider) {progress : Progress} (hpos : 1 < p.weight a.work)
    (hless : ∀ work, progress = .pending work → p.weight (some work) < p.weight a.work)
    (first last : List Active) (finished : List (Nat × Answer)) :
    ((first ++ leftOf a progress ++ last).map fun b => p.weight b.work).sum +
        (finished ++ progress.answer?.toList.map (a.position, ·)).length <
      ((first ++ a :: last).map fun b => p.weight b.work).sum + finished.length := by
  cases progress with
  | pending work =>
      have hwork := hless work rfl
      simp only [leftOf, Progress.rest, Progress.answer?, Option.toList_some, Option.toList_none,
        List.map_append, List.map_cons, List.map_nil, List.sum_append, List.sum_cons, List.sum_nil,
        List.append_nil]
      omega
  | done answer =>
      simp only [leftOf, Progress.rest, Progress.answer?, Option.toList_some, Option.toList_none,
        List.map_append, List.map_cons, List.map_nil, List.sum_append, List.sum_cons,
        List.append_nil, List.length_append, List.length_singleton]
      omega

theorem computing_le_one (work : Option Work) : Work.computing work ≤ 1 := by
  unfold Work.computing
  split
  · exact Nat.le_refl 1
  · exact Nat.zero_le 1

/-- Where a poll neither starts nor goes on with a computation, no row comes and nothing is read
that was not before. -/
theorem quiet_of_fetched {p : Provider} {text : String} {id : CallId} {budget : Nat}
    {work : Option Work}
    (hfetched : (p.fetch text work s).Fetched start.cache f texts p text id budget
      (s.cache.database.rows.length + Work.computing work) s)
    (hsince : Since start.cache f texts s.cache) (hyields : start.cache.Yields f texts)
    (hstarted : (p.fetch text work s).started = false) (hwork : Work.computing work = 0) :
    Work.computing (p.fetch text work s).progress.rest = 0 ∧
      ∀ other, (p.fetch text work s).session.cache.read other = s.cache.read other := by
  have hgrows := (p.fetch_onward text work s).grows.rows
  have htally := hfetched.tally hyields
  rw [hstarted, hwork] at htally
  have hlength := hgrows.length_le
  have hnone : false.toNat = 0 := rfl
  refine ⟨by omega, fun other => read_of_rows_eq ?_ ?_ other⟩
  · exact (hgrows.eq_of_length (by omega)).symm
  · exact hfetched.crew.since.table.trans hsince.table.symm

/-- A text that is computed or stored anew by a poll is the one that was polled, and the poll started
to compute or went on with that. -/
theorem traced_of_fetched (ha : a ∈ w.active)
    (hfetched : (w.polled a s).Fetched start.cache f texts w.provider (w.textAt a.position)
      (s.cache.ticket a.work) (w.provider.weight a.work)
      (s.cache.database.rows.length + Work.computing a.work) s)
    (hsince : Since start.cache f texts s.cache)
    (hyields : start.cache.Yields f texts) {text : String}
    (hcase : (∃ b ∈ leftOf a (w.polled a s).progress, Work.computing b.work = 1 ∧
        w.textAt b.position = text) ∨
      (w.polled a s).session.cache.read text ≠ s.cache.read text) :
    w.Busy text ∨ (w.polled a s).started = true ∧ text = w.textAt a.position := by
  have htext : text = w.textAt a.position := by
    rcases hcase with ⟨b, hb, -, hsame⟩ | hread
    · obtain ⟨work, -, rfl⟩ := mem_leftOf.mp hb
      exact hsame.symm
    · exact by_contra fun hne => hread (hfetched.others text hne)
  subst htext
  cases hstarted : (w.polled a s).started with
  | true => exact Or.inr ⟨rfl, rfl⟩
  | false =>
      refine Or.inl ⟨a, ha, ?_, rfl⟩
      by_contra hidle
      have hwork : Work.computing a.work = 0 := by
        have hbound := computing_le_one a.work
        omega
      obtain ⟨hnone, hreads⟩ := quiet_of_fetched hfetched hsince hyields hstarted hwork
      rcases hcase with ⟨b, hb, hcomputing, -⟩ | hread
      · obtain ⟨work, hprogress, rfl⟩ := mem_leftOf.mp hb
        have hrest : (w.provider.fetch (w.textAt a.position) a.work s).progress = .pending work :=
          hprogress
        rw [hrest] at hnone
        exact absurd (hcomputing.symm.trans hnone) (by decide)
      · exact hread (hreads _)

theorem Coursing.polls (h : Coursing start f texts w s) (hcrew : Crew start.cache f texts s.cache)
    (hsub : ∀ text ∈ w.texts, text ∈ texts) (hcomputes : w.provider.Computes f) {rest : List Nat}
    (hfirst : w.ready = a.position :: rest) (ha : a ∈ w.active) :
    let after := ({ w with ready := rest } : Window).poll a s
    Advances start f texts
      (if (({ w with ready := rest } : Window).polled a s).started then [w.textAt a.position] else [])
      w s after.1 after.2 := by
  intro after
  have hfetched := h.fetched hcrew hsub hcomputes hfirst ha
  obtain ⟨first, last, hactive, hothers, hafter⟩ := h.poll_eq ha rest
  set poll := ({ w with ready := rest } : Window).polled a s
  have hmem : ∀ b, b ∈ first ++ leftOf a poll.progress ++ last ↔
      b ∈ w.active ∧ b.position ≠ a.position ∨ b ∈ leftOf a poll.progress := by
    intro b
    rw [← hothers]
    simp only [List.mem_append]
    tauto
  have hrest : ∀ b ∈ leftOf a poll.progress, b.position = a.position ∧ ∃ work, b.work = some work ∧
      work.ticket? = some (s.cache.ticket a.work) ∧
      work.Pursues w.provider (w.textAt a.position) poll.session := by
    intro b hb
    obtain ⟨work, hprogress, rfl⟩ := mem_leftOf.mp hb
    obtain ⟨hticket, hpursues, -⟩ := hfetched.pending work hprogress
    exact ⟨rfl, work, rfl, hticket, hpursues⟩
  have htickets : ∀ b ∈ leftOf a poll.progress, b.ticket? = some (s.cache.ticket a.work) := by
    intro b hb
    obtain ⟨-, work, hwork, hticket, -⟩ := hrest b hb
    rw [Active.ticket?, hwork]
    exact hticket
  rw [show after = _ from hafter]
  refine ⟨⟨h.running, h.room, ?_, h.joined, h.entered, ?_, h.handed, fun entry hentry => ?_⟩, ?_,
    hfetched.crew, hfetched.now, ⟨s.cache.ticket a.work, hfetched.apart, ?_, ?_, ?_⟩, ?_, ?_,
    fun hyields => ?_, fun hyields text hcase => ?_⟩
  · exact h.manned.poll hcrew.orderly ha hfirst hfetched.apart hfetched.now hrest rfl rfl hmem rfl
  · refine (positions_perm a poll.progress first last w.finished).trans ?_
    rw [← hactive]
    exact h.positions
  · rcases List.mem_append.mp hentry with hold | hlast
    · exact h.finished entry hold
    · obtain ⟨answer, hanswer, rfl⟩ := List.mem_map.mp hlast
      cases hprogress : poll.progress with
      | pending work =>
          rw [hprogress] at hanswer
          cases hanswer
      | done answer' =>
          rw [hprogress] at hanswer
          obtain rfl := List.mem_singleton.mp hanswer
          exact (hfetched.done answer hprogress).1
  · have hless := weight_lt w.provider (w.provider.one_lt_weight (h.manned.pursued a ha))
      (fun work hwork => (hfetched.pending work hwork).2.2) first last w.finished
    rw [← hactive] at hless
    simp only [load]
    omega
  · exact (holds_ticket ha s.cache).imp id fun hnew => Nat.le_of_eq hnew.2.symm
  · exact fun other hne => holds_of_ne h.nodup.1 ha htickets hmem hne
  · intro call hcall hid
    obtain ⟨work, hprogress⟩ : ∃ work, poll.progress = .pending work := by
      cases hprogress : poll.progress with
      | pending work => exact ⟨work, rfl⟩
      | done answer => exact absurd hid ((hfetched.done answer hprogress).2 call hcall)
    exact ⟨{ a with work := some work },
      (hmem _).mpr (Or.inr (mem_leftOf.mpr ⟨work, hprogress, rfl⟩)),
      (hfetched.pending work hprogress).1⟩
  · obtain ⟨records, hlog, hrecords⟩ := hfetched.log
    exact ⟨records, hlog, fun record hrecord => ⟨_, h.text_mem ha, hrecords record hrecord⟩⟩
  · show _ + w.computed = w.computed + poll.started.toNat
    rw [Nat.add_comm]
    cases poll.started with
    | true => rfl
    | false => rfl
  · have hstep := hfetched.tally hyields
    have hsum := sum_computing_leftOf a poll.progress
    simp only [computing, hactive, List.map_append, List.map_cons, List.sum_append, List.sum_cons,
      hsum]
    omega
  · -- The other positions compute as before.
    have hnew : w.Busy text ∨ (∃ b ∈ leftOf a poll.progress, Work.computing b.work = 1 ∧
        w.textAt b.position = text) ∨ poll.session.cache.read text ≠ s.cache.read text := by
      rcases hcase with ⟨b, hb, hcomputing, hsame⟩ | hread
      · rcases (hmem b).mp hb with ⟨hb, -⟩ | hb
        · exact Or.inl ⟨b, hb, hcomputing, hsame⟩
        · exact Or.inr (Or.inl ⟨b, hb, hcomputing, hsame⟩)
      · exact Or.inr (Or.inr hread)
    rcases hnew with hbusy | hcase
    · exact Or.inl hbusy
    · rcases traced_of_fetched ha hfetched hcrew.since hyields hcase with
        hbusy | ⟨hstarted, rfl⟩
      · exact Or.inl hbusy
      · rw [if_pos (show poll.started = true from hstarted)]
        exact Or.inr (List.mem_singleton_self _)

/-- **One step** of a window on its way leaves less to do, or hands the first failure over. -/
theorem Coursing.step (h : Coursing start f texts w s) (hcrew : Crew start.cache f texts s.cache)
    (hsub : ∀ text ∈ w.texts, text ∈ texts) (hcomputes : w.provider.Computes f)
    {after : Window × Session} (hstep : w.step? s = some after) :
    Advances start f texts (w.callsTo s after.1) w s after.1 after.2 ∨
      ∃ e, (w.next, .error e) ∈ w.finished ∧
        after = ({ (w.wake s).fill with active := [], finished := [], ready := [], failure := some e },
          (w.wake s).fill.cancelAll s) := by
  have hfilled : Coursing start f texts (w.wake s).fill s := (h.wake hcomputes.quiet).fill
  cases (step?_eq_some hstep).2 with
  | handsOver found =>
      left
      have hadvances := (hfilled.handsOver hcrew found).of_filled
      rw [callsTo_of_computed_eq (hadvances.counted.symm.trans (Nat.zero_add _))]
      exact hadvances
  | fails found => exact Or.inr ⟨_, found, rfl⟩
  | @polls a rest unfinished first known =>
      left
      rw [callsTo_poll first]
      exact (hfilled.polls hcrew hsub hcomputes first known).of_filled
  | skips unfinished first unknown =>
      obtain ⟨a, ha, heq, -⟩ := hfilled.manned.ready _ (first ▸ List.mem_cons_self)
      exact absurd heq (unknown a ha)

end Coursing

/-! ## A window alone -/

section Underway

variable {start : Session} {f : String → Answer} {texts : List String} {w : Window} {s : Session}
  {a : Active}

theorem Underway.staffed (h : Underway start f w s) : Staffed w s := ⟨h.manned, h.owned⟩

theorem underway_of_new (hidle : Idle start.cache) {p : Provider} {width : Nat} (hwidth : 1 ≤ width)
    (texts : List String) : Underway start f { provider := p, width, texts } start where
  toCoursing := coursing_of_new start f start hwidth texts
  crew := ⟨hidle.orderly, .refl _ _ _, fun call hcall => by simp [hidle.calls] at hcall⟩
  owned := fun call hcall => by simp [hidle.calls] at hcall
  asks := ⟨[], (List.append_nil _).symm, by simp⟩
  tally := fun _ => by
    show 0 + _ = _ + 0
    omega

theorem Underway.fill (h : Underway start f w s) (hquiet : w.provider.Quiet) :
    Underway start f (w.wake s).fill s := by
  refine ⟨(h.toCoursing.wake hquiet).fill, h.crew, fun call hcall => ?_, h.asks, fun hyields => ?_⟩
  · exact (holds_fill (w.wake s) _).mpr (h.owned call hcall)
  · rw [computing_fill]
    exact h.tally hyields

/-- The next position has failed: it is the first to do so, and everything else is dropped. -/
theorem Underway.fails (h : Underway start f w s) (hquiet : w.provider.Quiet) {e : EmbedError}
    (hfound : (w.next, .error e) ∈ w.finished) :
    Failed start f { w with active := [], finished := [], ready := [], failure := some e }
      (w.cancelAll s) ∧ (w.cancelAll s).log = s.log ∧ 0 < w.load := by
  obtain ⟨hlog, hdatabase, hdimension, hidle⟩ :=
    h.staffed.idle_cancelAll hquiet h.crew.orderly
  have hless := h.finished_lt hfound
  refine ⟨⟨hless.trans_le h.joined, ⟨e, rfl, h.finished _ hfound⟩, h.handed,
    h.crew.since.congr hdatabase hdimension, hidle, ?_⟩, hlog, ?_⟩
  · obtain ⟨records, hrecords, hasked⟩ := h.asks
    exact ⟨records, hlog.trans hrecords, hasked⟩
  · exact Nat.add_pos_right _ (List.length_pos_of_mem hfound)

theorem Underway.of_advances (h : Underway start f w s) {called : List String} {w' : Window}
    {s' : Session} (htexts : w'.texts = w.texts)
    (hadvances : Advances start f w.texts called w s w' s') : Underway start f w' s' := by
  obtain ⟨id, hapart, -, hothers, howned⟩ := hadvances.number
  refine ⟨htexts ▸ hadvances.coursing, htexts ▸ hadvances.crew, fun call hcall => ?_, ?_, fun hyields => ?_⟩
  · by_cases hid : call.id = id
    · exact hid ▸ howned call hcall hid
    · exact (hothers _ hid).mpr (h.owned call ((hapart.calls call hid).mp hcall))
  · rw [htexts]
    exact h.asks.append hadvances.log
  · rw [htexts] at hyields
    have htally := h.tally hyields
    have hstep := hadvances.tally hyields
    omega

/-- **One step** of a window on its way leaves less to do, or hands the first failure over without
a call on the source. -/
theorem Underway.step (h : Underway start f w s) (hcomputes : w.provider.Computes f)
    {after : Window × Session} (hstep : w.step? s = some after) :
    (Underway start f after.1 after.2 ∧ after.1.load < w.load) ∨
      (Failed start f after.1 after.2 ∧ after.2.log = s.log ∧ 0 < w.load) := by
  rcases h.toCoursing.step h.crew (fun _ htext => htext) hcomputes hstep with
    hadvances | ⟨e, hfound, rfl⟩
  · exact Or.inl ⟨h.of_advances (step?_keeps hstep).1 hadvances, hadvances.less⟩
  · right
    obtain ⟨hfailed, hlog, hpos⟩ := (h.fill hcomputes.quiet).fails hcomputes.quiet hfound
    exact ⟨hfailed, hlog, load_fill (w.wake s) ▸ hpos⟩

/-! ## Waiting -/

/-- The window is not over and no step can be taken: nobody is in line. -/
theorem ready_of_idle (hover : w.isOver = false) (hidle : w.step? s = none) :
    (w.wake s).ready = [] ∧ (∀ answer, (w.next, answer) ∉ w.finished) ∧
      ¬(w.joined < w.texts.length ∧ w.occupied < w.width) := by
  have hnone : (w.step? s).isSome = false := by rw [hidle]; rfl
  rw [step?_isSome hover, ready_fill_isEmpty] at hnone
  simp only [Bool.or_eq_false_iff, Bool.not_eq_false', Bool.and_eq_true, Bool.not_eq_true',
    List.isEmpty_iff, List.any_eq_false] at hnone
  obtain ⟨hfinished, hready, hroom⟩ := hnone
  refine ⟨hready, fun answer hmem => ?_, ?_⟩
  · have := hfinished _ hmem
    simp at this
  · rintro ⟨hjoined, hfree⟩
    have hroom : (decide (w.joined < w.texts.length) && decide (w.occupied < w.width)) = false :=
      hroom
    simp [hjoined, hfree] at hroom

theorem Coursing.exists_active (h : Coursing start f texts w s) (hover : w.isOver = false)
    (hidle : w.step? s = none) : ∃ a, a ∈ w.active := by
  obtain ⟨-, hunfinished, hroom⟩ := ready_of_idle hover hidle
  have hnext : w.next ≠ w.texts.length := by
    intro heq
    simp [isOver, heq] at hover
  have hjoin := h.joined
  have hentered := h.entered
  have hwidth := h.room
  by_contra hnobody
  have hactive : w.active = [] :=
    List.eq_nil_iff_forall_not_mem.mpr fun a ha => hnobody ⟨a, ha⟩
  -- Then the next position has not joined, and there is room for it.
  have hall : w.next = w.joined := by
    by_contra hne
    have hmem : w.next ∈ w.active.map Active.position ++ w.finished.map Prod.fst :=
      h.mem_positions.mpr ⟨Nat.le_refl _, by omega⟩
    rw [hactive, List.map_nil, List.nil_append, List.mem_map] at hmem
    obtain ⟨⟨position, answer⟩, hentry, rfl⟩ := hmem
    exact hunfinished answer hentry
  have hoccupied : w.occupied = 0 := by
    have hlength := h.positions.length_eq
    rw [List.length_append, List.length_map, List.length_map, List.length_range', hall] at hlength
    rw [occupied]
    omega
  exact hroom ⟨by omega, by omega⟩

theorem Underway.exists_due (h : Underway start f w s) (hover : w.isOver = false)
    (hidle : w.step? s = none) : ∃ due, w.due? = some due := by
  obtain ⟨a, ha⟩ := h.exists_active hover hidle
  exact h.staffed.exists_due h.crew (ready_of_idle hover hidle).1 ha

theorem Coursing.wait (h : Coursing start f texts w s) {moment : Moment} (hlater : s.now ≤ moment)
    (hdue : ∀ due, w.due? = some due → moment ≤ due) :
    Coursing start f texts w { s with now := moment } :=
  ⟨h.running, h.room, h.manned.wait hlater hdue, h.joined, h.entered, h.positions, h.handed,
    h.finished⟩

theorem Manned.now_le_due (h : Manned w s) {due : Moment} (hdue : w.due? = some due) :
    s.now ≤ due := by
  obtain ⟨hone, -⟩ := foldl_earlier?_eq_some _ _ _ hdue
  obtain hone | ⟨a, ha, hwork⟩ := hone
  · cases hone
  · obtain ⟨work, hsome, hwork⟩ := Option.bind_eq_some_iff.mp hwork
    cases h.pursued a ha work hsome with
    | line known => cases hwork
    | compute known polled moment late =>
        cases moment.symm.trans hwork
        exact late

theorem Underway.wait (h : Underway start f w s) {due : Moment} (hdue : w.due? = some due) :
    Underway start f w { s with now := max s.now due } := by
  refine ⟨h.toCoursing.wait (Nat.le_max_left _ _) fun due' hdue' => ?_, h.crew, h.owned, h.asks,
    h.tally⟩
  cases hdue.symm.trans hdue'
  exact Nat.max_le.mpr ⟨h.manned.now_le_due hdue, Nat.le_refl _⟩

/-! ## The end -/

/-- **The whole run.** From a window on its way there is a path, no longer than its load, to its end
or to the step that hands the first failure over. -/
theorem Underway.reaches (h : Underway start f w s) (hcomputes : w.provider.Computes f) :
    ∃ m w₁ s₁, Path m w s w₁ s₁ ∧ m + w₁.load ≤ w.load ∧ Underway start f w₁ s₁ ∧
      (w₁.isOver = true ∨ ∃ w₂ s₂, w₁.step? s₁ = some (w₂, s₂) ∧ Failed start f w₂ s₂ ∧
        s₂.log = s₁.log ∧ 0 < w₁.load) := by
  induction hload : w.load using Nat.strong_induction_on generalizing w s with
  | _ load ih =>
      subst hload
      -- Where a step can be taken, it leaves less to do.
      have hgo : ∀ s, Underway start f w s → (w.step? s).isSome →
          ∃ m w₁ s₁, Path m w s w₁ s₁ ∧ m + w₁.load ≤ w.load ∧ Underway start f w₁ s₁ ∧
            (w₁.isOver = true ∨ ∃ w₂ s₂, w₁.step? s₁ = some (w₂, s₂) ∧ Failed start f w₂ s₂ ∧
              s₂.log = s₁.log ∧ 0 < w₁.load) := by
        intro s h hsome
        obtain ⟨⟨w', s'⟩, hstep⟩ := Option.isSome_iff_exists.mp hsome
        rcases h.step hcomputes hstep with ⟨hafter, hless⟩ | hfailed
        · dsimp only at hafter hless
          have hcomputes' : w'.provider.Computes f := by
            rw [(step?_keeps hstep).2]
            exact hcomputes
          obtain ⟨m, w₁, s₁, hpath, hbound, hend⟩ := ih w'.load hless hafter hcomputes' rfl
          exact ⟨m + 1, w₁, s₁, .step hstep hpath, by omega, hend⟩
        · exact ⟨0, w, s, .refl w s, by omega, h, Or.inr ⟨w', s', hstep, hfailed⟩⟩
      cases hover : w.isOver with
      | true => exact ⟨0, w, s, .refl w s, by omega, h, Or.inl hover⟩
      | false =>
          cases hstep : w.step? s with
          | some after => exact hgo s h (by rw [hstep]; rfl)
          | none =>
              obtain ⟨due, hdue⟩ := h.exists_due hover hstep
              obtain ⟨m, w₁, s₁, hpath, hend⟩ := hgo _ (h.wait hdue)
                (step?_isSome_of_due hover hdue (Nat.le_max_right _ _))
              exact ⟨m, w₁, s₁, .wait hstep hover hdue hpath, hend⟩

end Underway

end Window

end NearNotes
