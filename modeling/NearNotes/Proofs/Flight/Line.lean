import Mathlib
import NearNotes.Cache.Flight
import NearNotes.Proofs.Keyed

/-!
# Calls in line

The calls in progress for one text stand in one line, in the order in which they came. The first
of them holds the lock of the text, and only the first may be past its second look.

* `Cache.line` : the calls in line for a lock; `Lock.ofLine` : the lock that such a line has, with
  `join_ofLine` and `leave_ofLine`;
* `Filed`, `Orderly` : calls, keys, locks and grants fit together;
* `SameFlight` : two caches agree on all of that; `Orderly.congr`;
* `Orderly.enqueue`, `Orderly.setPhase`, `Orderly.finish` : a call comes, goes on and ends.
-/

namespace NearNotes

namespace Lock

/-- The lock that a line of calls has: the first holds it and the others wait. -/
def ofLine (id : LockId) (line : List CallId) : Lock := ⟨id, line.head?, line.tail⟩

theorem join_ofLine (id : LockId) (line : List CallId) (call : CallId) :
    (ofLine id line).join call = ofLine id (line ++ [call]) := by
  cases line with
  | nil => rfl
  | cons first rest => rfl

theorem leave_ofLine (id : LockId) (line : List CallId) (call : CallId) :
    (ofLine id line).leave call = ofLine id (line.erase call) := by
  cases line with
  | nil => rfl
  | cons first rest =>
      by_cases hfirst : first = call
      · subst hfirst
        have hholder : (ofLine id (first :: rest)).holder = some first := rfl
        rw [List.erase_cons_head, leave, if_pos hholder]
        cases rest with
        | nil => rfl
        | cons next rest => rfl
      · have hholder : (ofLine id (first :: rest)).holder ≠ some call := fun h =>
          hfirst (Option.some.inj h)
        rw [List.erase_cons_tail (by simpa using hfirst), leave, if_neg hholder]
        rfl

end Lock

namespace Cache

def line (c : Cache) (lock : LockId) : List CallId :=
  (c.calls.filter fun call => call.lock == lock).map Call.id

theorem mem_line {c : Cache} {lock : LockId} {id : CallId} :
    id ∈ c.line lock ↔ ∃ call ∈ c.calls, call.lock = lock ∧ call.id = id := by
  simp only [line, List.mem_map, List.mem_filter, beq_iff_eq, and_assoc]

/-- Every call is in line for the lock of its text, the locks are those of the lines, only the
first in line is past its second look, and the grants are for those first calls that have not
taken them up. -/
structure Filed (c : Cache) : Prop where
  ids : (c.calls.map Call.id).Nodup
  idBound : ∀ call ∈ c.calls, call.id < c.nextCall
  texts : (c.keys.map Prod.fst).Nodup
  lockIds : (c.keys.map Prod.snd).Nodup
  lockBound : ∀ key ∈ c.keys, key.2 < c.nextLock
  filed : ∀ call ∈ c.calls, (call.text, call.lock) ∈ c.keys
  locks : c.locks = c.keys.map fun key => Lock.ofLine key.2 (c.line key.2)
  phases : ∀ call ∈ c.calls, call.phase ≠ .queued → (c.line call.lock).head? = some call.id
  granted : ∀ id, id ∈ c.granted ↔ ∃ call ∈ c.calls, call.id = id ∧ call.phase = .queued ∧
    (c.line call.lock).head? = some id
  grantedOnce : c.granted.Nodup

structure Orderly (c : Cache) : Prop extends Filed c where
  used : ∀ key ∈ c.keys, c.line key.2 ≠ []

structure SameFlight (c c' : Cache) : Prop where
  calls : c'.calls = c.calls
  keys : c'.keys = c.keys
  locks : c'.locks = c.locks
  granted : c'.granted = c.granted
  nextCall : c'.nextCall = c.nextCall
  nextLock : c'.nextLock = c.nextLock

theorem SameFlight.refl (c : Cache) : SameFlight c c := ⟨rfl, rfl, rfl, rfl, rfl, rfl⟩

theorem SameFlight.line {c c' : Cache} (h : SameFlight c c') : c'.line = c.line := by
  funext lock
  rw [Cache.line, h.calls]
  rfl

theorem Filed.congr {c c' : Cache} (h : Filed c) (hsame : SameFlight c c') : Filed c' := by
  have hline := hsame.line
  obtain ⟨hcalls, hkeys, hlocks, hgranted, hcall, hlock⟩ := hsame
  refine ⟨?_, ?_, ?_, ?_, ?_, ?_, ?_, ?_, ?_, ?_⟩
  · exact hcalls ▸ h.ids
  · rw [hcalls, hcall]
    exact h.idBound
  · exact hkeys ▸ h.texts
  · exact hkeys ▸ h.lockIds
  · rw [hkeys, hlock]
    exact h.lockBound
  · rw [hcalls, hkeys]
    exact h.filed
  · rw [hlocks, hkeys, hline]
    exact h.locks
  · rw [hcalls, hline]
    exact h.phases
  · rw [hgranted, hcalls, hline]
    exact h.granted
  · exact hgranted ▸ h.grantedOnce

theorem Orderly.congr {c c' : Cache} (h : Orderly c) (hsame : SameFlight c c') : Orderly c' := by
  refine ⟨h.toFiled.congr hsame, ?_⟩
  rw [hsame.keys, hsame.line]
  exact h.used

/-! ## Looking things up -/

theorem call?_eq_some {c : Cache} {id : CallId} {call : Call} (h : c.call? id = some call) :
    call ∈ c.calls ∧ call.id = id :=
  ⟨List.mem_of_find?_eq_some h, by simpa using List.find?_some h⟩

theorem Filed.call? {c : Cache} (h : Filed c) {call : Call} (hcall : call ∈ c.calls) :
    c.call? call.id = some call := find?_eq_some_of_nodup Call.id h.ids hcall

theorem Filed.eq_of_id_eq {c : Cache} (h : Filed c) {call call' : Call} (hcall : call ∈ c.calls)
    (hcall' : call' ∈ c.calls) (heq : call.id = call'.id) : call = call' :=
  List.inj_on_of_nodup_map h.ids hcall hcall' heq

theorem Filed.lock?_eq {c : Cache} (h : Filed c) {text : String} {lock : LockId}
    (hkey : (text, lock) ∈ c.keys) : c.lock? lock = some (Lock.ofLine lock (c.line lock)) := by
  have hids : (c.locks.map Lock.id).Nodup := by
    rw [h.locks, List.map_map]
    exact h.lockIds
  have hmem : Lock.ofLine lock (c.line lock) ∈ c.locks := by
    rw [h.locks]
    exact List.mem_map.mpr ⟨(text, lock), hkey, rfl⟩
  exact find?_eq_some_of_nodup Lock.id hids hmem

theorem Filed.lock_eq_of_text_eq {c : Cache} (h : Filed c) {call call' : Call}
    (hcall : call ∈ c.calls) (hcall' : call' ∈ c.calls) (heq : call.text = call'.text) :
    call.lock = call'.lock :=
  congrArg Prod.snd
    (List.inj_on_of_nodup_map h.texts (h.filed call hcall) (h.filed call' hcall') heq)

theorem Filed.text_eq_of_lock_eq {c : Cache} (h : Filed c) {call : Call} (hcall : call ∈ c.calls)
    {key : String × LockId} (hkey : key ∈ c.keys) (heq : key.2 = call.lock) :
    key.1 = call.text :=
  congrArg Prod.fst (List.inj_on_of_nodup_map h.lockIds hkey (h.filed call hcall) heq)

theorem line_nodup {c : Cache} (h : (c.calls.map Call.id).Nodup) (lock : LockId) :
    (c.line lock).Nodup := h.sublist (List.filter_sublist.map Call.id)

theorem Filed.exists_first {c : Cache} (h : Filed c) {call : Call} (hcall : call ∈ c.calls) :
    ∃ first ∈ c.calls, first.lock = call.lock ∧ (c.line call.lock).head? = some first.id ∧
      (first.phase ≠ .queued ∨ first.id ∈ c.granted) := by
  have hmem : call.id ∈ c.line call.lock := mem_line.mpr ⟨call, hcall, rfl, rfl⟩
  obtain ⟨id, hhead⟩ := Option.isSome_iff_exists.mp
    (List.isSome_head?.mpr (List.ne_nil_of_mem hmem))
  obtain ⟨first, hfirst, hlock, rfl⟩ := mem_line.mp (List.mem_of_mem_head? hhead)
  refine ⟨first, hfirst, hlock, hhead, ?_⟩
  by_cases hqueued : first.phase = .queued
  · exact Or.inr ((h.granted _).mpr ⟨first, hfirst, rfl, hqueued, hlock ▸ hhead⟩)
  · exact Or.inl hqueued

/-! ## A call comes -/

def lineUp (c : Cache) (text : String) (lock : LockId) : Cache :=
  { c with
    calls := c.calls ++ [{ id := c.nextCall, text, lock }]
    locks := c.locks.map fun l => if l.id == lock then l.join c.nextCall else l
    granted :=
      if (c.lock? lock).all (·.holder.isNone) then c.granted ++ [c.nextCall] else c.granted
    nextCall := c.nextCall + 1 }

theorem enqueue_eq_lineUp (c : Cache) (text : String) :
    (c.enqueue text).1 = (c.lockFor text).1.lineUp text (c.lockFor text).2 := rfl

theorem line_lineUp (c : Cache) (text : String) (lock other : LockId) :
    (c.lineUp text lock).line other =
      if lock = other then c.line other ++ [c.nextCall] else c.line other := by
  simp only [line, lineUp, List.filter_append, List.map_append]
  by_cases heq : lock = other
  · rw [if_pos heq, List.filter_cons_of_pos (by simpa using heq)]
    rfl
  · rw [if_neg heq, List.filter_cons_of_neg (by simpa using heq)]
    exact List.append_nil _

/-- Whoever is in a line already keeps its place when another call joins. -/
theorem head?_line_lineUp {c : Cache} {call : Call} (hcall : call ∈ c.calls) (text : String)
    (lock : LockId) : ((c.lineUp text lock).line call.lock).head? = (c.line call.lock).head? := by
  rw [line_lineUp]
  split
  · have hne : c.line call.lock ≠ [] :=
      List.ne_nil_of_mem (mem_line.mpr ⟨call, hcall, rfl, rfl⟩)
    rw [List.head?_append_of_ne_nil _ hne]
  · rfl

theorem Filed.locks_lineUp {c : Cache} (h : Filed c) (text : String) (lock : LockId) :
    (c.lineUp text lock).locks =
      c.keys.map fun key => Lock.ofLine key.2 ((c.lineUp text lock).line key.2) := by
  show c.locks.map _ = _
  rw [h.locks, List.map_map]
  apply List.map_congr_left
  intro key _
  simp only [Function.comp_apply, line_lineUp, beq_iff_eq]
  by_cases heq : key.2 = lock
  · rw [if_pos (show (Lock.ofLine key.2 _).id = lock from heq), if_pos heq.symm, Lock.join_ofLine]
  · rw [if_neg (show ¬ (Lock.ofLine key.2 _).id = lock from heq), if_neg (fun h => heq h.symm)]

theorem Filed.isFree_iff {c : Cache} (h : Filed c) {text : String} {lock : LockId}
    (hkey : (text, lock) ∈ c.keys) :
    (c.lock? lock).all (·.holder.isNone) = true ↔ c.line lock = [] := by
  rw [h.lock?_eq hkey, Option.all_some, Lock.ofLine, Option.isNone_iff_eq_none,
    List.head?_eq_none_iff]

theorem mem_calls_lineUp {c : Cache} {text : String} {lock : LockId} {call : Call} :
    call ∈ (c.lineUp text lock).calls ↔
      call ∈ c.calls ∨ call = { id := c.nextCall, text, lock } := by
  show call ∈ c.calls ++ [_] ↔ _
  rw [List.mem_append, List.mem_singleton]

theorem Filed.id_ne_nextCall {c : Cache} (h : Filed c) {call : Call} (hcall : call ∈ c.calls) :
    call.id ≠ c.nextCall := Nat.ne_of_lt (h.idBound call hcall)

/-- The new call is the first in its line exactly if the line was empty. -/
theorem Filed.head?_line_lineUp_new {c : Cache} (h : Filed c) (text : String) (lock : LockId) :
    ((c.lineUp text lock).line lock).head? = some c.nextCall ↔ c.line lock = [] := by
  rw [line_lineUp, if_pos rfl]
  cases hline : c.line lock with
  | nil => exact ⟨fun _ => rfl, fun _ => rfl⟩
  | cons first rest =>
      refine ⟨fun heq => ?_, fun heq => by cases heq⟩
      obtain ⟨call, hcall, -, hid⟩ := mem_line.mp (hline ▸ List.mem_cons_self (a := first))
      exact absurd (hid.trans (Option.some.inj heq)) (h.id_ne_nextCall hcall)

/-- The lock is granted at once to a call that finds it free. -/
theorem Filed.granted_lineUp {c : Cache} (h : Filed c) {text : String} {lock : LockId}
    (hkey : (text, lock) ∈ c.keys) :
    (c.lineUp text lock).granted =
      if c.line lock = [] then c.granted ++ [c.nextCall] else c.granted := by
  show (if _ then c.granted ++ [c.nextCall] else c.granted) = _
  by_cases hfree : c.line lock = []
  · rw [if_pos ((h.isFree_iff hkey).mpr hfree), if_pos hfree]
  · rw [if_neg (fun hall => hfree ((h.isFree_iff hkey).mp hall)), if_neg hfree]

theorem Filed.mem_granted_lineUp {c : Cache} (h : Filed c) {text : String} {lock : LockId}
    (hkey : (text, lock) ∈ c.keys) (id : CallId) :
    id ∈ (c.lineUp text lock).granted ↔ ∃ call ∈ (c.lineUp text lock).calls, call.id = id ∧
      call.phase = .queued ∧ ((c.lineUp text lock).line call.lock).head? = some id := by
  have hgranted : id ∈ (c.lineUp text lock).granted ↔
      id ∈ c.granted ∨ (id = c.nextCall ∧ c.line lock = []) := by
    rw [h.granted_lineUp hkey]
    by_cases hfree : c.line lock = []
    · simp [hfree]
    · simp [hfree]
  rw [hgranted, h.granted]
  constructor
  · rintro (⟨call, hcall, rfl, hphase, hhead⟩ | ⟨rfl, hfree⟩)
    · refine ⟨call, mem_calls_lineUp.mpr (Or.inl hcall), rfl, hphase, ?_⟩
      rw [head?_line_lineUp hcall]
      exact hhead
    · exact ⟨_, mem_calls_lineUp.mpr (Or.inr rfl), rfl, rfl,
        (h.head?_line_lineUp_new text lock).mpr hfree⟩
  · rintro ⟨call, hcall, rfl, hphase, hhead⟩
    rcases mem_calls_lineUp.mp hcall with hold | rfl
    · rw [head?_line_lineUp hold] at hhead
      exact Or.inl ⟨call, hold, rfl, hphase, hhead⟩
    · exact Or.inr ⟨rfl, (h.head?_line_lineUp_new text lock).mp hhead⟩

theorem Filed.lineUp {c : Cache} (h : Filed c) {text : String} {lock : LockId}
    (hkey : (text, lock) ∈ c.keys) : Filed (c.lineUp text lock) := by
  refine ⟨?_, ?_, h.texts, h.lockIds, h.lockBound, ?_, h.locks_lineUp text lock, ?_,
    h.mem_granted_lineUp hkey, ?_⟩
  · refine nodup_map_append_singleton Call.id h.ids fun hmem => ?_
    obtain ⟨call, hcall, hid⟩ := List.mem_map.mp hmem
    exact h.id_ne_nextCall hcall hid
  · intro call hcall
    show call.id < c.nextCall + 1
    rcases mem_calls_lineUp.mp hcall with hold | rfl
    · exact Nat.lt_succ_of_lt (h.idBound call hold)
    · exact Nat.lt_succ_self _
  · intro call hcall
    rcases mem_calls_lineUp.mp hcall with hold | rfl
    · exact h.filed call hold
    · exact hkey
  · intro call hcall hphase
    rcases mem_calls_lineUp.mp hcall with hold | rfl
    · rw [head?_line_lineUp hold]
      exact h.phases call hold hphase
    · exact absurd rfl hphase
  · rw [h.granted_lineUp hkey]
    split
    · rw [← List.concat_eq_append]
      refine h.grantedOnce.concat fun hmem => ?_
      obtain ⟨call, hcall, hid, -⟩ := (h.granted _).mp hmem
      exact h.id_ne_nextCall hcall hid
    · exact h.grantedOnce

theorem line_lineUp_ne_nil {c : Cache} {lock other : LockId} (text : String)
    (hused : other ≠ lock → c.line other ≠ []) : (c.lineUp text lock).line other ≠ [] := by
  rw [line_lineUp]
  split
  · exact List.append_ne_nil_of_right_ne_nil _ (List.cons_ne_nil _ _)
  · rename_i hne
    exact hused fun heq => hne heq.symm

theorem key?_eq_some {c : Cache} {text : String} {lock : LockId} (h : c.key? text = some lock) :
    (text, lock) ∈ c.keys := by
  obtain ⟨before, after, heq, -⟩ := List.lookup_eq_some_iff.mp h
  rw [heq]
  exact List.mem_append_right _ List.mem_cons_self

theorem Filed.key?_eq {c : Cache} (h : Filed c) {text : String} {lock : LockId}
    (hkey : (text, lock) ∈ c.keys) : c.key? text = some lock := by
  cases hfound : c.key? text with
  | none =>
      have hnone := List.lookup_eq_none_iff.mp hfound _ hkey
      simp at hnone
  | some other =>
      exact congrArg (fun key => some key.2)
        (List.inj_on_of_nodup_map h.texts (key?_eq_some hfound) hkey rfl)

theorem key?_eq_none {c : Cache} {text : String} (h : c.key? text = none) :
    text ∉ c.keys.map Prod.fst := by
  intro hmem
  obtain ⟨key, hkey, rfl⟩ := List.mem_map.mp hmem
  have := List.lookup_eq_none_iff.mp h key hkey
  simp at this

/-- The cache with a new lock for a text, which nobody is in line for yet. -/
theorem Filed.lockFor_new {c : Cache} (h : Filed c) {text : String}
    (hnew : text ∉ c.keys.map Prod.fst) :
    Filed { c with
      keys := c.keys ++ [(text, c.nextLock)]
      locks := c.locks ++ [{ id := c.nextLock }]
      nextLock := c.nextLock + 1 } := by
  have hline : c.line c.nextLock = [] := by
    rw [List.eq_nil_iff_forall_not_mem]
    intro id hid
    obtain ⟨call, hcall, hlock, -⟩ := mem_line.mp hid
    exact absurd hlock (Nat.ne_of_lt (h.lockBound _ (h.filed call hcall)))
  refine ⟨h.ids, h.idBound, ?_, ?_, ?_, ?_, ?_, h.phases, h.granted, h.grantedOnce⟩
  · exact nodup_map_append_singleton Prod.fst h.texts hnew
  · refine nodup_map_append_singleton Prod.snd h.lockIds fun hmem => ?_
    obtain ⟨key, hkey, hid⟩ := List.mem_map.mp hmem
    exact absurd hid (Nat.ne_of_lt (h.lockBound key hkey))
  · intro key hkey
    show key.2 < c.nextLock + 1
    rcases List.mem_append.mp hkey with hold | hlast
    · exact Nat.lt_succ_of_lt (h.lockBound key hold)
    · rw [List.mem_singleton.mp hlast]
      exact Nat.lt_succ_self _
  · intro call hcall
    exact List.mem_append_left _ (h.filed call hcall)
  · show c.locks ++ [_] =
      (c.keys ++ [_]).map fun key : String × LockId => Lock.ofLine key.2 (c.line key.2)
    rw [List.map_append, ← h.locks, List.map_singleton, hline]
    rfl

theorem Filed.enqueue {c : Cache} (h : Filed c) (text : String) : Filed (c.enqueue text).1 := by
  rw [enqueue_eq_lineUp]
  unfold lockFor
  cases hkey : c.key? text with
  | some lock => exact h.lineUp (key?_eq_some hkey)
  | none =>
      exact (h.lockFor_new (key?_eq_none hkey)).lineUp
        (List.mem_append_right _ (List.mem_singleton_self _))

/-- The key of a call that has come has it in line, and any other has whom it had before. -/
theorem line_enqueue_ne_nil {c : Cache} {text : String} {key : String × LockId}
    (hkey : key ∈ (c.enqueue text).1.keys) (hused : key ∈ c.keys → c.line key.2 ≠ []) :
    (c.enqueue text).1.line key.2 ≠ [] := by
  rw [enqueue_eq_lineUp] at hkey ⊢
  refine line_lineUp_ne_nil text fun hne => ?_
  change key ∈ (c.lockFor text).1.keys at hkey
  unfold lockFor at hkey hne ⊢
  cases hfound : c.key? text with
  | some lock =>
      simp only [hfound] at hkey ⊢
      exact hused hkey
  | none =>
      simp only [hfound] at hkey hne ⊢
      rcases List.mem_append.mp hkey with hold | hlast
      · exact hused hold
      · exact absurd (congrArg Prod.snd (List.mem_singleton.mp hlast)) hne

theorem Orderly.enqueue {c : Cache} (h : Orderly c) (text : String) :
    Orderly (c.enqueue text).1 :=
  ⟨h.toFiled.enqueue text, fun key hkey => line_enqueue_ne_nil hkey (h.used key)⟩

/-! ## A call goes on -/

/-- One call is in its new phase, and the others are as they were. -/
theorem Filed.mem_setPhase {c : Cache} (h : Filed c) {call : Call} (hcall : call ∈ c.calls)
    {phase : Phase} {new : Call} :
    new ∈ (c.setPhase call.id phase).calls ↔
      new = { call with phase } ∨ new ∈ c.calls ∧ new.id ≠ call.id := by
  simp only [Cache.setPhase, List.mem_map, beq_iff_eq]
  constructor
  · rintro ⟨old, hold, rfl⟩
    by_cases heq : old.id = call.id
    · rw [if_pos heq, h.eq_of_id_eq hold hcall heq]
      exact Or.inl rfl
    · rw [if_neg heq]
      exact Or.inr ⟨hold, heq⟩
  · rintro (rfl | ⟨hold, hne⟩)
    · exact ⟨call, hcall, if_pos rfl⟩
    · exact ⟨new, hold, if_neg hne⟩

theorem ids_setPhase (c : Cache) (id : CallId) (phase : Phase) :
    (c.setPhase id phase).calls.map Call.id = c.calls.map Call.id := by
  simp only [setPhase, List.map_map]
  apply List.map_congr_left
  intro old _
  simp only [Function.comp_apply]
  split <;> rfl

theorem line_setPhase (c : Cache) (id : CallId) (phase : Phase) (lock : LockId) :
    (c.setPhase id phase).line lock = c.line lock := by
  simp only [line, setPhase, List.filter_map, List.map_map]
  congr 1
  · funext call
    simp only [Function.comp_apply]
    split <;> rfl
  · congr 1
    funext call
    simp only [Function.comp_apply]
    split <;> rfl

theorem Filed.setPhase {c : Cache} (h : Filed c) {call : Call} (hcall : call ∈ c.calls)
    (hhead : (c.line call.lock).head? = some call.id) {phase : Phase} (hphase : phase ≠ .queued) :
    Filed (({ c with granted := c.granted.erase call.id } : Cache).setPhase call.id phase) := by
  set c' : Cache := ({ c with granted := c.granted.erase call.id } : Cache).setPhase call.id phase
  have hline : ∀ lock, c'.line lock = c.line lock := fun lock => line_setPhase _ _ _ lock
  have hmem : ∀ new, new ∈ c'.calls ↔
      new = { call with phase } ∨ new ∈ c.calls ∧ new.id ≠ call.id :=
    fun new => h.mem_setPhase hcall
  refine ⟨?_, ?_, h.texts, h.lockIds, h.lockBound, ?_, ?_, ?_, ?_, h.grantedOnce.erase _⟩
  · have hids : c'.calls.map Call.id = c.calls.map Call.id := ids_setPhase _ _ _
    rw [hids]
    exact h.ids
  · intro new hnew
    rcases (hmem new).mp hnew with rfl | ⟨hold, -⟩
    · exact h.idBound call hcall
    · exact h.idBound new hold
  · intro new hnew
    rcases (hmem new).mp hnew with rfl | ⟨hold, -⟩
    · exact h.filed call hcall
    · exact h.filed new hold
  · simp only [hline]
    exact h.locks
  · intro new hnew hnewPhase
    rw [hline]
    rcases (hmem new).mp hnew with rfl | ⟨hold, -⟩
    · exact hhead
    · exact h.phases new hold hnewPhase
  · intro id
    show id ∈ c.granted.erase call.id ↔ _
    rw [h.grantedOnce.mem_erase_iff, h.granted]
    simp only [hline]
    constructor
    · rintro ⟨hne, old, hold, rfl, hqueued, hfirst⟩
      exact ⟨old, (hmem old).mpr (Or.inr ⟨hold, hne⟩), rfl, hqueued, hfirst⟩
    · rintro ⟨new, hnew, rfl, hqueued, hfirst⟩
      rcases (hmem new).mp hnew with rfl | ⟨hold, hne⟩
      · exact absurd hqueued hphase
      · exact ⟨hne, new, hold, rfl, hqueued, hfirst⟩

theorem Orderly.setPhase {c : Cache} (h : Orderly c) {call : Call} (hcall : call ∈ c.calls)
    (hhead : (c.line call.lock).head? = some call.id) {phase : Phase} (hphase : phase ≠ .queued) :
    Orderly (({ c with granted := c.granted.erase call.id } : Cache).setPhase call.id phase) :=
  ⟨h.toFiled.setPhase hcall hhead hphase, fun key hkey => by
    rw [line_setPhase]
    exact h.used key hkey⟩

/-! ## A call ends -/

section Finish

variable {c : Cache} {call : Call}

theorem Filed.calls_finish (h : Filed c) (hcall : call ∈ c.calls) :
    (c.finish call.id).calls = c.calls.filter fun other => other.id != call.id := by
  rw [finish, h.call? hcall]

theorem Filed.mem_calls_finish (h : Filed c) (hcall : call ∈ c.calls) {other : Call} :
    other ∈ (c.finish call.id).calls ↔ other ∈ c.calls ∧ other.id ≠ call.id := by
  rw [h.calls_finish hcall, List.mem_filter, bne_iff_ne]

theorem Filed.line_finish (h : Filed c) (hcall : call ∈ c.calls) (lock : LockId) :
    (c.finish call.id).line lock = (c.line lock).erase call.id := by
  rw [(line_nodup h.ids lock).erase_eq_filter, line, line, h.calls_finish hcall, List.filter_map,
    List.filter_filter, List.filter_filter]
  congr 2
  funext other
  exact Bool.and_comm _ _

theorem Filed.line_finish_of_ne (h : Filed c) (hcall : call ∈ c.calls) {lock : LockId}
    (hne : lock ≠ call.lock) : (c.finish call.id).line lock = c.line lock := by
  rw [h.line_finish hcall, List.erase_of_not_mem]
  intro hmem
  obtain ⟨other, hother, hlock, hid⟩ := mem_line.mp hmem
  rw [h.eq_of_id_eq hother hcall hid] at hlock
  exact hne hlock.symm

/-- A lock is held by one of the calls that are left exactly if its line is not empty. -/
theorem Filed.held_eq (h : Filed c) (hcall : call ∈ c.calls) (lock : LockId) :
    ((c.calls.filter fun other => other.id != call.id).any fun other => other.lock == lock) =
      decide ((c.finish call.id).line lock ≠ []) := by
  rw [Bool.eq_iff_iff, List.any_eq_true, decide_eq_true_iff, ← h.calls_finish hcall]
  constructor
  · rintro ⟨other, hother, hlock⟩
    exact List.ne_nil_of_mem (mem_line.mpr ⟨other, hother, by simpa using hlock, rfl⟩)
  · intro hne
    obtain ⟨id, hid⟩ := List.exists_mem_of_ne_nil _ hne
    obtain ⟨other, hother, hlock, -⟩ := mem_line.mp hid
    exact ⟨other, hother, by simpa using hlock⟩

theorem Orderly.keys_finish (h : Orderly c) (hcall : call ∈ c.calls) :
    (c.finish call.id).keys =
      c.keys.filter fun key => decide ((c.finish call.id).line key.2 ≠ []) := by
  have hkeys : (c.finish call.id).keys = c.keys.filter fun key => key.1 != call.text ||
      (c.calls.filter fun other => other.id != call.id).any fun other => other.lock == key.2 := by
    rw [finish, h.call? hcall]
  rw [hkeys]
  apply List.filter_congr
  intro key hkey
  rw [h.held_eq hcall]
  by_cases htext : key.1 = call.text
  · rw [bne_eq_false_iff_eq.mpr htext, Bool.false_or]
  · have hlock : key.2 ≠ call.lock := fun heq => htext (h.text_eq_of_lock_eq hcall hkey heq)
    rw [bne_iff_ne.mpr htext, Bool.true_or, h.line_finish_of_ne hcall hlock]
    exact (decide_eq_true (h.used key hkey)).symm

/-- Whoever leaves is in no line any more: in the others it was not to begin with. -/
theorem Filed.locks_leave (h : Filed c) (hcall : call ∈ c.calls) :
    (c.locks.map fun l => l.leave call.id) =
      c.keys.map fun key => Lock.ofLine key.2 ((c.finish call.id).line key.2) := by
  rw [h.locks, List.map_map]
  refine List.map_congr_left fun key _ => ?_
  rw [Function.comp_apply, Lock.leave_ofLine, h.line_finish hcall]

theorem Filed.leave_of_ne (h : Filed c) (hcall : call ∈ c.calls) {l : Lock} (hl : l ∈ c.locks)
    (hne : l.id ≠ call.lock) : l.leave call.id = l := by
  rw [h.locks] at hl
  obtain ⟨key, -, rfl⟩ := List.mem_map.mp hl
  have hother : key.2 ≠ call.lock := hne
  rw [Lock.leave_ofLine, ← h.line_finish hcall, h.line_finish_of_ne hcall hother]

theorem Orderly.locks_finish (h : Orderly c) (hcall : call ∈ c.calls) :
    (c.finish call.id).locks =
      (c.finish call.id).keys.map fun key => Lock.ofLine key.2 ((c.finish call.id).line key.2) := by
  have hlocks : (c.finish call.id).locks =
      (c.locks.map fun l => if l.id == call.lock then l.leave call.id else l).filter fun l =>
        (c.calls.filter fun other => other.id != call.id).any fun other => other.lock == l.id := by
    rw [finish, h.call? hcall]
  have hleft : (c.locks.map fun l => if l.id == call.lock then l.leave call.id else l) =
      c.locks.map fun l => l.leave call.id := by
    refine List.map_congr_left fun l hl => ?_
    by_cases heq : l.id = call.lock
    · rw [if_pos (beq_iff_eq.mpr heq)]
    · rw [if_neg (by simpa using heq), h.leave_of_ne hcall hl heq]
  rw [hlocks, hleft, h.locks_leave hcall, List.filter_map, h.keys_finish hcall]
  congr 2
  funext key
  exact h.held_eq hcall key.2

/-- The lock goes to the next in line if the first one leaves. -/
theorem Filed.granted_finish (h : Filed c) (hcall : call ∈ c.calls) :
    (c.finish call.id).granted = c.granted.erase call.id ++
      (if (c.line call.lock).head? = some call.id then (c.line call.lock).tail.head?
        else none).toList := by
  rw [finish, h.call? hcall]
  simp only [h.lock?_eq (h.filed call hcall)]
  rfl

/-- Whoever is first in a line that another call leaves was first before. -/
theorem Filed.head?_line_finish (h : Filed c) (hcall : call ∈ c.calls) {lock : LockId}
    {id : CallId} (hne : id ≠ call.id) (hhead : (c.line lock).head? = some id) :
    ((c.finish call.id).line lock).head? = some id := by
  rw [h.line_finish hcall]
  obtain ⟨rest, hline⟩ := List.head?_eq_some_iff.mp hhead
  rw [hline, List.erase_cons_tail (by simpa using hne)]
  rfl

/-- The first in a line that a call has left was the first before, or the second behind the call
that left. -/
theorem Filed.head?_line_before_finish (h : Filed c) (hcall : call ∈ c.calls) {lock : LockId}
    {id : CallId} (hhead : ((c.finish call.id).line lock).head? = some id) :
    (c.line lock).head? = some id ∧ id ≠ call.id ∨
      lock = call.lock ∧ ∃ rest, c.line lock = call.id :: id :: rest := by
  have hne : id ≠ call.id := by
    rintro rfl
    obtain ⟨other, hother, -, hid⟩ := mem_line.mp (List.mem_of_mem_head? hhead)
    exact ((h.mem_calls_finish hcall).mp hother).2 hid
  rw [h.line_finish hcall] at hhead
  cases hline : c.line lock with
  | nil =>
      rw [hline] at hhead
      cases hhead
  | cons first rest =>
      rw [hline] at hhead
      by_cases hfirst : first = call.id
      · subst hfirst
        rw [List.erase_cons_head] at hhead
        obtain ⟨rest', rfl⟩ := List.head?_eq_some_iff.mp hhead
        refine Or.inr ⟨?_, rest', rfl⟩
        obtain ⟨other, hother, hlock, hid⟩ := mem_line.mp (hline ▸ List.mem_cons_self)
        rw [← hlock, h.eq_of_id_eq hother hcall hid]
      · rw [List.erase_cons_tail (by simpa using hfirst)] at hhead
        exact Or.inl ⟨hhead, hne⟩

theorem Filed.queued_of_behind (h : Filed c) {other : Call} (hother : other ∈ c.calls)
    {first : CallId} {rest : List CallId} (hline : c.line other.lock = first :: rest)
    (hne : other.id ≠ first) : other.phase = .queued := by
  by_contra hphase
  have hhead := h.phases other hother hphase
  rw [hline] at hhead
  exact hne (Option.some.inj hhead).symm

theorem Filed.mem_granted_finish (h : Filed c) (hcall : call ∈ c.calls) (id : CallId) :
    id ∈ (c.finish call.id).granted ↔ ∃ other ∈ (c.finish call.id).calls, other.id = id ∧
      other.phase = .queued ∧ ((c.finish call.id).line other.lock).head? = some id := by
  rw [h.granted_finish hcall, List.mem_append, h.grantedOnce.mem_erase_iff, h.granted,
    Option.mem_toList]
  constructor
  · rintro (⟨hne, other, hother, rfl, hqueued, hhead⟩ | hnext)
    · exact ⟨other, (h.mem_calls_finish hcall).mpr ⟨hother, hne⟩, rfl, hqueued,
        h.head?_line_finish hcall hne hhead⟩
    · split at hnext
      · rename_i hfirst
        obtain ⟨rest, hline⟩ := List.head?_eq_some_iff.mp hfirst
        rw [hline, List.tail_cons] at hnext
        obtain ⟨rest', rfl⟩ := List.head?_eq_some_iff.mp hnext
        have hnodup := line_nodup h.ids call.lock
        rw [hline, List.nodup_cons] at hnodup
        have hne : id ≠ call.id := fun heq => hnodup.1 (heq ▸ List.mem_cons_self)
        obtain ⟨other, hother, hlock, rfl⟩ :=
          mem_line.mp (hline ▸ List.mem_cons_of_mem _ List.mem_cons_self : id ∈ c.line call.lock)
        refine ⟨other, (h.mem_calls_finish hcall).mpr ⟨hother, hne⟩, rfl,
          h.queued_of_behind hother (hlock ▸ hline) hne, ?_⟩
        rw [h.line_finish hcall, hlock, hline, List.erase_cons_head]
        rfl
      · cases hnext
  · rintro ⟨other, hother, rfl, hqueued, hhead⟩
    rcases h.head?_line_before_finish hcall hhead with ⟨hfirst, hne⟩ | ⟨hlock, rest, hline⟩
    · exact Or.inl ⟨hne, other, ((h.mem_calls_finish hcall).mp hother).1, rfl, hqueued, hfirst⟩
    · right
      rw [← hlock, hline]
      simp

/-- The next in line was not granted the lock before: the call that leaves held it. -/
theorem Filed.granted_finish_nodup (h : Filed c) (hcall : call ∈ c.calls) :
    (c.finish call.id).granted.Nodup := by
  rw [h.granted_finish hcall]
  have honce : ∀ next : Option CallId, next.toList.Nodup := by
    intro next
    cases next with
    | none => exact List.nodup_nil
    | some id => exact List.nodup_singleton id
  refine List.nodup_append.mpr ⟨h.grantedOnce.erase _, honce _, ?_⟩
  rintro id hid next hnext rfl
  rw [h.grantedOnce.mem_erase_iff, h.granted] at hid
  obtain ⟨hne, other, hother, rfl, -, hhead⟩ := hid
  rw [Option.mem_toList] at hnext
  split at hnext
  · rename_i hfirst
    have hlock : other.lock = call.lock := by
      obtain ⟨same, hsame, hlock, hid⟩ :=
        mem_line.mp (List.mem_of_mem_tail (List.mem_of_mem_head? hnext))
      rw [← h.eq_of_id_eq hsame hother hid, hlock]
    rw [hlock, hfirst] at hhead
    exact hne (Option.some.inj hhead).symm
  · cases hnext

theorem Filed.leave (h : Filed c) (hcall : call ∈ c.calls) :
    Filed { c.finish call.id with
      keys := c.keys, locks := c.locks.map fun l => l.leave call.id } := by
  have hcalls : (c.finish call.id).calls.Sublist c.calls := by
    rw [h.calls_finish hcall]
    exact List.filter_sublist
  have hnextCall : (c.finish call.id).nextCall = c.nextCall := by
    rw [Cache.finish, h.call? hcall]
  have hnextLock : (c.finish call.id).nextLock = c.nextLock := by
    rw [Cache.finish, h.call? hcall]
  refine ⟨h.ids.sublist (hcalls.map _), ?_, h.texts, h.lockIds, ?_, ?_, h.locks_leave hcall, ?_,
    h.mem_granted_finish hcall, h.granted_finish_nodup hcall⟩
  · intro other hother
    show other.id < (c.finish call.id).nextCall
    rw [hnextCall]
    exact h.idBound other (hcalls.subset hother)
  · intro key hkey
    show key.2 < (c.finish call.id).nextLock
    rw [hnextLock]
    exact h.lockBound key hkey
  · exact fun other hother => h.filed other (hcalls.subset hother)
  · intro other hother hphase
    obtain ⟨hold, hne⟩ := (h.mem_calls_finish hcall).mp hother
    exact h.head?_line_finish hcall hne (h.phases other hold hphase)

theorem Filed.restrict (h : Filed c) (keep : String × LockId → Bool)
    (hkeep : ∀ key ∈ c.keys, c.line key.2 ≠ [] → keep key = true) :
    Filed { c with
      keys := c.keys.filter keep
      locks := (c.keys.filter keep).map fun key => Lock.ofLine key.2 (c.line key.2) } := by
  have hkeys : (c.keys.filter keep).Sublist c.keys := List.filter_sublist
  refine ⟨h.ids, h.idBound, h.texts.sublist (hkeys.map _), h.lockIds.sublist (hkeys.map _),
    fun key hkey => h.lockBound key (hkeys.subset hkey), ?_, rfl, h.phases, h.granted,
    h.grantedOnce⟩
  intro other hother
  exact List.mem_filter.mpr ⟨h.filed other hother, hkeep _ (h.filed other hother)
    (List.ne_nil_of_mem (mem_line.mpr ⟨other, hother, rfl, rfl⟩))⟩

/-- A call that ends leaves its line, and the key of a text goes with the last call for it. -/
theorem Orderly.finish (h : Orderly c) (hcall : call ∈ c.calls) : Orderly (c.finish call.id) := by
  refine ⟨?_, ?_⟩
  · refine ((h.leave hcall).restrict
      (fun key => decide ((c.finish call.id).line key.2 ≠ [])) ?_).congr
      ⟨rfl, h.keys_finish hcall, ?_, rfl, rfl, rfl⟩
    · exact fun key _ hne => decide_eq_true hne
    · rw [h.locks_finish hcall, h.keys_finish hcall]
      rfl
  · intro key hkey
    rw [h.keys_finish hcall, List.mem_filter, decide_eq_true_iff] at hkey
    exact hkey.2

end Finish

end Cache

end NearNotes
