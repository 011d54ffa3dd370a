import Mathlib
import NearNotes.Proofs.Flight.Callers

/-!
# The list of keys

The list of keys has a text exactly as long as a call for it is unanswered, and all calls for the
text share the lock that stands there.

`Cache.finish` ends a call in one go. A caller that shares the list with others leaves in three
steps: it hands its lock on, it lets go of its reference to the lock, and only then it looks at the
list of keys, where it takes its text off if nothing but the list refers to the lock. Others may
come and go between any two of these. `Doorway` is the machine of those steps.

* `Doorway.references` : how often a lock is referred to; `swept` : the look at the list of keys;
* `Kept`, `Kept.run` : whoever refers to a lock finds it in the list, and a text in the list has a
  caller that refers to its lock or one that is about to look;
* `exists_steps_eq_run` : calls that end in one go are calls whose three steps nobody interrupts;
* `keys_exact` : the list of keys at every moment, in the one machine and in the other.
-/

namespace NearNotes

/-- The text of a call with the lock it refers to. -/
def Call.key (call : Call) : String × LockId := (call.text, call.lock)

namespace Cache

/-- Whoever is in line for the lock of a key is a call for that key. -/
theorem Filed.exists_call_of_mem_line {c : Cache} (h : Filed c) {key : String × LockId}
    (hkey : key ∈ c.keys) {id : CallId} (hid : id ∈ c.line key.2) :
    ∃ call ∈ c.calls, call.key = key := by
  obtain ⟨call, hcall, hlock, -⟩ := mem_line.mp hid
  exact ⟨call, hcall, Prod.ext (h.text_eq_of_lock_eq hcall hkey hlock.symm).symm hlock⟩

theorem Orderly.isSome_key?_iff {c : Cache} (h : Orderly c) (text : String) :
    (c.key? text).isSome ↔ ∃ call ∈ c.calls, call.text = text := by
  constructor
  · intro hsome
    obtain ⟨lock, hkey⟩ := Option.isSome_iff_exists.mp hsome
    have hmem := key?_eq_some hkey
    obtain ⟨id, hid⟩ := List.exists_mem_of_ne_nil _ (h.used _ hmem)
    obtain ⟨call, hcall, hcallKey⟩ := h.exists_call_of_mem_line hmem hid
    exact ⟨call, hcall, congrArg Prod.fst hcallKey⟩
  · rintro ⟨call, hcall, rfl⟩
    rw [h.key?_eq (h.filed call hcall)]
    rfl

/-- As many texts are in progress as there are texts with a call. -/
theorem Orderly.textsInProgress_eq {c : Cache} (h : Orderly c) :
    c.textsInProgress = (c.calls.map Call.text).dedup.length := by
  have hperm : (c.keys.map Prod.fst).Perm (c.calls.map Call.text).dedup := by
    refine (List.perm_ext_iff_of_nodup h.texts (List.nodup_dedup _)).mpr fun text => ?_
    rw [List.mem_dedup, List.mem_map, List.mem_map]
    constructor
    · rintro ⟨key, hkey, rfl⟩
      exact (h.isSome_key?_iff _).mp (by rw [h.key?_eq hkey]; rfl)
    · rintro ⟨call, hcall, rfl⟩
      exact ⟨_, h.filed call hcall, rfl⟩
  rw [textsInProgress, ← hperm.length_eq, List.length_map]

theorem Filed.refers {c : Cache} (h : Filed c) {call : Call} (hcall : call ∈ c.calls) :
    c.key? call.text = some call.lock ∧ ∃ l, c.lock? call.lock = some l ∧
      call.id ∈ l.holder.toList ++ l.waiters := by
  have hkey := h.filed call hcall
  refine ⟨h.key?_eq hkey, _, h.lock?_eq hkey, ?_⟩
  have hmem : call.id ∈ c.line call.lock := mem_line.mpr ⟨call, hcall, rfl, rfl⟩
  cases hline : c.line call.lock with
  | nil =>
      rw [hline] at hmem
      cases hmem
  | cons first rest =>
      rw [hline] at hmem
      exact hmem

/-- The cache when the call that an event ends has handed its lock on and still refers to it. -/
def handOn (c : Cache) (event : Event) (id : CallId) : Cache :=
  { c.apply event with keys := c.keys, locks := c.locks.map fun l => l.leave id }

end Cache

open Cache

structure Doorway where
  cache : Cache
  /-- Callers that have handed their lock on and still refer to it. -/
  parting : List (String × LockId) := []
  /-- Callers that refer to no lock any more and have not looked at the list of keys. -/
  outside : List String := []

namespace Doorway

inductive Step
  /-- An event; a call that it ends is on its way out. -/
  | event (event : Event)
  /-- A caller that found no row some time ago gets in line. -/
  | join (text : String)
  /-- A caller on its way out lets go of its lock. -/
  | letGo (key : String × LockId)
  /-- A caller that has let go looks at the list of keys. -/
  | sweep (text : String)

/-- Whoever refers to a lock. -/
def holders (d : Doorway) : List (String × LockId) := d.cache.calls.map Call.key ++ d.parting

def references (d : Doorway) (lock : LockId) : Nat :=
  (d.holders.map Prod.snd).count lock + (d.cache.keys.map Prod.snd).count lock

/-- The cache after a look at the list of keys: a text is taken off if nothing but the list refers
to its lock. -/
def swept (d : Doorway) (text : String) : Cache :=
  match d.cache.key? text with
  | some lock =>
    if d.references lock = 1 then
      { d.cache with
        keys := d.cache.keys.filter fun key => key.1 != text
        locks := d.cache.locks.filter fun l => l.id != lock }
    else d.cache
  | none => d.cache

def apply (d : Doorway) : Step → Doorway
  | .event event =>
    match d.cache.ended? event with
    | none => { d with cache := d.cache.apply event }
    | some id =>
      { d with
        cache := d.cache.handOn event id
        parting := d.parting ++ ((d.cache.call? id).map Call.key).toList }
  | .join text => { d with cache := (d.cache.enqueue text).1 }
  | .letGo key =>
    if key ∈ d.parting then
      { d with parting := d.parting.erase key, outside := d.outside ++ [key.1] }
    else d
  | .sweep text =>
    if text ∈ d.outside then
      { d with cache := d.swept text, outside := d.outside.erase text }
    else d

def run (d : Doorway) (steps : List Step) : Doorway := steps.foldl apply d

/-- Whoever refers to a lock finds it in the list of keys. A text in the list has a caller that
refers to its lock, or else one that is about to look at the list. -/
structure Kept (d : Doorway) : Prop where
  filed : d.cache.Filed
  parting : ∀ key ∈ d.parting, key ∈ d.cache.keys
  used : ∀ key ∈ d.cache.keys, key ∈ d.holders ∨ key.1 ∈ d.outside

section

variable {d : Doorway}

theorem mem_holders {key : String × LockId} :
    key ∈ d.holders ↔ (∃ call ∈ d.cache.calls, call.key = key) ∨ key ∈ d.parting := by
  rw [holders, List.mem_append, List.mem_map]

theorem Kept.mem_keys (h : Kept d) {key : String × LockId} (hkey : key ∈ d.holders) :
    key ∈ d.cache.keys := by
  rcases mem_holders.mp hkey with ⟨call, hcall, rfl⟩ | hparting
  · exact h.filed.filed call hcall
  · exact h.parting key hparting

/-! ## Callers come and go -/

theorem Kept.enqueue (h : Kept d) (text : String) :
    Kept { d with cache := (d.cache.enqueue text).1 } := by
  have hkeys : ∀ key ∈ d.cache.keys, key ∈ (d.cache.enqueue text).1.keys := by
    intro key hkey
    show key ∈ (d.cache.lockFor text).1.keys
    unfold lockFor
    split
    · exact hkey
    · exact List.mem_append_left _ hkey
  have hcalls : ∀ call ∈ d.cache.calls, call ∈ (d.cache.enqueue text).1.calls := by
    intro call hcall
    rw [calls_enqueue]
    exact List.mem_append_left _ hcall
  have hfiled := h.filed.enqueue text
  refine ⟨hfiled, fun key hkey => hkeys key (h.parting key hkey), fun key hkey => ?_⟩
  by_cases hold : key ∈ d.cache.keys
  · rcases h.used key hold with hholds | houtside
    · left
      rcases mem_holders.mp hholds with ⟨call, hcall, hcallKey⟩ | hparting
      · exact mem_holders.mpr (Or.inl ⟨call, hcalls call hcall, hcallKey⟩)
      · exact mem_holders.mpr (Or.inr hparting)
    · exact Or.inr houtside
  · left
    -- a key that was not there before is that of the call that has come
    have hline := line_enqueue_ne_nil hkey fun h => absurd h hold
    obtain ⟨id, hid⟩ := List.exists_mem_of_ne_nil _ hline
    exact mem_holders.mpr (Or.inl (hfiled.exists_call_of_mem_line hkey hid))

/-- The calls, their locks and the list of keys are what they were. -/
theorem Kept.congr (h : Kept d) {c : Cache} (hfiled : c.Filed)
    (hcalls : c.calls.map Call.key = d.cache.calls.map Call.key) (hkeys : c.keys = d.cache.keys) :
    Kept { d with cache := c } := by
  have hholders : ({ d with cache := c } : Doorway).holders = d.holders := by
    simp only [holders, hcalls]
  refine ⟨hfiled, ?_, ?_⟩
  · show ∀ key ∈ d.parting, key ∈ c.keys
    rw [hkeys]
    exact h.parting
  · show ∀ key ∈ c.keys, _
    rw [hkeys, hholders]
    exact h.used

theorem map_key_setPhase (c : Cache) (id : CallId) (phase : Phase) :
    (c.setPhase id phase).calls.map Call.key = c.calls.map Call.key := by
  simp only [setPhase, List.map_map]
  refine List.map_congr_left fun call _ => ?_
  simp only [Function.comp_apply]
  split <;> rfl

theorem Kept.apply_of_ended_none (h : Kept d) {event : Event}
    (hended : d.cache.ended? event = none) : Kept { d with cache := d.cache.apply event } := by
  cases henabled : d.cache.enabled event with
  | false =>
      rw [(apply_of_enabled henabled).1]
      exact h
  | true =>
      cases hcaller : event.caller? with
      | some id =>
          obtain ⟨call, hcall, rfl, hstepped⟩ := h.filed.step_of_enabled hcaller henabled
          cases hstepped with
          | ends closes same =>
              rw [hended] at closes
              cases closes
          | goesOn on running first same =>
              refine h.congr ((h.filed.setPhase hcall first on).congr same) ?_ same.keys
              rw [same.calls, map_key_setPhase]
      | none =>
          rcases apply_of_caller_none (c := d.cache) hcaller with ⟨same, -⟩ | ⟨text, -, -, happly⟩
          · exact h.congr (h.filed.congr same) (by rw [same.calls]) same.keys
          · rw [happly]
            exact h.enqueue text

/-- An event that ends a call, which is on its way out then. -/
theorem Kept.handOn (h : Kept d) {event : Event} {id : CallId}
    (hended : d.cache.ended? event = some id) : Kept (d.apply (.event event)) := by
  obtain ⟨call, hcall, rfl, same⟩ := h.filed.finish_of_ended hended
  simp only [apply, hended, h.filed.call? hcall, Option.map_some, Option.toList_some]
  have hfiled : Filed (d.cache.handOn event call.id) := (h.filed.leave hcall).congr
    ⟨same.calls, rfl, rfl, same.granted, same.nextCall, same.nextLock⟩
  refine ⟨hfiled, fun key hkey => ?_, fun key hkey => ?_⟩
  · rcases List.mem_append.mp hkey with hold | hlast
    · exact h.parting key hold
    · rw [List.mem_singleton.mp hlast]
      exact h.filed.filed call hcall
  · rcases h.used key hkey with hholds | houtside
    · left
      rcases mem_holders.mp hholds with ⟨other, hother, rfl⟩ | hparting
      · by_cases heq : other.id = call.id
        · rw [h.filed.eq_of_id_eq hother hcall heq]
          exact mem_holders.mpr (Or.inr (List.mem_append_right _ (List.mem_singleton_self _)))
        · have hstays : other ∈ (d.cache.apply event).calls := by
            rw [same.calls]
            exact (h.filed.mem_calls_finish hcall).mpr ⟨hother, heq⟩
          exact mem_holders.mpr (Or.inl ⟨other, hstays, rfl⟩)
      · exact mem_holders.mpr (Or.inr (List.mem_append_left _ hparting))
    · exact Or.inr houtside

theorem Kept.letGo (h : Kept d) {key : String × LockId} (hkey : key ∈ d.parting) :
    Kept { d with parting := d.parting.erase key, outside := d.outside ++ [key.1] } := by
  refine ⟨h.filed, fun other hother => h.parting other (List.mem_of_mem_erase hother), ?_⟩
  intro other hother
  by_cases heq : other = key
  · subst heq
    exact Or.inr (List.mem_append_right _ (List.mem_singleton_self _))
  · rcases h.used other hother with hholds | houtside
    · left
      rcases mem_holders.mp hholds with hcall | hparting
      · exact mem_holders.mpr (Or.inl hcall)
      · exact mem_holders.mpr (Or.inr ((List.mem_erase_of_ne heq).mpr hparting))
    · exact Or.inr (List.mem_append_left _ houtside)

/-! ## The look at the list of keys -/

/-- Nothing but the list of keys refers to a lock exactly if no caller does. -/
theorem Kept.references_eq_one_iff (h : Kept d) {text : String} {lock : LockId}
    (hkey : (text, lock) ∈ d.cache.keys) :
    d.references lock = 1 ↔ (text, lock) ∉ d.holders := by
  have hlisted : (d.cache.keys.map Prod.snd).count lock = 1 :=
    List.count_eq_one_of_mem h.filed.lockIds (List.mem_map_of_mem hkey)
  have hheld : lock ∈ d.holders.map Prod.snd ↔ (text, lock) ∈ d.holders := by
    rw [List.mem_map]
    constructor
    · rintro ⟨key, hholds, hlock⟩
      rw [← List.inj_on_of_nodup_map h.filed.lockIds (h.mem_keys hholds) hkey hlock]
      exact hholds
    · exact fun hholds => ⟨_, hholds, rfl⟩
  rw [references, hlisted, Nat.add_eq_right, List.count_eq_zero, hheld]

theorem Kept.swept_cases (h : Kept d) (text : String) :
    (d.swept text = d.cache ∧ ∀ key ∈ d.cache.keys, key.1 = text → key ∈ d.holders) ∨
      ∃ lock, (text, lock) ∈ d.cache.keys ∧ (text, lock) ∉ d.holders ∧
        d.swept text = { d.cache with
          keys := d.cache.keys.filter fun key => key.1 != text
          locks := d.cache.locks.filter fun l => l.id != lock } := by
  unfold swept
  cases hfound : d.cache.key? text with
  | none =>
      refine Or.inl ⟨rfl, fun key hkey htext => ?_⟩
      exact absurd (List.mem_map.mpr ⟨key, hkey, htext⟩) (key?_eq_none hfound)
  | some lock =>
      have hkey := key?_eq_some hfound
      by_cases hone : d.references lock = 1
      · refine Or.inr ⟨lock, hkey, (h.references_eq_one_iff hkey).mp hone, ?_⟩
        simp only [if_pos hone]
      · refine Or.inl ⟨by simp only [if_neg hone], fun key hmem htext => ?_⟩
        rw [List.inj_on_of_nodup_map h.filed.texts hmem hkey htext]
        exact not_not.mp fun hfree => hone ((h.references_eq_one_iff hkey).mpr hfree)

theorem Kept.filed_swept (h : Kept d) (text : String) : (d.swept text).Filed := by
  rcases h.swept_cases text with ⟨hsame, -⟩ | ⟨lock, hkey, hfree, hswept⟩
  · rw [hsame]
    exact h.filed
  · rw [hswept]
    refine (h.filed.restrict (fun key => key.1 != text) ?_).congr ⟨rfl, rfl, ?_, rfl, rfl, rfl⟩
    · intro key hmem hline
      refine bne_iff_ne.mpr fun htext => hfree ?_
      obtain rfl := List.inj_on_of_nodup_map h.filed.texts hmem hkey htext
      obtain ⟨id, hid⟩ := List.exists_mem_of_ne_nil _ hline
      exact mem_holders.mpr (Or.inl (h.filed.exists_call_of_mem_line hkey hid))
    · show d.cache.locks.filter _ = _
      rw [h.filed.locks, List.filter_map]
      congr 1
      refine List.filter_congr fun key hmem => ?_
      -- the text and its lock name the same key
      have hiff : key.2 = lock ↔ key.1 = text :=
        ⟨fun heq => congrArg Prod.fst (List.inj_on_of_nodup_map h.filed.lockIds hmem hkey heq),
          fun heq => congrArg Prod.snd (List.inj_on_of_nodup_map h.filed.texts hmem hkey heq)⟩
      show (key.2 != lock) = (key.1 != text)
      rw [Bool.eq_iff_iff, bne_iff_ne, bne_iff_ne, ne_eq, ne_eq, hiff]

theorem Kept.sweep (h : Kept d) (text : String) :
    Kept { d with cache := d.swept text, outside := d.outside.erase text } := by
  have hcalls : (d.swept text).calls = d.cache.calls := by
    rcases h.swept_cases text with ⟨hsame, -⟩ | ⟨lock, -, -, hswept⟩
    · rw [hsame]
    · rw [hswept]
  have hholders : ({ d with cache := d.swept text, outside := d.outside.erase text } :
      Doorway).holders = d.holders := by
    simp only [holders, hcalls]
  have hleft : ∀ key ∈ d.cache.keys, key ∈ d.holders ∨ key.1 ∈ d.outside → key.1 ≠ text →
      key ∈ d.holders ∨ key.1 ∈ d.outside.erase text := by
    rintro key - (hholds | houtside) hne
    · exact Or.inl hholds
    · exact Or.inr ((List.mem_erase_of_ne hne).mpr houtside)
  refine ⟨h.filed_swept text, ?_, ?_⟩
  · intro key hkey
    rcases h.swept_cases text with ⟨hsame, -⟩ | ⟨lock, hlisted, hfree, hswept⟩
    · show key ∈ (d.swept text).keys
      rw [hsame]
      exact h.parting key hkey
    · show key ∈ (d.swept text).keys
      rw [hswept]
      have hmem := h.parting key hkey
      refine List.mem_filter.mpr ⟨hmem, bne_iff_ne.mpr fun htext => hfree ?_⟩
      rw [← List.inj_on_of_nodup_map h.filed.texts hmem hlisted htext]
      exact mem_holders.mpr (Or.inr hkey)
  · rw [hholders]
    show ∀ key ∈ (d.swept text).keys, key ∈ d.holders ∨ key.1 ∈ d.outside.erase text
    rcases h.swept_cases text with ⟨hsame, hheld⟩ | ⟨lock, hlisted, hfree, hswept⟩
    · rw [hsame]
      intro key hkey
      by_cases htext : key.1 = text
      · exact Or.inl (hheld key hkey htext)
      · exact hleft key hkey (h.used key hkey) htext
    · rw [hswept]
      intro key hkey
      obtain ⟨hmem, hne⟩ := List.mem_filter.mp hkey
      exact hleft key hmem (h.used key hmem) (bne_iff_ne.mp hne)

/-! ## Along a history -/

theorem Kept.apply (h : Kept d) (step : Step) : Kept (d.apply step) := by
  cases step with
  | event event =>
      cases hended : d.cache.ended? event with
      | none =>
          simp only [Doorway.apply, hended]
          exact h.apply_of_ended_none hended
      | some id => exact h.handOn hended
  | join text => exact h.enqueue text
  | letGo key =>
      by_cases hkey : key ∈ d.parting
      · simp only [Doorway.apply, if_pos hkey]
        exact h.letGo hkey
      · simp only [Doorway.apply, if_neg hkey]
        exact h
  | sweep text =>
      by_cases htext : text ∈ d.outside
      · simp only [Doorway.apply, if_pos htext]
        exact h.sweep text
      · simp only [Doorway.apply, if_neg htext]
        exact h

theorem Kept.run (h : Kept d) (steps : List Step) : Kept (d.run steps) := by
  induction steps generalizing d with
  | nil => exact h
  | cons step steps ih => exact ih (h.apply step)

theorem kept_of_orderly {c : Cache} (h : Orderly c) : Kept { cache := c } := by
  refine ⟨h.toFiled, fun key hkey => absurd hkey (List.not_mem_nil), fun key hkey => Or.inl ?_⟩
  obtain ⟨id, hid⟩ := List.exists_mem_of_ne_nil _ (h.used key hkey)
  exact mem_holders.mpr (Or.inl (h.exists_call_of_mem_line hkey hid))

end

/-! ## Calls that end in one go -/

section

variable {c : Cache} {call : Call} {event : Event}

/-- The last look finds its text unused exactly where the end of the call does. -/
theorem keys_swept (h : Orderly c) (hcall : call ∈ c.calls)
    (same : SameFlight (c.finish call.id) (c.apply event))
    (hkept : Kept { cache := c.handOn event call.id, outside := [call.text] }) :
    (swept { cache := c.handOn event call.id, outside := [call.text] } call.text).keys =
      (c.apply event).keys := by
  have hline : ∀ key ∈ c.keys,
      (∃ other ∈ (c.apply event).calls, other.key = key) ↔ (c.finish call.id).line key.2 ≠ [] := by
    intro key hkey
    rw [same.calls]
    constructor
    · rintro ⟨other, hother, rfl⟩
      exact List.ne_nil_of_mem (mem_line.mpr ⟨other, hother, rfl, rfl⟩)
    · intro hne
      obtain ⟨id, hid⟩ := List.exists_mem_of_ne_nil _ hne
      exact (h.leave hcall).exists_call_of_mem_line hkey hid
  rw [same.keys, h.keys_finish hcall]
  rcases hkept.swept_cases call.text with ⟨hsame, hheld⟩ | ⟨lock, hlisted, hfree, hswept⟩
  · rw [hsame]
    refine (List.filter_eq_self.mpr fun key hkey => decide_eq_true ?_).symm
    by_cases htext : key.1 = call.text
    · rcases mem_holders.mp (hheld key hkey htext) with hholds | hparting
      · exact (hline key hkey).mp hholds
      · cases hparting
    · rw [h.line_finish_of_ne hcall fun heq => htext (h.text_eq_of_lock_eq hcall hkey heq)]
      exact h.used key hkey
  · rw [hswept]
    refine List.filter_congr fun key hkey => ?_
    rw [Bool.eq_iff_iff, bne_iff_ne, decide_eq_true_iff]
    constructor
    · intro hne
      rw [h.line_finish_of_ne hcall fun heq => hne (h.text_eq_of_lock_eq hcall hkey heq)]
      exact h.used key hkey
    · intro hne htext
      have hheld := (hline key hkey).mpr hne
      rw [List.inj_on_of_nodup_map h.texts hkey hlisted htext] at hheld
      exact hfree (mem_holders.mpr (Or.inl hheld))

/-- Three steps that nobody interrupts end a call in one go. -/
theorem run_of_ended (h : Orderly c) (hcall : call ∈ c.calls)
    (hended : c.ended? event = some call.id) (same : SameFlight (c.finish call.id) (c.apply event)) :
    ({ cache := c } : Doorway).run [.event event, .letGo call.key, .sweep call.text] =
      { cache := c.apply event } := by
  set aside : Doorway := { cache := c.handOn event call.id, outside := [call.text] } with haside
  have hkept : Kept aside := by
    have hrun := (kept_of_orderly h).run [.event event, .letGo call.key]
    simpa [run, Doorway.apply, hended, h.call? hcall, Call.key] using hrun
  have hkeys : (aside.swept call.text).keys = (c.apply event).keys :=
    keys_swept h hcall same hkept
  have hlocks : (aside.swept call.text).locks = (c.apply event).locks := by
    rw [(hkept.filed_swept call.text).locks, (h.apply event).locks, hkeys]
    rcases hkept.swept_cases call.text with ⟨hswept, -⟩ | ⟨lock, -, -, hswept⟩
    · rw [hswept]
      rfl
    · rw [hswept]
      rfl
  have hcache : aside.swept call.text = c.apply event := by
    have hrest : aside.swept call.text = { c.apply event with
        keys := (aside.swept call.text).keys, locks := (aside.swept call.text).locks } := by
      rcases hkept.swept_cases call.text with ⟨hswept, -⟩ | ⟨lock, -, -, hswept⟩
      · rw [hswept]
        rfl
      · rw [hswept]
        rfl
    rw [hrest, hkeys, hlocks]
  have hlast : aside.apply (.sweep call.text) = { cache := c.apply event } := by
    rw [← hcache]
    simp [Doorway.apply, haside]
  rw [← hlast]
  simp [run, Doorway.apply, hended, h.call? hcall, Call.key, haside]

end

/-- Every history in which calls end in one go is one of callers that leave in steps. -/
theorem exists_steps_eq_run {c : Cache} (h : Orderly c) (history : List Event) :
    ∃ steps, ({ cache := c } : Doorway).run steps = { cache := c.run history } := by
  induction history generalizing c with
  | nil => exact ⟨[], rfl⟩
  | cons event history ih =>
      obtain ⟨steps, hsteps⟩ := ih (h.apply event)
      have hfirst : ∃ first, ({ cache := c } : Doorway).run first = { cache := c.apply event } := by
        cases hended : c.ended? event with
        | none => exact ⟨[.event event], by simp [run, Doorway.apply, hended]⟩
        | some id =>
            obtain ⟨call, hcall, rfl, same⟩ := h.finish_of_ended hended
            exact ⟨_, run_of_ended h hcall hended same⟩
      obtain ⟨first, hfirst⟩ := hfirst
      refine ⟨first ++ steps, ?_⟩
      rw [run, List.foldl_append]
      exact (congrArg (fun d => run d steps) hfirst).trans hsteps

end Doorway

namespace Cache

/-- The list of keys along every history: it has a text exactly while a call for it is unanswered,
with the lock that all of those calls stand in line for, so as many texts are in progress as have
an unanswered call. Where callers leave in steps of their own and others come in between, whoever
refers to a lock still finds it in the list, nothing stays there without a caller that refers to
its lock or is about to look, and one vector at most is computed for a text. What a history comes to,
callers come to who leave in steps. -/
theorem keys_exact (db : Database) (dimension : Option Nat) :
    let start : Cache := { database := db, dimension }
    (∀ history : List Event,
      let c := start.run history
      let live := start.unanswered [] history
      (∀ text, (c.key? text).isSome ↔ ∃ id, (id, text) ∈ live) ∧
      (∀ id text, (id, text) ∈ live → ∃ call l, c.call? id = some call ∧
        c.key? text = some call.lock ∧ c.lock? call.lock = some l ∧
        id ∈ l.holder.toList ++ l.waiters) ∧
      c.textsInProgress = (live.map Prod.snd).dedup.length ∧
      (live = [] → c.textsInProgress = 0)) ∧
    (∀ steps : List Doorway.Step,
      let d := ({ cache := start } : Doorway).run steps
      (∀ key ∈ d.holders, d.cache.key? key.1 = some key.2) ∧
      (∀ text, (d.cache.key? text).isSome →
        (∃ key ∈ d.holders, key.1 = text) ∨ text ∈ d.outside) ∧
      (∀ text, (d.cache.computing text).length ≤ 1)) ∧
    ∀ history : List Event, ∃ steps : List Doorway.Step,
      ({ cache := start } : Doorway).run steps = { cache := start.run history } := by
  intro start
  have hstart : Orderly start := orderly_of_no_calls db dimension
  refine ⟨?_, ?_, Doorway.exists_steps_eq_run hstart⟩
  · intro history c live
    have horderly : Orderly c := hstart.run history
    have hlive : live = c.calls.map Call.tag := hstart.unanswered_eq history
    have hmem : ∀ id text, (id, text) ∈ live ↔ ∃ call ∈ c.calls, call.tag = (id, text) := by
      intro id text
      rw [hlive, List.mem_map]
    have hcount : c.textsInProgress = (live.map Prod.snd).dedup.length := by
      rw [horderly.textsInProgress_eq, hlive, List.map_map]
      rfl
    refine ⟨fun text => ?_, fun id text hlives => ?_, hcount, fun hnone => ?_⟩
    · rw [horderly.isSome_key?_iff]
      constructor
      · rintro ⟨call, hcall, rfl⟩
        exact ⟨call.id, (hmem _ _).mpr ⟨call, hcall, rfl⟩⟩
      · rintro ⟨id, hlives⟩
        obtain ⟨call, hcall, htag⟩ := (hmem _ _).mp hlives
        exact ⟨call, hcall, congrArg Prod.snd htag⟩
    · obtain ⟨call, hcall, htag⟩ := (hmem _ _).mp hlives
      cases htag
      obtain ⟨hkey, l, hlock, hline⟩ := horderly.refers hcall
      exact ⟨call, l, horderly.call? hcall, hkey, hlock, hline⟩
    · rw [hcount, hnone]
      rfl
  · intro steps d
    have hkept : d.Kept := (Doorway.kept_of_orderly hstart).run steps
    refine ⟨fun key hkey => hkept.filed.key?_eq (hkept.mem_keys hkey), fun text hsome => ?_,
      hkept.filed.computing_length_le_one⟩
    obtain ⟨lock, hkey⟩ := Option.isSome_iff_exists.mp hsome
    rcases hkept.used _ (key?_eq_some hkey) with hholds | houtside
    · exact Or.inl ⟨_, hholds, rfl⟩
    · exact Or.inr houtside

end Cache

end NearNotes
