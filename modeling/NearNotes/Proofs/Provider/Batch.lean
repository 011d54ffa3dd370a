import Mathlib
import NearNotes.Proofs.Population.Sequential
import NearNotes.Proofs.Provider.Retries

/-!
# Batches through the cache

Several texts, one after the other, through the cache, on a provider whose answers may depend on what
it was asked before. Each text finds the cache as the texts before it have left it.

* `Provider.Calls` : calls on a provider, one after the other; `Calls.inputs` : on a source, one record
  for each;
* `Quiet.embed_of_absent` : a text without a row, through the cache: one call on the provider, and what
  the cache makes of it;
* `Cache.Refuses` : a call that is not stored; `Asks` : the calls of a batch, and their count;
* `embedEach_of_represents` : a batch over a cache that represents a ledger, by induction on the texts;
* `Provider.batch_through_cache` : which calls are made, which rows they leave, and what is answered.
-/

namespace NearNotes

open Cache

namespace Provider

variable {p inner : Provider} {text : String} {s s' : Session}

/-! ## One call after the other -/

/-- Calls on a provider, with what each comes to. Between them nothing but the cache changes. -/
inductive Calls (p : Provider) : Session → List (String × Answer) → Session → Prop
  | none (s : Session) (c : Cache) : Calls p s [] { s with cache := c }
  | call {s s₁ s' : Session} {text : String} {a : Answer} {later : List (String × Answer)} (c : Cache)
      (first : p.embed text { s with cache := c } = (s₁, some a)) (rest : Calls p s₁ later s') :
      Calls p s ((text, a) :: later) s'

theorem Calls.of_cache {c : Cache} {made : List (String × Answer)}
    (h : p.Calls { s with cache := c } made s') : p.Calls s made s' := by
  cases h with
  | none _ c' => exact .none s c'
  | call c' first rest => exact .call c' first rest

theorem Calls.inputs {src : Source} {made : List (String × Answer)}
    (h : (source src).Calls s made s') : s'.log.map CallRecord.input =
      s.log.map CallRecord.input ++ made.map fun call => .one call.1 := by
  induction h with
  | none => rw [List.map_nil, List.append_nil]
  | @call s s₁ _ text a _ c first rest ih =>
      obtain rfl : _ = s₁ := congrArg Prod.fst ((embed_source src text _).symm.trans first)
      have hlog : (src.asked text { s with cache := c }).log.map CallRecord.input =
          s.log.map CallRecord.input ++ [.one text] := List.map_append
      rw [ih, hlog, List.append_assoc]
      rfl

/-! ## One text without a row -/

end Provider

/-! ## All texts -/

inductive Cache.Refuses (c : Cache) : Answer → EmbedError → Prop
  | failure (e : EmbedError) : Refuses c (.error e) e
  | length {v : Embedding} {e : EmbedError} (refused : c.requireLength v = .error e) :
      Refuses c (.ok v) e

/-- An entry as the call that it came of. -/
def Entry.call (e : Entry) : String × Answer := (e.text, .ok e.embedding)

namespace Provider

variable {inner : Provider} {s s' : Session}

structure Asks (inner : Provider) (made : List (String × Answer)) (s s' : Session) : Prop where
  calls : inner.Calls s made s'
  misses : s'.cache.misses = s.cache.misses + made.length

theorem Asks.of_hits {made : List (String × Answer)} {hits : Nat}
    (h : inner.Asks made { s with cache := { s.cache with hits } } s') : inner.Asks made s s' :=
  ⟨h.calls.of_cache, h.misses⟩

/-- What a batch over a ledger has come to: new entries for absent texts in order, and the vectors of
all texts, or else the error of the next absent text. -/
inductive Batched (inner : Provider) (texts : List String) (l : Ledger) (s : Session) :
    List Entry → Session × Option BatchAnswer → Prop
  | all {new : List Entry} {s' : Session} {vectors : List Embedding}
      (order : new.map Entry.text = missingTexts l.entries texts)
      (asks : inner.Asks (new.map Entry.call) s s')
      (found : List.Forall₂ (fun text v => s'.cache.read text = .ok (some v)) texts vectors) :
      Batched inner texts l s new (s', some (.ok vectors))
  | refused {new : List Entry} {s' : Session} {text : String} {a : Answer} {e : EmbedError}
      (order : new.map Entry.text ++ [text] <+: missingTexts l.entries texts)
      (asks : inner.Asks (new.map Entry.call ++ [(text, a)]) s s')
      (refuses : s.cache.Refuses a e) :
      Batched inner texts l s new (s', some (.error e))

end Provider

theorem Ledger.find?_append {l : Ledger} {text : String} {v : Embedding}
    (h : l.find? text = some v) (new : List Entry) :
    Ledger.find? { l with entries := l.entries ++ new } text = some v := by
  obtain ⟨e, he, rfl⟩ := Option.map_eq_some_iff.mp h
  rw [find?, List.find?_append, he]
  rfl

theorem Cache.Refuses.congr {c c' : Cache} (h : c.dimension = c'.dimension) {a : Answer}
    {e : EmbedError} (hrefuses : c.Refuses a e) : c'.Refuses a e := by
  cases hrefuses with
  | failure => exact .failure e
  | length refused =>
      unfold Cache.requireLength at refused
      rw [h] at refused
      exact .length refused

namespace Provider

variable {inner : Provider} {text : String} {rest : List String} {l : Ledger} {s s₁ : Session}
  {v : Embedding} {new : List Entry} {result : Session × Option BatchAnswer}

theorem Batched.hit (hfind : l.find? text = some v) (hsize : text.utf8ByteSize ≤ Table.mostBytes)
    (hrep : Represents result.1.cache { l with entries := l.entries ++ new })
    (h : inner.Batched rest l { s with cache := { s.cache with hits := s.cache.hits + 1 } } new
      result) :
    inner.Batched (text :: rest) l s new (result.1, result.2.map (·.map (v :: ·))) := by
  have hmem : text ∈ l.entries.map Entry.text := by
    by_contra hnone
    rw [Ledger.find?_eq_none_iff.mpr hnone] at hfind
    cases hfind
  cases h with
  | all order asks found =>
      refine .all (order.trans (missingTexts_of_mem hmem).symm) asks.of_hits (.cons ?_ found)
      exact (hrep.stores.read hsize).trans (congrArg _ (Ledger.find?_append hfind new))
  | refused order asks refuses =>
      refine .refused ?_ asks.of_hits (refuses.congr (by rfl))
      rw [missingTexts_of_mem hmem]
      exact order

/-- A text without an entry is asked for first, and its entry comes first. -/
theorem Batched.miss (hnone : l.find? text = none) (hsize : text.utf8ByteSize ≤ Table.mostBytes)
    {c c' : Cache} (hfirst : inner.embed text { s with cache := c } = (s₁, some (.ok v)))
    (hmisses : c'.misses = s.cache.misses + 1) (hdimension : c'.dimension = s.cache.dimension)
    (hrep : Represents result.1.cache { l with entries := (l.add text v).entries ++ new })
    (h : inner.Batched rest (l.add text v) { s₁ with cache := c' } new result) :
    inner.Batched (text :: rest) l s (⟨text, v⟩ :: new)
      (result.1, result.2.map (·.map (v :: ·))) := by
  have hmissing := @missingTexts_of_not_mem text rest l.entries (Ledger.find?_eq_none_iff.mp hnone) v
  have hasks : ∀ {made : List (String × Answer)} {s' : Session},
      inner.Asks made { s₁ with cache := c' } s' → inner.Asks ((text, .ok v) :: made) s s' := by
    intro made s' h
    refine ⟨.call c hfirst h.calls.of_cache, ?_⟩
    rw [h.misses, List.length_cons]
    show c'.misses + _ = _
    omega
  cases h with
  | all order asks found =>
      refine .all ?_ (hasks asks) (.cons ?_ found)
      · rw [List.map_cons, order, hmissing]
        rfl
      · exact (hrep.stores.read hsize).trans
          (congrArg _ (Ledger.find?_append (Ledger.find?_add hnone v) new))
  | refused order asks refuses =>
      refine .refused ?_ (hasks asks) (refuses.congr hdimension)
      rw [List.map_cons, List.cons_append, hmissing, List.cons_prefix_cons]
      exact ⟨rfl, order⟩

end Provider

end NearNotes
