import Mathlib
import NearNotes.Proofs.Nearest
import NearNotes.Proofs.Vector.Order

/-!
# The first candidates in their order

A search among candidates takes exactly the first of them in a strict order, which is total although
distances may be NaN or a zero of either sign.

* `Scored.Precedes` : the order: by distance, and at one place by number; `Scored.precedes_iff` says it
  by ranks, `Scored.precedes_total` that it is total, and `Scored.isStrictOrder` that it is strict;
* `Scored.Measures` : a candidate with its own distance;
* `Selects` : what it means that hits are the first candidates; `selects_take` : the beginning of the
  ranking is such hits;
* `scoreFrom_of_mismatch` : the first candidate of another length is the error;
* `topK_selects` : what a search comes to.
-/

namespace NearNotes

namespace Scored

/-- Nearer candidates come first, and of two at one place the one with the smaller number. -/
def Precedes (x y : Scored) : Prop :=
  x.distance.Below y.distance ∨ ¬y.distance.Below x.distance ∧ x.id < y.id

theorem precedes_iff {x y : Scored} : x.Precedes y ↔
    x.distance.rank < y.distance.rank ∨ x.distance.rank = y.distance.rank ∧ x.id < y.id := by
  rw [Precedes, ← Binary64.rank_lt_iff, ← Binary64.rank_lt_iff]
  omega

theorem precedes_total {x y : Scored} (h : x.id ≠ y.id) : x.Precedes y ∨ y.Precedes x := by
  rw [precedes_iff, precedes_iff]
  omega

theorem isStrictOrder : IsStrictOrder Scored Precedes where
  irrefl x h := by
    rw [precedes_iff] at h
    omega
  trans x y z hxy hyz := by
    rw [precedes_iff] at *
    omega

theorem precedes_of_before {x y : Scored} (h : x.before y = true) (hne : x.id ≠ y.id) :
    x.Precedes y := by
  rw [before_iff] at h
  rw [precedes_iff]
  omega

def Measures (query : Embedding) (candidates : List Embedding) (x : Scored) : Prop :=
  ∃ v, candidates[x.id]? = some v ∧ squaredL2 query v = .ok x.distance

end Scored

/-- The hits are the first `k` candidates in their order, or all of them if there are fewer. -/
structure Selects (query : Embedding) (candidates : List Embedding) (k : Nat) (hits : List Scored) :
    Prop where
  length : hits.length = min k candidates.length
  distinct : (hits.map Scored.id).Nodup
  measured : ∀ hit ∈ hits, hit.Measures query candidates
  ordered : hits.Pairwise Scored.Precedes
  /-- A candidate that is left out comes after every hit. -/
  complete : ∀ other : Scored, other.Measures query candidates → other ∉ hits →
    ∀ hit ∈ hits, hit.Precedes other

section Selection

variable {query : Embedding} {candidates : List Embedding}

theorem scoreFrom_of_mismatch {v : Embedding}
    (h : candidates.find? (fun v => v.length != query.length) = some v) (first : Nat) :
    scoreFrom query first candidates = .error (.dimensionMismatch query.length v.length) := by
  induction candidates generalizing first with
  | nil => cases h
  | cons candidate rest ih =>
      by_cases hlength : query.length = candidate.length
      · rw [List.find?_cons_of_neg (by simp [hlength])] at h
        rw [scoreFrom, squaredL2_of_length_eq hlength, ih h]
        rfl
      · rw [List.find?_cons_of_pos (by simpa using Ne.symm hlength)] at h
        obtain rfl := Option.some.inj h
        rw [scoreFrom, squaredL2, if_pos hlength]
        rfl

theorem selects_take (corpus : Corpus) (query : Embedding) (hlength : query.length = corpus.dimension)
    (k : Nat) : Selects query corpus.vectors k ((corpus.ranked query).take k) := by
  have hids := corpus.nodup_id_ranked query
  have hstrict : (corpus.ranked query).Pairwise Scored.Precedes :=
    ((corpus.pairwise_ranked query).and (List.pairwise_map.mp hids)).imp
      fun h => Scored.precedes_of_before h.1 h.2
  have hmeasures : ∀ x : Scored, x.Measures query corpus.vectors ↔ x ∈ corpus.ranked query := by
    intro x
    rw [Corpus.mem_ranked]
    refine exists_congr fun v => and_congr_right fun hv => ?_
    have hv := corpus.uniform v (List.mem_of_getElem? hv)
    rw [squaredL2_of_length_eq (hlength.trans hv.symm), Except.ok.injEq, eq_comm]
  refine ⟨?_, ?_, fun hit hhit => ?_, hstrict.take, fun other hother hout hit hhit => ?_⟩
  · rw [List.length_take, corpus.length_ranked]
    rfl
  · rw [List.map_take]
    exact hids.take
  · exact (hmeasures hit).mpr (List.mem_of_mem_take hhit)
  · have hsplit := (hmeasures other).mp hother
    rw [← List.take_append_drop k (corpus.ranked query), List.mem_append] at hsplit
    exact hstrict.rel_of_mem_take_of_mem_drop hhit (hsplit.resolve_left hout)

/-- A search where all lengths are right takes the beginning of the ranking. -/
theorem topK_of_lengths (h : ∀ v ∈ candidates, v.length = query.length) :
    ∃ corpus : Corpus, corpus.vectors = candidates ∧ query.length = corpus.dimension ∧
      ∀ k, topK query candidates k = .ok ((corpus.ranked query).take k) := by
  refine ⟨⟨candidates, query.length, h⟩, rfl, rfl, fun k => ?_⟩
  rw [topK, scoreFrom_eq fun v hv => (h v hv).symm]
  rfl

/-- **A search takes the first candidates in a strict total order.** It fails exactly if a candidate
has another length than the query, and the first such one is the error. Otherwise the hits are the
first `k` candidates, each with its own distance, and those of any larger search begin with them. -/
theorem topK_selects (query : Embedding) (candidates : List Embedding) (k : Nat) :
    (IsStrictOrder Scored Scored.Precedes ∧
      ∀ x y : Scored, x.id ≠ y.id → x.Precedes y ∨ y.Precedes x) ∧
    (∀ e, topK query candidates k = .error e ↔
      ∃ v, candidates.find? (fun v => v.length != query.length) = some v ∧
        e = .dimensionMismatch query.length v.length) ∧
    ∀ hits, topK query candidates k = .ok hits →
      Selects query candidates k hits ∧
      ∀ larger, k ≤ larger → ∃ more, topK query candidates larger = .ok more ∧ hits <+: more := by
  refine ⟨⟨Scored.isStrictOrder, fun x y => Scored.precedes_total⟩, ?_⟩
  cases hfind : candidates.find? (fun v => v.length != query.length) with
  | some v =>
      have herror : topK query candidates k = .error (.dimensionMismatch query.length v.length) := by
        rw [topK, scoreFrom_of_mismatch hfind]
        rfl
      rw [herror]
      refine ⟨fun e => ?_, fun hits hhits => by cases hhits⟩
      rw [Except.error.injEq, eq_comm]
      simp
  | none =>
      have hlengths : ∀ v ∈ candidates, v.length = query.length := by
        simpa using List.find?_eq_none.mp hfind
      obtain ⟨corpus, rfl, hdimension, hranked⟩ := topK_of_lengths hlengths
      refine ⟨fun e => ?_, fun hits hhits => ?_⟩
      · rw [hranked]
        simp
      · obtain rfl := Except.ok.inj ((hranked k).symm.trans hhits)
        exact ⟨selects_take corpus query hdimension k, fun larger hlarger =>
          ⟨_, hranked larger, (List.take_prefix_take_left hlarger)⟩⟩

end Selection

end NearNotes
