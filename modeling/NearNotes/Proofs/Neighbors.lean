import Mathlib
import NearNotes.Proofs.Nearest
import NearNotes.Proofs.Vector.Distance

/-!
# Rows of neighbours

The search of a corpus for the neighbours of its own vectors, for every number of hits and both ways
to tell a vector itself.

* `find?_take_least` : the first hit of a ranking that passes a test comes before all others that do;
* `Corpus.mem_pickOthers`, `Corpus.pairwise_pickOthers` : rows come in the order of their queries;
* `Corpus.mem_neighbors`, `Corpus.mem_queries`, `Corpus.neighbors_least` : which rows there are, and
  what each of them says;
* `Precedes`, `Corpus.neighbors_pass_over_themselves` : where a vector's own number is passed over;
* `atZero`, `Corpus.neighbors_pass_over_zero` : where all that is at distance zero is passed over.
-/

namespace NearNotes

/-! ## Rankings -/

section Ranking

variable {l : List Scored} {hit best : Scored} {p : Scored → Bool} {k : Nat}

theorem before_of_mem_take_one (hsorted : l.Pairwise fun x y => x.before y = true)
    (h : best ∈ l.take 1) : best ∈ l ∧ ∀ hit ∈ l, best.before hit = true := by
  cases l with
  | nil => simp at h
  | cons a rest =>
      cases List.mem_singleton.mp h
      refine ⟨List.mem_cons_self, fun hit hmem => ?_⟩
      rcases List.mem_cons.mp hmem with rfl | hmem
      · exact hit.before_refl
      · exact (List.pairwise_cons.mp hsorted).1 hit hmem

/-- The first hit that passes a test comes before all others that pass it, those beyond the first `k`
included. -/
theorem find?_take_least (hsorted : l.Pairwise fun x y => x.before y = true)
    (h : (l.take k).find? p = some best) :
    best ∈ l ∧ p best = true ∧ ∀ hit ∈ l, p hit = true → best.before hit = true := by
  obtain ⟨hbest, before, after, htake, hfails⟩ := List.find?_eq_some_iff_append.mp h
  have hl : l = before ++ best :: (after ++ l.drop k) := by
    conv_lhs => rw [← List.take_append_drop k l, htake]
    simp
  refine ⟨List.mem_of_mem_take (List.mem_of_find?_eq_some h), hbest, fun hit hmem hpass => ?_⟩
  rw [hl] at hmem hsorted
  rcases List.mem_append.mp hmem with hearlier | hlater
  · have := hfails hit hearlier
    simp [hpass] at this
  · rcases List.mem_cons.mp hlater with rfl | hlater
    · exact hit.before_refl
    · exact (List.pairwise_cons.mp (List.pairwise_append.mp hsorted).2.1).1 hit hlater

/-- Where the hits that fail a test come first in a list, some of the first `k` pass it exactly if
fewer fail than there are. -/
theorem exists_mem_take_iff (hfirst : l.Pairwise fun x y => p y = false → p x = false) :
    (∃ hit ∈ l.take k, p hit = true) ↔ l.countP (fun hit => !p hit) < min k l.length := by
  induction l generalizing k with
  | nil => simp
  | cons a l ih =>
      obtain ⟨ha, hrest⟩ := List.pairwise_cons.mp hfirst
      cases k with
      | zero => simp
      | succ k =>
          rw [List.take_succ_cons, List.exists_mem_cons_iff, ih hrest, List.countP_cons,
            List.length_cons]
          cases hpass : p a with
          | false => simp
          | true =>
              have hnone : l.countP (fun hit => !p hit) = 0 := by
                refine List.countP_eq_zero.mpr fun b hb hfails => ?_
                rw [ha b hb (by simpa using hfails)] at hpass
                cases hpass
              simp [hnone]

end Ranking

/-! ## Rows -/

namespace Corpus

section Rows

variable {policy : SelfMatch} {rows : List (List Scored)} {corpus : Corpus} {k : Nat}
  {found : List Nearest} {n : Nearest}

theorem squaredL2_of_getElem? {i j : Nat} {v w : Embedding} (hv : corpus.vectors[i]? = some v)
    (hw : corpus.vectors[j]? = some w) : squaredL2 v w = .ok (sumSquares v w) :=
  squaredL2_of_length_eq ((corpus.uniform v (List.mem_of_getElem? hv)).trans
    (corpus.uniform w (List.mem_of_getElem? hw)).symm)

theorem mem_pickOthers : n ∈ pickOthers policy rows ↔ ∃ hits, rows[n.query]? = some hits ∧
    hits.find? (fun hit => !policy.isSelf n.query hit) = some ⟨n.neighbor, n.distance⟩ := by
  rw [pickOthers, List.mem_filterMap]
  constructor
  · rintro ⟨⟨hits, query⟩, hrow, hn⟩
    obtain ⟨hit, hfound, rfl⟩ := Option.map_eq_some_iff.mp hn
    exact ⟨hits, List.mem_zipIdx_iff_getElem?.mp hrow, hfound⟩
  · rintro ⟨hits, hrow, hfound⟩
    refine ⟨(hits, n.query), List.mem_zipIdx_iff_getElem?.mpr hrow, ?_⟩
    simp only [hfound, Option.map_some]

theorem pairwise_pickOthers (policy : SelfMatch) (rows : List (List Scored)) :
    ((pickOthers policy rows).map Nearest.query).Pairwise (· < ·) := by
  have hplaces : (rows.zipIdx.map Prod.snd).Pairwise (· < ·) := by
    rw [List.zipIdx_map_snd]
    exact List.pairwise_lt_range'
  rw [List.pairwise_map]
  refine (List.pairwise_map.mp hplaces).filterMap _ fun row row' hless n hn n' hn' => ?_
  obtain ⟨hit, -, rfl⟩ := Option.map_eq_some_iff.mp hn
  obtain ⟨hit', -, rfl⟩ := Option.map_eq_some_iff.mp hn'
  exact hless

theorem mem_neighbors (h : corpus.neighbors k policy = .ok found) :
    n ∈ found ↔ ∃ v, corpus.vectors[n.query]? = some v ∧
      ((corpus.ranked v).take k).find? (fun hit => !policy.isSelf n.query hit) =
        some ⟨n.neighbor, n.distance⟩ := by
  rw [neighbors_eq] at h
  cases h
  rw [mem_pickOthers]
  simp only [List.getElem?_map, Option.map_eq_some_iff, exists_exists_and_eq_and]

theorem mem_queries (h : corpus.neighbors k policy = .ok found) {i : Nat} :
    i ∈ found.map Nearest.query ↔ ∃ v, corpus.vectors[i]? = some v ∧
      ∃ hit ∈ (corpus.ranked v).take k, policy.isSelf i hit = false := by
  rw [List.mem_map]
  constructor
  · rintro ⟨n, hn, rfl⟩
    obtain ⟨v, hv, hfound⟩ := (mem_neighbors h).mp hn
    exact ⟨v, hv, _, List.mem_of_find?_eq_some hfound, by simpa using List.find?_some hfound⟩
  · rintro ⟨v, hv, hit, hmem, hother⟩
    obtain ⟨best, hbest⟩ : ∃ best, ((corpus.ranked v).take k).find?
        (fun hit => !policy.isSelf i hit) = some best := by
      rw [← Option.isSome_iff_exists, List.find?_isSome]
      exact ⟨hit, hmem, by simp [hother]⟩
    exact ⟨⟨i, best.id, best.distance⟩, (mem_neighbors h).mpr ⟨v, hv, hbest⟩, rfl⟩

/-- A row names a stored vector with its distance. It does not count as the query itself and comes
before all others that do not. -/
theorem neighbors_least (h : corpus.neighbors k policy = .ok found) (hn : n ∈ found) :
    ∃ v w, corpus.vectors[n.query]? = some v ∧ corpus.vectors[n.neighbor]? = some w ∧
      squaredL2 v w = .ok n.distance ∧ policy.isSelf n.query ⟨n.neighbor, n.distance⟩ = false ∧
      ∀ u id, corpus.vectors[id]? = some u → ∃ d, squaredL2 v u = .ok d ∧
        (policy.isSelf n.query ⟨id, d⟩ = false →
          (⟨n.neighbor, n.distance⟩ : Scored).before ⟨id, d⟩ = true) := by
  obtain ⟨v, hv, hfound⟩ := (mem_neighbors h).mp hn
  obtain ⟨hmem, hother, hleast⟩ := find?_take_least (corpus.pairwise_ranked v) hfound
  obtain ⟨w, hw, hdistance⟩ := mem_ranked.mp hmem
  have hdistance : n.distance = sumSquares v w := hdistance
  refine ⟨v, w, hv, hw, ?_, by simpa using hother, fun u id hu => ?_⟩
  · rw [squaredL2_of_getElem? hv hw, hdistance]
  · refine ⟨sumSquares v u, squaredL2_of_getElem? hv hu, fun hnot => ?_⟩
    exact hleast ⟨id, sumSquares v u⟩ (mem_ranked.mpr ⟨u, hu, rfl⟩) (by simp [hnot])

end Rows

end Corpus

/-! ## Passing over the vector itself -/

/-- From a query, one vector comes before another: it is nearer, or at one distance and its number is
smaller. -/
def Precedes (vectors : List Embedding) (query first second : Nat) : Prop :=
  ∃ v w u d e, vectors[query]? = some v ∧ vectors[first]? = some w ∧ vectors[second]? = some u ∧
    squaredL2 v w = .ok d ∧ squaredL2 v u = .ok e ∧
    (d.rank < e.rank ∨ d.rank = e.rank ∧ first < second)

namespace Corpus

variable {vectors : List Embedding} {corpus : Corpus} {k : Nat} {found : List Nearest}

/-- Rows that pass over their own vector name the nearest other one. -/
theorem isLeast_of_mem_neighbors (h : corpus.neighbors k .sameId = .ok found) {n : Nearest}
    (hn : n ∈ found) : n.IsLeast corpus.vectors := by
  obtain ⟨v, w, hv, hw, hdistance, hother, hleast⟩ := neighbors_least h hn
  refine ⟨by simpa [SelfMatch.isSelf] using hother, ⟨v, w, hv, hw, hdistance⟩,
    fun v' u id hv' hu hne => ?_⟩
  cases hv.symm.trans hv'
  obtain ⟨d, hd, hbefore⟩ := hleast u id hu
  exact ⟨d, hd, Scored.before_iff.mp (hbefore (by simpa [SelfMatch.isSelf] using hne))⟩

/-- With one hit, a vector has a row if another one comes before it. -/
theorem mem_queries_one (h : corpus.neighbors 1 .sameId = .ok found) (i : Nat) :
    i ∈ found.map Nearest.query ↔ ∃ j, j ≠ i ∧ Precedes corpus.vectors i j i := by
  have hself : ∀ hit : Scored, SelfMatch.sameId.isSelf i hit = false ↔ hit.id ≠ i := fun hit => by
    simp [SelfMatch.isSelf]
  simp only [mem_queries h, hself]
  constructor
  · rintro ⟨v, hv, hit, hmem, hne⟩
    obtain ⟨hranked, hfirst⟩ := before_of_mem_take_one (corpus.pairwise_ranked v) hmem
    obtain ⟨w, hw, hd⟩ := mem_ranked.mp hranked
    have hbefore := Scored.before_iff.mp
      (hfirst ⟨i, sumSquares v v⟩ (mem_ranked.mpr ⟨v, hv, rfl⟩))
    refine ⟨hit.id, hne, v, w, v, hit.distance, sumSquares v v, hv, hw, hv, ?_,
      squaredL2_of_length_eq rfl, ?_⟩
    · rw [hd, squaredL2_of_getElem? hv hw]
    · exact hbefore.imp_right fun hsame => ⟨hsame.1, lt_of_le_of_ne hsame.2 hne⟩
  · rintro ⟨j, hne, v, w, u, d, e, hv, hw, hu, hd, he, hbefore⟩
    cases hv.symm.trans hu
    have hpos : 0 < corpus.size := (Nat.zero_le i).trans_lt (List.getElem?_eq_some_iff.mp hv).1
    obtain ⟨hit, hmem⟩ : ∃ hit, hit ∈ (corpus.ranked v).take 1 :=
      List.exists_mem_of_length_pos (by simpa [length_ranked] using hpos)
    refine ⟨v, hv, hit, hmem, fun heq => ?_⟩
    -- The first hit would be the vector itself, which the other one comes before.
    obtain ⟨hranked, hfirst⟩ := before_of_mem_take_one (corpus.pairwise_ranked v) hmem
    obtain ⟨u, hu, hself⟩ := mem_ranked.mp hranked
    cases hv.symm.trans (heq ▸ hu)
    rw [squaredL2_of_length_eq rfl, Except.ok.injEq] at he
    rw [squaredL2_of_getElem? hv hw, Except.ok.injEq] at hd
    have hafter := Scored.before_iff.mp (hfirst ⟨j, d⟩ (mem_ranked.mpr ⟨w, hw, hd.symm⟩))
    rw [hself, he, heq] at hafter
    simp only at hafter
    omega

/-- **Own numbers are passed over.** A search of accepted vectors for their neighbours never fails. Its
rows come in order and each names the nearest other vector, however many hits are asked for. With two
hits or more, all of two or more vectors have their row; with one hit those have it that another
vector comes before; otherwise there is none. -/
theorem neighbors_pass_over_themselves (hcorpus : ofList vectors = .ok corpus) (k : Nat) :
    ∃ found, corpus.neighbors k .sameId = .ok found ∧
      (found.map Nearest.query).Pairwise (· < ·) ∧ (∀ n ∈ found, n.IsLeast vectors) ∧
      (2 ≤ vectors.length → 2 ≤ k → found.map Nearest.query = List.range vectors.length) ∧
      (k = 1 → ∀ i, i ∈ found.map Nearest.query ↔ ∃ j, j ≠ i ∧ Precedes vectors i j i) ∧
      (k = 0 ∨ vectors.length < 2 → found = []) := by
  obtain rfl := vectors_of_ofList hcorpus
  have hfound := neighbors_eq corpus k .sameId
  refine ⟨_, hfound, pairwise_pickOthers _ _, fun n => isLeast_of_mem_neighbors hfound,
    fun hsize hk => ?_, ?_, ?_⟩
  · obtain ⟨found, hfound', hlength, hrows⟩ := corpus.neighbors_sameId hk hsize
    cases hfound.symm.trans hfound'
    refine List.ext_getElem (by rw [List.length_map, hlength, List.length_range, size])
      fun i hi _ => ?_
    rw [List.length_map] at hi
    rw [List.getElem_map, List.getElem_range]
    exact (hrows i _ (List.getElem?_eq_getElem hi)).1
  · rintro rfl i
    exact mem_queries_one hfound i
  · rintro (rfl | hsmall)
    · refine List.eq_nil_iff_forall_not_mem.mpr fun n hn => ?_
      obtain ⟨v, -, hnone⟩ := (mem_neighbors hfound).mp hn
      cases hnone
    · exact Except.ok.inj (hfound.symm.trans (corpus.neighbors_of_small k hsmall))

/-- A vector that is no number, one that stands twice, and another one. -/
def twins : List Embedding :=
  [[⟨0x7FF8000000000000⟩], [⟨0⟩], [⟨0⟩], [⟨0x4000000000000000⟩]]

/-- With one hit, of all these vectors only the second twin has a row: the first one comes before it. -/
theorem neighbors_pass_over_themselves_at_twins :
    ∃ corpus found, ofList twins = .ok corpus ∧ corpus.neighbors 1 .sameId = .ok found ∧
      (∀ i, i ∈ found.map Nearest.query ↔ ∃ j, j ≠ i ∧ Precedes twins i j i) ∧
      2 ∈ found.map Nearest.query ∧ ∀ n ∈ found, n.IsLeast twins := by
  obtain ⟨corpus, hcorpus⟩ : ∃ corpus, ofList twins = .ok corpus := ⟨_, rfl⟩
  obtain ⟨found, hfound, -, hleast, -, hone, -⟩ := neighbors_pass_over_themselves hcorpus 1
  have hzero : squaredL2 [⟨0⟩] [⟨0⟩] = .ok ⟨0⟩ := by decide +kernel
  have htwin : Precedes twins 2 1 2 :=
    ⟨_, _, _, _, _, rfl, rfl, rfl, hzero, hzero, Or.inr ⟨rfl, by decide⟩⟩
  exact ⟨corpus, found, hcorpus, hfound, hone rfl, (hone rfl 2).mpr ⟨1, by decide, htwin⟩, hleast⟩

end Corpus

/-! ## Passing over distance zero -/

def atZero (vectors : List Embedding) (query : Embedding) : Nat :=
  vectors.countP fun v => (squaredL2 query v).toOption.any Binary64.isZero

/-- The neighbour is a vector that is not at distance zero, at this distance, and no other such vector
comes before it. -/
structure Nearest.IsLeastApart (n : Nearest) (vectors : List Embedding) : Prop where
  apart : n.distance.isZero = false
  distance : ∃ v w, vectors[n.query]? = some v ∧ vectors[n.neighbor]? = some w ∧
    squaredL2 v w = .ok n.distance
  least : ∀ v w id, vectors[n.query]? = some v → vectors[id]? = some w →
    ∃ d, squaredL2 v w = .ok d ∧ (d.isZero = false →
      n.distance.rank < d.rank ∨ n.distance.rank = d.rank ∧ n.neighbor ≤ id)

namespace Corpus

variable {vectors : List Embedding} {corpus : Corpus} {k : Nat} {found : List Nearest}

theorem isLeastApart_of_mem_neighbors (h : corpus.neighbors k .zeroDistance = .ok found)
    {n : Nearest} (hn : n ∈ found) : n.IsLeastApart corpus.vectors := by
  obtain ⟨v, w, hv, hw, hdistance, hother, hleast⟩ := neighbors_least h hn
  refine ⟨hother, ⟨v, w, hv, hw, hdistance⟩, fun v' u id hv' hu => ?_⟩
  cases hv.symm.trans hv'
  obtain ⟨d, hd, hbefore⟩ := hleast u id hu
  exact ⟨d, hd, fun hapart => Scored.before_iff.mp (hbefore hapart)⟩

/-- Hits at distance zero are as many as vectors at distance zero. -/
theorem countP_ranked (corpus : Corpus) {query : Embedding}
    (hlength : query.length = corpus.dimension) :
    (corpus.ranked query).countP (fun hit => hit.distance.isZero) =
      atZero corpus.vectors query := by
  have hdistances : (scores query 0 corpus.vectors).map Scored.distance =
      corpus.vectors.map (sumSquares query) := by
    conv_rhs => rw [← List.zipIdx_map_fst 0 corpus.vectors, List.map_map]
    rw [scores, List.map_map]
    rfl
  calc (corpus.ranked query).countP (fun hit => hit.distance.isZero)
      = ((scores query 0 corpus.vectors).map Scored.distance).countP Binary64.isZero := by
        rw [(corpus.ranked_perm query).countP_eq, List.countP_map]
        rfl
    _ = corpus.vectors.countP fun v => (sumSquares query v).isZero := by
        rw [hdistances, List.countP_map]
        rfl
    _ = atZero corpus.vectors query := by
        refine List.countP_congr fun v hv => ?_
        rw [squaredL2_of_length_eq (hlength.trans (corpus.uniform v hv).symm)]
        rfl

/-- As no distance ranks below zero, a vector has a row exactly if fewer vectors are at distance zero
from it than hits are asked for and there are. -/
theorem mem_queries_apart (h : corpus.neighbors k .zeroDistance = .ok found) {i : Nat} {v : Embedding}
    (hv : corpus.vectors[i]? = some v) :
    i ∈ found.map Nearest.query ↔ atZero corpus.vectors v < min k corpus.size := by
  have hlength := corpus.uniform v (List.mem_of_getElem? hv)
  -- No hit ranks below those at distance zero.
  have hfirst : (corpus.ranked v).Pairwise fun x y =>
      (!y.distance.isZero) = false → (!x.distance.isZero) = false := by
    refine (corpus.pairwise_ranked v).imp_of_mem fun {x y} hx _ hbefore hzero => ?_
    obtain ⟨w, -, hd⟩ := mem_ranked.mp hx
    have hrank : 0 ≤ x.distance.rank := hd ▸ rank_sumSquares v w
    rw [Scored.before_iff] at hbefore
    simp only [Bool.not_eq_false', Binary64.isZero_iff_rank] at hzero ⊢
    omega
  have hcount := exists_mem_take_iff (k := k) hfirst
  simp only [Bool.not_not, countP_ranked corpus hlength, length_ranked] at hcount
  rw [mem_queries h, ← hcount]
  constructor
  · rintro ⟨v', hv', hit, hmem, hother⟩
    cases hv.symm.trans hv'
    exact ⟨hit, hmem, by rw [show hit.distance.isZero = false from hother]; rfl⟩
  · rintro ⟨hit, hmem, hother⟩
    exact ⟨v, hv, hit, hmem, by simpa [SelfMatch.isSelf] using hother⟩

/-- **Distance zero is passed over.** Rows come in order, and each names the nearest vector that is not
at distance zero. Those vectors have a row from which fewer are at distance zero, they themselves
counted, than hits are asked for and there are. -/
theorem neighbors_pass_over_zero (hcorpus : ofList vectors = .ok corpus) (k : Nat) :
    ∃ found, corpus.neighbors k .zeroDistance = .ok found ∧
      (found.map Nearest.query).Pairwise (· < ·) ∧ (∀ n ∈ found, n.IsLeastApart vectors) ∧
      ∀ (i : Nat) v, vectors[i]? = some v →
        (i ∈ found.map Nearest.query ↔ atZero vectors v < min k vectors.length) := by
  obtain rfl := vectors_of_ofList hcorpus
  have hfound := neighbors_eq corpus k .zeroDistance
  refine ⟨_, hfound, pairwise_pickOthers _ _, fun n => isLeastApart_of_mem_neighbors hfound,
    fun i v hv => mem_queries_apart hfound hv⟩

/-- The two zeros, a vector that is no number, and another one. -/
def zeros : List Embedding :=
  [[⟨0⟩], [⟨0x8000000000000000⟩], [⟨0x7FF8000000000000⟩], [⟨0x3FF0000000000000⟩]]

/-- With two hits, the zeros take up each other's and have no row. The vector that is no number is not
even at distance zero from itself, and has one. -/
theorem neighbors_pass_over_zero_at_zeros :
    zeros.map (atZero zeros) = [2, 2, 0, 1] ∧
    ∃ corpus found, ofList zeros = .ok corpus ∧ corpus.neighbors 2 .zeroDistance = .ok found ∧
      0 ∉ found.map Nearest.query ∧ 2 ∈ found.map Nearest.query ∧
      ∀ n ∈ found, n.IsLeastApart zeros := by
  have hcounts : zeros.map (atZero zeros) = [2, 2, 0, 1] := by decide +kernel
  obtain ⟨corpus, hcorpus⟩ : ∃ corpus, ofList zeros = .ok corpus := ⟨_, rfl⟩
  obtain ⟨found, hfound, -, hleast, hqueries⟩ := neighbors_pass_over_zero hcorpus 2
  obtain ⟨hfirst, -, hthird, -⟩ : _ ∧ _ ∧ _ ∧ _ := by simpa only [zeros, List.map_cons,
    List.cons.injEq] using hcounts
  refine ⟨hcounts, corpus, found, hcorpus, hfound, ?_, ?_, hleast⟩
  · rw [hqueries 0 _ rfl]
    exact Nat.not_lt.mpr (Nat.le_of_eq hfirst.symm)
  · rw [hqueries 2 _ rfl]
    exact hthird ▸ (by decide : 0 < min 2 4)

end Corpus

end NearNotes
