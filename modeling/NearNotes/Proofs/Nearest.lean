import Mathlib
import NearNotes.Proofs.Results
import NearNotes.Vector.Corpus

/-!
# The nearest other vector

The neighbours of a corpus, where only the vector itself is passed over.

* `Scored.before_total`, `Scored.before_trans` : the ranking is an order;
* `Corpus.ranked` : all vectors in their order from a query; `Corpus.nearest_eq` : a search takes
  the first of them;
* `find?_other` : two hits are enough to find the nearest other vector;
* `Nearest.IsLeast` : what it means to be the nearest other vector;
* `Corpus.neighbors_sameId` : every vector of two or more has its nearest other one, in order;
  `Corpus.neighbors_of_small` : fewer have none.
-/

namespace NearNotes

/-! ## The ranking -/

namespace Scored

theorem before_iff {x y : Scored} : x.before y = true ↔
    x.distance.rank < y.distance.rank ∨ x.distance.rank = y.distance.rank ∧ x.id ≤ y.id := by
  simp [before]

theorem before_refl (x : Scored) : x.before x = true := by simp [before]

theorem before_total (x y : Scored) : (x.before y || y.before x) = true := by
  rw [Bool.or_eq_true, before_iff, before_iff]
  omega

theorem before_trans (x y z : Scored) (hxy : x.before y = true) (hyz : y.before z = true) :
    x.before z = true := by
  rw [before_iff] at *
  omega

end Scored

/-- Every candidate with its distance, numbered from `first` on. -/
def scores (query : Embedding) (first : Nat) (candidates : List Embedding) : List Scored :=
  (candidates.zipIdx first).map fun (candidate, id) => ⟨id, sumSquares query candidate⟩

theorem squaredL2_of_length_eq {a b : Embedding} (h : a.length = b.length) :
    squaredL2 a b = .ok (sumSquares a b) := by
  simp [squaredL2, h]

theorem scoreFrom_eq {query : Embedding} {candidates : List Embedding}
    (h : ∀ v ∈ candidates, query.length = v.length) (first : Nat) :
    scoreFrom query first candidates = .ok (scores query first candidates) := by
  induction candidates generalizing first with
  | nil => rfl
  | cons v rest ih =>
      have hrest := ih (fun u hu => h u (List.mem_cons_of_mem v hu)) (first + 1)
      rw [scoreFrom, squaredL2_of_length_eq (h v List.mem_cons_self), hrest]
      rfl

theorem map_id_scores (query : Embedding) (first : Nat) (candidates : List Embedding) :
    (scores query first candidates).map Scored.id = List.range' first candidates.length := by
  rw [scores, List.map_map, ← List.zipIdx_map_snd]
  rfl

theorem mem_scores {query : Embedding} {candidates : List Embedding} {hit : Scored} :
    hit ∈ scores query 0 candidates ↔
      ∃ v, candidates[hit.id]? = some v ∧ hit.distance = sumSquares query v := by
  rw [scores, List.mem_map]
  constructor
  · rintro ⟨⟨v, id⟩, hmem, rfl⟩
    exact ⟨v, by simpa using List.mem_zipIdx_iff_getElem?.mp hmem, rfl⟩
  · rintro ⟨v, hv, hdistance⟩
    refine ⟨(v, hit.id), List.mem_zipIdx_iff_getElem?.mpr (by simpa using hv), ?_⟩
    exact congrArg (Scored.mk hit.id) hdistance.symm

/-! ## Searching -/

theorem getElem?_filterMap_of_isSome {α β : Type} {f : α → Option β} {l : List α}
    (h : ∀ a ∈ l, (f a).isSome) (i : Nat) : (l.filterMap f)[i]? = l[i]?.bind f := by
  induction l generalizing i with
  | nil => rfl
  | cons a l ih =>
      obtain ⟨b, hb⟩ := Option.isSome_iff_exists.mp (h a List.mem_cons_self)
      rw [List.filterMap_cons_some hb]
      cases i with
      | zero => exact hb.symm
      | succ i => exact ih (fun a' ha' => h a' (List.mem_cons_of_mem a ha')) i

/-- In a ranking of two or more, the first two have the first hit that is not the query's own, and
no other hit that is not comes before it. -/
theorem find?_other {l : List Scored} (hsorted : l.Pairwise fun x y => x.before y = true)
    (hids : (l.map Scored.id).Nodup) (hlength : 2 ≤ l.length) {k : Nat} (hk : 2 ≤ k)
    (query : Nat) :
    ∃ best ∈ l, (l.take k).find? (fun hit => !SelfMatch.sameId.isSelf query hit) = some best ∧
      best.id ≠ query ∧ ∀ hit ∈ l, hit.id ≠ query → best.before hit = true := by
  obtain ⟨k, rfl⟩ : ∃ j, k = j + 2 := ⟨k - 2, by omega⟩
  match l, hlength with
  | a :: b :: rest, _ =>
      obtain ⟨ha, hb, -⟩ : (∀ hit ∈ b :: rest, a.before hit = true) ∧
          (∀ hit ∈ rest, b.before hit = true) ∧ _ := by
        simpa only [List.pairwise_cons] using hsorted
      by_cases hself : a.id = query
      · have hother : b.id ≠ query := by
          intro heq
          simp [hself, heq] at hids
        refine ⟨b, by simp, ?_, hother, fun hit hmem hne => ?_⟩
        · simp [SelfMatch.isSelf, hself, hother]
        · rcases List.mem_cons.mp hmem with rfl | hmem
          · exact absurd hself hne
          · rcases List.mem_cons.mp hmem with rfl | hmem
            · exact hit.before_refl
            · exact hb hit hmem
      · refine ⟨a, by simp, ?_, hself, fun hit hmem _ => ?_⟩
        · simp [SelfMatch.isSelf, hself]
        · rcases List.mem_cons.mp hmem with rfl | hmem
          · exact hit.before_refl
          · exact ha hit hmem

/-- The neighbour is another vector than the query, at this distance, and no other vector comes
before it: none is nearer, and none at one distance has a smaller number. -/
structure Nearest.IsLeast (n : Nearest) (vectors : List Embedding) : Prop where
  other : n.neighbor ≠ n.query
  distance : ∃ v w, vectors[n.query]? = some v ∧ vectors[n.neighbor]? = some w ∧
    squaredL2 v w = .ok n.distance
  least : ∀ v w id, vectors[n.query]? = some v → vectors[id]? = some w → id ≠ n.query →
    ∃ d, squaredL2 v w = .ok d ∧
      (n.distance.rank < d.rank ∨ n.distance.rank = d.rank ∧ n.neighbor ≤ id)

namespace Corpus

/-- All vectors in their order from a query. -/
def ranked (corpus : Corpus) (query : Embedding) : List Scored :=
  (scores query 0 corpus.vectors).mergeSort Scored.before

theorem pairwise_ranked (corpus : Corpus) (query : Embedding) :
    (corpus.ranked query).Pairwise fun x y => x.before y = true :=
  List.pairwise_mergeSort Scored.before_trans Scored.before_total _

theorem ranked_perm (corpus : Corpus) (query : Embedding) :
    (corpus.ranked query).Perm (scores query 0 corpus.vectors) :=
  List.mergeSort_perm _ _

theorem nodup_id_ranked (corpus : Corpus) (query : Embedding) :
    ((corpus.ranked query).map Scored.id).Nodup := by
  rw [((corpus.ranked_perm query).map Scored.id).nodup_iff, map_id_scores]
  exact List.nodup_range'

theorem length_ranked (corpus : Corpus) (query : Embedding) :
    (corpus.ranked query).length = corpus.size := by
  rw [(corpus.ranked_perm query).length_eq, scores, List.length_map, List.length_zipIdx]
  rfl

theorem mem_ranked {corpus : Corpus} {query : Embedding} {hit : Scored} :
    hit ∈ corpus.ranked query ↔
      ∃ v, corpus.vectors[hit.id]? = some v ∧ hit.distance = sumSquares query v := by
  rw [(corpus.ranked_perm query).mem_iff, mem_scores]

/-- A search for a query of the right length takes the first vectors in their order. -/
theorem nearest_eq {corpus : Corpus} {query : Embedding} (h : query.length = corpus.dimension)
    (k : Nat) : corpus.nearest query k = .ok ((corpus.ranked query).take k) := by
  have hlengths : ∀ v ∈ corpus.vectors, query.length = v.length :=
    fun v hv => h.trans (corpus.uniform v hv).symm
  unfold nearest
  split
  · rename_i hempty
    have hnil : corpus.vectors = [] := List.isEmpty_iff.mp hempty
    simp [ranked, scores, hnil]
  · rw [if_neg (not_not.mpr h), topK, scoreFrom_eq hlengths]
    rfl

theorem neighbors_eq (corpus : Corpus) (k : Nat) (policy : SelfMatch) :
    corpus.neighbors k policy =
      .ok (pickOthers policy (corpus.vectors.map fun v => (corpus.ranked v).take k)) := by
  have hsearch : ∀ v ∈ corpus.vectors,
      corpus.nearest v k = .ok ((corpus.ranked v).take k) :=
    fun v hv => nearest_eq (corpus.uniform v hv) k
  rw [neighbors, nearestEach, mapM_eq_ok_map hsearch]
  rfl

/-- Every vector of two or more has its nearest other one, and they come in order. -/
theorem neighbors_sameId (corpus : Corpus) {k : Nat} (hk : 2 ≤ k) (hsize : 2 ≤ corpus.size) :
    ∃ found, corpus.neighbors k .sameId = .ok found ∧ found.length = corpus.size ∧
      ∀ (i : Nat) n, found[i]? = some n → n.query = i ∧ n.IsLeast corpus.vectors := by
  have hbest : ∀ v (query : Nat), ∃ best ∈ corpus.ranked v,
      ((corpus.ranked v).take k).find? (fun hit => !SelfMatch.sameId.isSelf query hit) =
          some best ∧
        best.id ≠ query ∧ ∀ hit ∈ corpus.ranked v, hit.id ≠ query → best.before hit = true :=
    fun v query => find?_other (corpus.pairwise_ranked v) (corpus.nodup_id_ranked v)
      (corpus.length_ranked v ▸ hsize) hk query
  have hsome : ∀ row ∈ (corpus.vectors.map fun v => (corpus.ranked v).take k).zipIdx,
      ((row.1.find? fun hit => !SelfMatch.sameId.isSelf row.2 hit).map fun hit =>
        (⟨row.2, hit.id, hit.distance⟩ : Nearest)).isSome := by
    intro row hrow
    obtain ⟨v, -, hv⟩ := List.mem_map.mp (List.fst_mem_of_mem_zipIdx hrow)
    obtain ⟨best, -, hfound, -⟩ := hbest v row.2
    rw [← hv, hfound]
    rfl
  refine ⟨_, neighbors_eq corpus k .sameId, ?_, fun i n hn => ?_⟩
  · rw [pickOthers, List.filterMap_length_eq_length.mpr hsome, List.length_zipIdx, List.length_map]
    rfl
  · rw [pickOthers, getElem?_filterMap_of_isSome hsome, List.getElem?_zipIdx, List.getElem?_map]
      at hn
    cases hv : corpus.vectors[i]? with
    | none => simp [hv] at hn
    | some v =>
        obtain ⟨best, hmem, hfound, hother, hleast⟩ := hbest v i
        obtain ⟨w, hw, hdistance⟩ := mem_ranked.mp hmem
        simp only [hv, Option.map_some, Option.bind_some, Nat.zero_add, hfound, Option.some.injEq]
          at hn
        subst hn
        have hlength : ∀ (id : Nat) u, corpus.vectors[id]? = some u → u.length = corpus.dimension :=
          fun id u hu => corpus.uniform u (List.mem_of_getElem? hu)
        refine ⟨rfl, hother, ⟨v, w, hv, hw, ?_⟩, fun v' u id hv' hu hne => ?_⟩
        · rw [squaredL2_of_length_eq ((hlength i v hv).trans (hlength _ w hw).symm), hdistance]
        · cases hv.symm.trans hv'
          refine ⟨sumSquares v u,
            squaredL2_of_length_eq ((hlength i v hv).trans (hlength _ u hu).symm), ?_⟩
          exact Scored.before_iff.mp
            (hleast ⟨id, sumSquares v u⟩ (mem_ranked.mpr ⟨u, hu, rfl⟩) hne)

theorem neighbors_of_small (corpus : Corpus) (k : Nat) (hsize : corpus.size < 2) :
    corpus.neighbors k .sameId = .ok [] := by
  rw [neighbors_eq, Except.ok.injEq, pickOthers, List.filterMap_eq_nil_iff]
  rintro ⟨hits, query⟩ hrow
  have hquery : query = 0 := by
    have := List.snd_lt_of_mem_zipIdx hrow
    rw [List.length_map] at this
    exact Nat.lt_one_iff.mp (this.trans_le (Nat.le_of_lt_succ hsize))
  obtain ⟨v, -, rfl⟩ := List.mem_map.mp (List.fst_mem_of_mem_zipIdx hrow)
  rw [Option.map_eq_none_iff, List.find?_eq_none]
  intro hit hhit
  obtain ⟨u, hu, -⟩ := mem_ranked.mp (List.mem_of_mem_take hhit)
  have hid : hit.id < corpus.size := (List.getElem?_eq_some_iff.mp hu).1
  simp [SelfMatch.isSelf, hquery]
  omega

theorem vectors_of_ofList {vectors : List Embedding} {corpus : Corpus}
    (h : ofList vectors = .ok corpus) : corpus.vectors = vectors := by
  unfold ofList at h
  simp only at h
  split at h
  · cases h
  · cases h
    rfl

theorem ofList_of_uniform {vectors : List Embedding} {length : Nat}
    (h : ∀ v ∈ vectors, v.length = length) : ∃ corpus, ofList vectors = .ok corpus := by
  have hdimension : ∀ v ∈ vectors, v.length = dimensionOf vectors := by
    cases vectors with
    | nil => simp
    | cons first rest => exact fun v hv => (h v hv).trans (h first List.mem_cons_self).symm
  unfold ofList
  simp only
  split
  · rename_i bad hbad
    have hne : bad.length ≠ dimensionOf vectors := by simpa using List.find?_some hbad
    exact absurd (hdimension bad (List.mem_of_find?_eq_some hbad)) hne
  · exact ⟨_, rfl⟩

end Corpus

end NearNotes
