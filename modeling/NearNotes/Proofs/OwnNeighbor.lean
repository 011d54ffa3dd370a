import Mathlib
import NearNotes.Proofs.Neighbors

/-!
# Vectors that are their own neighbours

Where all that is at distance zero is passed over, a vector is told from others by its distance from
itself. That is zero if all of its elements are finite, and NaN, which is no zero, if one is not.

* `Unplaced` : no distance from the vector is a number;
* `Corpus.own_of_mem_neighbors` : only the first vector can be its own neighbour, and only if it is
  unplaced;
* `Corpus.exists_own_neighbor` : an unplaced first vector is its own neighbour;
* `Corpus.own_neighbors` : when there is such a row, and what a search among one vector comes to.
-/

namespace NearNotes

def Unplaced (vectors : List Embedding) (v : Embedding) : Prop :=
  ∀ w ∈ vectors, ∀ d, squaredL2 v w = .ok d → d.isNaN = true

namespace Corpus

variable {vectors : List Embedding} {corpus : Corpus} {k : Nat} {policy : SelfMatch}
  {found : List Nearest} {n : Nearest} {v : Embedding}

/-- Only a vector with an element that is not finite is not passed over as its own, and only where
distance zero is. -/
theorem not_isFinite_of_own (hother : policy.isSelf n.query ⟨n.query, sumSquares v v⟩ = false) :
    policy = .zeroDistance ∧ ∃ x ∈ v, x.isFinite = false := by
  cases policy with
  | sameId => simp [SelfMatch.isSelf] at hother
  | zeroDistance =>
      refine ⟨rfl, ?_⟩
      by_contra hall
      have hzero := isZero_sumSquares_self (v := v) (by simpa using hall)
      rw [show (sumSquares v v).isZero = false from hother] at hzero
      cases hzero

/-- A row that names its own vector passed over distance zero. It is that of the first vector, which
has an element that is not finite, and no distance from it is a number. -/
theorem own_of_mem_neighbors (h : corpus.neighbors k policy = .ok found) (hn : n ∈ found)
    (hown : n.neighbor = n.query) :
    policy = .zeroDistance ∧ n.query = 0 ∧ n.distance.isNaN = true ∧
      ∃ v, corpus.vectors[0]? = some v ∧ (∃ x ∈ v, x.isFinite = false) ∧
        Unplaced corpus.vectors v := by
  obtain ⟨v, w, hv, hw, hdistance, hother, hleast⟩ := neighbors_least h hn
  rw [hown, hv, Option.some.injEq] at hw
  subst hw
  rw [squaredL2_of_length_eq rfl, Except.ok.injEq] at hdistance
  rw [hown, ← hdistance] at hother hleast
  obtain ⟨rfl, hinfinite⟩ := not_isFinite_of_own hother
  have hnan := isNaN_sumSquares_self hinfinite
  -- No distance is zero, so all count; as they come no earlier than NaN, they are NaN as well.
  have hall : ∀ (id : Nat) u, corpus.vectors[id]? = some u →
      (sumSquares v u).isNaN = true ∧ n.query ≤ id := by
    intro id u hu
    obtain ⟨d, hd, hbefore⟩ := hleast u id hu
    rw [squaredL2_of_getElem? hv hu, Except.ok.injEq] at hd
    subst hd
    have hapart := isZero_sumSquares_of_not_isFinite
      ((corpus.uniform v (List.mem_of_getElem? hv)).trans
        (corpus.uniform u (List.mem_of_getElem? hu)).symm) hinfinite
    have hbefore := Scored.before_iff.mp (hbefore hapart)
    have htop := (sumSquares v u).rank_le_nan
    simp only [Binary64.rank_of_isNaN hnan] at hbefore
    exact ⟨Binary64.isNaN_of_rank (by omega), by omega⟩
  have hpos : 0 < corpus.vectors.length :=
    (Nat.zero_le _).trans_lt (List.getElem?_eq_some_iff.mp hv).1
  have hzero : n.query = 0 := Nat.le_zero.mp (hall 0 _ (List.getElem?_eq_getElem hpos)).2
  refine ⟨rfl, hzero, hdistance ▸ hnan, v, hzero ▸ hv, hinfinite, fun u hu d hd => ?_⟩
  obtain ⟨id, hid⟩ := List.getElem?_of_mem hu
  rw [squaredL2_of_getElem? hv hid, Except.ok.injEq] at hd
  exact hd ▸ (hall id u hid).1

theorem ranked_of_unplaced (hv : corpus.vectors[0]? = some v)
    (hunplaced : Unplaced corpus.vectors v) :
    ∃ rest, corpus.ranked v = ⟨0, sumSquares v v⟩ :: rest := by
  have hself : (⟨0, sumSquares v v⟩ : Scored) ∈ corpus.ranked v := mem_ranked.mpr ⟨v, hv, rfl⟩
  have hnan : ∀ hit ∈ corpus.ranked v, hit.distance.rank = Binary64.signBit := by
    intro hit hmem
    obtain ⟨w, hw, hd⟩ := mem_ranked.mp hmem
    refine Binary64.rank_of_isNaN (hunplaced w (List.mem_of_getElem? hw) _ ?_)
    rw [squaredL2_of_getElem? hv hw, hd]
  obtain ⟨best, rest, hranked⟩ := List.exists_cons_of_ne_nil (List.ne_nil_of_mem hself)
  have hhead : best ∈ (corpus.ranked v).take 1 := by simp [hranked]
  obtain ⟨hmem, hfirst⟩ := before_of_mem_take_one (corpus.pairwise_ranked v) hhead
  obtain ⟨w, hw, hd⟩ := mem_ranked.mp hmem
  have hid : best.id = 0 := by
    have hbefore := Scored.before_iff.mp (hfirst _ hself)
    rw [hnan best hmem, hnan _ hself] at hbefore
    simpa using hbefore
  rw [hid, hv, Option.some.injEq] at hw
  subst hw
  have hbest : best = ⟨0, sumSquares v v⟩ := by rw [← hid, ← hd]
  exact ⟨rest, hbest ▸ hranked⟩

theorem exists_own_neighbor (h : corpus.neighbors k .zeroDistance = .ok found) (hk : 0 < k)
    (hv : corpus.vectors[0]? = some v) (hunplaced : Unplaced corpus.vectors v) :
    ∃ n ∈ found, n.neighbor = n.query := by
  obtain ⟨rest, hranked⟩ := ranked_of_unplaced hv hunplaced
  obtain ⟨k, rfl⟩ : ∃ j, k = j + 1 := ⟨k - 1, by omega⟩
  have hnan : (sumSquares v v).isNaN = true :=
    hunplaced v (List.mem_of_getElem? hv) _ (squaredL2_of_length_eq rfl)
  have hapart : (sumSquares v v).isZero = false := by
    rw [Bool.eq_false_iff, Ne, Binary64.isZero_iff_rank, Binary64.rank_of_isNaN hnan]
    decide
  refine ⟨⟨0, 0, sumSquares v v⟩, (mem_neighbors h).mpr ⟨v, hv, ?_⟩, rfl⟩
  rw [hranked, List.take_succ_cons, List.find?_cons_of_pos]
  simp [SelfMatch.isSelf, hapart]

/-- A vector alone is unplaced if it has an element that is not finite. -/
theorem unplaced_singleton : Unplaced [v] v ↔ ∃ x ∈ v, x.isFinite = false := by
  have hself : Unplaced [v] v ↔ (sumSquares v v).isNaN = true := by
    simp [Unplaced, squaredL2_of_length_eq]
  rw [hself]
  constructor
  · intro hnan
    by_contra hall
    have hzero := isZero_sumSquares_self (v := v) (by simpa using hall)
    rw [Binary64.isZero_iff_rank, Binary64.rank_of_isNaN hnan] at hzero
    exact absurd hzero (by decide)
  · exact isNaN_sumSquares_self

theorem own_of_singleton (h : corpus.neighbors k policy = .ok found) (hvectors : corpus.vectors = [v])
    (hn : n ∈ found) : n.neighbor = n.query := by
  obtain ⟨u, w, hu, hw, -⟩ := neighbors_least h hn
  have hquery := (List.getElem?_eq_some_iff.mp hu).1
  have hneighbor := (List.getElem?_eq_some_iff.mp hw).1
  rw [hvectors, List.length_singleton, Nat.lt_one_iff] at hquery hneighbor
  rw [hquery, hneighbor]

/-- **Vectors that are their own neighbours.** A search of accepted vectors for their neighbours never
fails. A row that names its own vector is that of the first one, has no distance, and the vector has an
element that is infinite or NaN. There is such a row exactly if distance zero is passed over, some hits
are asked for and no distance from the first vector is a number. One vector alone has no row otherwise. -/
theorem own_neighbors (hcorpus : ofList vectors = .ok corpus) (k : Nat) (policy : SelfMatch) :
    ∃ found, corpus.neighbors k policy = .ok found ∧
      (∀ n ∈ found, n.neighbor = n.query → n.query = 0 ∧ n.distance.isNaN = true ∧
        ∃ v, vectors[0]? = some v ∧ ∃ x ∈ v, x.isFinite = false) ∧
      ((∃ n ∈ found, n.neighbor = n.query) ↔
        policy = .zeroDistance ∧ 0 < k ∧ ∃ v, vectors[0]? = some v ∧ Unplaced vectors v) ∧
      ∀ v, vectors = [v] → (found ≠ [] ↔
        policy = .zeroDistance ∧ 0 < k ∧ ∃ x ∈ v, x.isFinite = false) := by
  obtain rfl := vectors_of_ofList hcorpus
  have hfound := neighbors_eq corpus k policy
  have hexists : (∃ n ∈ pickOthers policy (corpus.vectors.map fun v => (corpus.ranked v).take k),
      n.neighbor = n.query) ↔
        policy = .zeroDistance ∧ 0 < k ∧
          ∃ v, corpus.vectors[0]? = some v ∧ Unplaced corpus.vectors v := by
    constructor
    · rintro ⟨n, hn, hown⟩
      obtain ⟨hpolicy, -, -, v, hv, -, hunplaced⟩ := own_of_mem_neighbors hfound hn hown
      refine ⟨hpolicy, Nat.pos_of_ne_zero ?_, v, hv, hunplaced⟩
      rintro rfl
      obtain ⟨v, -, hnone⟩ := (mem_neighbors hfound).mp hn
      cases hnone
    · rintro ⟨rfl, hk, v, hv, hunplaced⟩
      exact exists_own_neighbor hfound hk hv hunplaced
  refine ⟨_, hfound, fun n hn hown => ?_, hexists, fun v hvectors => ?_⟩
  · obtain ⟨-, hquery, hnan, v, hv, hinfinite, -⟩ := own_of_mem_neighbors hfound hn hown
    exact ⟨hquery, hnan, v, hv, hinfinite⟩
  · have hrows : pickOthers policy (corpus.vectors.map fun v => (corpus.ranked v).take k) ≠ [] ↔
        ∃ n ∈ pickOthers policy (corpus.vectors.map fun v => (corpus.ranked v).take k),
          n.neighbor = n.query := by
      refine ⟨fun hne => ?_, fun ⟨n, hn, _⟩ => List.ne_nil_of_mem hn⟩
      obtain ⟨n, hn⟩ := List.exists_mem_of_ne_nil _ hne
      exact ⟨n, hn, own_of_singleton hfound hvectors hn⟩
    rw [hrows, hexists, hvectors]
    simp [unplaced_singleton]

/-- The vector that is no number comes before the twins, and is its own neighbour. -/
theorem own_neighbors_at_twins :
    ∃ corpus found, ofList twins = .ok corpus ∧ corpus.neighbors 2 .zeroDistance = .ok found ∧
      ∃ n ∈ found, n.neighbor = n.query ∧ n.query = 0 := by
  obtain ⟨corpus, hcorpus⟩ : ∃ corpus, ofList twins = .ok corpus := ⟨_, rfl⟩
  obtain ⟨found, hfound, hrow, hexists, -⟩ := own_neighbors hcorpus 2 .zeroDistance
  have hunplaced : Unplaced twins [⟨0x7FF8000000000000⟩] := by
    have hnan : ∀ w ∈ twins, (squaredL2 [⟨0x7FF8000000000000⟩] w).toOption.all Binary64.isNaN := by
      decide +kernel
    intro w hw d hd
    simpa [hd, Except.toOption] using hnan w hw
  obtain ⟨n, hn, hown⟩ := hexists.mpr ⟨rfl, by decide, _, rfl, hunplaced⟩
  exact ⟨corpus, found, hcorpus, hfound, n, hn, hown, (hrow n hn hown).1⟩

/-- A single vector with an infinite element is paired with itself. -/
theorem infinite_own_neighbor :
    ∃ corpus found, ofList [[⟨0x7FF0000000000000⟩]] = .ok corpus ∧
      corpus.neighbors 1 .zeroDistance = .ok found ∧ ∃ n ∈ found, n.neighbor = n.query := by
  obtain ⟨corpus, hcorpus⟩ : ∃ corpus, ofList [[⟨0x7FF0000000000000⟩]] = .ok corpus := ⟨_, rfl⟩
  have hvectors := vectors_of_ofList hcorpus
  have hunplaced : Unplaced corpus.vectors [⟨0x7FF0000000000000⟩] := by
    rw [hvectors]
    exact unplaced_singleton.mpr ⟨_, List.mem_cons_self, by decide⟩
  have hfound := neighbors_eq corpus 1 .zeroDistance
  exact ⟨corpus, _, hcorpus, hfound,
    exists_own_neighbor hfound (by decide) (by rw [hvectors]; rfl) hunplaced⟩

end Corpus

end NearNotes
