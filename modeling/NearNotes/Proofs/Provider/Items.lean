import Mathlib
import NearNotes.Provider.Embed
import NearNotes.Remote.Basic

/-!
# Items and their places

A remote source takes several texts together and answers with items in any order, each for a place.
The items are counted and put in the order of their places, but nothing looks at the places
themselves.

* `Remote.Sorts` : items in the order of their places; `Remote.sorts_mergeSort` ;
* `Remote.Fills` : the items are for every place once; `Remote.Sorts.map_index` : just then every
  item comes to stand at its place, `Remote.Sorts.getElem?_of_fills` and
  `Remote.Sorts.exists_misplaced` ;
* `Remote.items_of_body`, `Remote.embedMany_of_items` : the answer to several texts;
* `Remote.batch_by_place` : what a batch comes to. Where the items do not fill the places, it
  still succeeds and hands out a vector for a text that it is not for.
-/

namespace NearNotes

namespace Remote

/-- The items in the order of their places. Those for one place keep their order. -/
structure Sorts (items sorted : List Item) : Prop where
  perm : sorted.Perm items
  ordered : sorted.Pairwise fun a b => a.index ≤ b.index
  stable : ∀ place, sorted.filter (·.index = place) = items.filter (·.index = place)

def Fills (items : List Item) (n : Nat) : Prop := (items.map Item.index).Perm (List.range n)

instance (items : List Item) (n : Nat) : Decidable (Fills items n) :=
  inferInstanceAs (Decidable (List.Perm _ _))

section Sorting

variable {items sorted : List Item} {n : Nat}

theorem sorts_mergeSort (items : List Item) :
    Sorts items (items.mergeSort fun a b => a.index ≤ b.index) := by
  have htrans : ∀ a b c : Item, decide (a.index ≤ b.index) = true →
      decide (b.index ≤ c.index) = true → decide (a.index ≤ c.index) = true := by
    simpa using fun a b c : Item => Nat.le_trans
  have htotal : ∀ a b : Item, (decide (a.index ≤ b.index) || decide (b.index ≤ a.index)) = true := by
    simpa using fun a b : Item => Nat.le_total a.index b.index
  have hperm := List.mergeSort_perm items fun a b : Item => a.index ≤ b.index
  refine ⟨hperm, by simpa using List.pairwise_mergeSort htrans htotal items, fun place => ?_⟩
  -- the items for one place are ordered as they stand, so the sort keeps them in this order
  have hsame : (items.filter (·.index = place)).Pairwise fun a b => decide (a.index ≤ b.index) := by
    refine List.pairwise_of_forall_mem_list fun a ha b hb => ?_
    simp only [List.mem_filter, decide_eq_true_eq] at ha hb
    simp [ha.2, hb.2]
  have hsub := (List.sublist_mergeSort htrans htotal hsame List.filter_sublist).filter
    (·.index = place)
  rw [List.filter_filter] at hsub
  simp only [Bool.and_self] at hsub
  exact (hsub.eq_of_length (hperm.filter _).length_eq.symm).symm

theorem Sorts.map_index (h : Sorts items sorted) :
    sorted.map Item.index = List.range n ↔ Fills items n := by
  have hperm := h.perm.map Item.index
  constructor
  · intro heq
    rw [heq] at hperm
    exact hperm.symm
  · intro hfills
    exact (hperm.trans hfills).eq_of_pairwise (fun a b _ _ => Nat.le_antisymm)
      (List.pairwise_map.mpr h.ordered) List.pairwise_le_range

theorem Sorts.getElem?_of_fills (h : Sorts items sorted) (hfills : Fills items n) {item : Item}
    (hitem : item ∈ items) : sorted[item.index]? = some item := by
  obtain ⟨place, hplace⟩ := List.getElem?_of_mem (h.perm.mem_iff.mpr hitem)
  have hindex : (List.range n)[place]? = some item.index := by
    rw [← h.map_index.mpr hfills, List.getElem?_map, hplace, Option.map_some]
  obtain ⟨hlt, hget⟩ := List.getElem?_eq_some_iff.mp hindex
  rw [List.getElem_range] at hget
  rw [← hget]
  exact hplace

/-- Where the items do not fill the places, one of them comes to stand at a place it is not for. -/
theorem Sorts.exists_misplaced (h : Sorts items sorted) (hlength : items.length = n)
    (hfills : ¬Fills items n) :
    ∃ place, ∃ item : Item, sorted[place]? = some item ∧ item.index ≠ place := by
  by_contra hnone
  push Not at hnone
  refine hfills (h.map_index.mp (List.ext_getElem? fun place => ?_))
  rw [List.getElem?_map]
  cases hitem : sorted[place]? with
  | some item =>
      have hlt : place < n := by
        rw [← hlength, ← h.perm.length_eq]
        exact (List.getElem?_eq_some_iff.mp hitem).1
      rw [Option.map_some, hnone place item hitem, List.getElem?_range hlt]
  | none =>
      have hle : n ≤ place := by
        rw [← hlength, ← h.perm.length_eq]
        exact List.getElem?_eq_none_iff.mp hitem
      rw [Option.map_none, eq_comm, List.getElem?_eq_none_iff, List.length_range]
      exact hle

end Sorting

section Batch

variable {r : Remote} {network : Network} {earlier : Nat} {texts : List String}
  {request : HttpRequest} {response : HttpResponse} {items : List Item}

theorem items_of_body {input : Input} (hrequest : r.request input = .ok request)
    (hanswer : network request earlier = .answered response)
    (hstatus : 200 ≤ response.status ∧ response.status < 300)
    (hbody : response.body?.bind items? = some items) :
    r.items network earlier input = .ok items := by
  have hlimit : response.status ≠ 429 := by omega
  have hfails : ¬(response.status < 200 ∨ 300 ≤ response.status) := by omega
  have hread : response.items = .ok items := by
    rw [HttpResponse.items, if_neg hlimit, if_neg hfails, hbody]
  rw [Remote.items, hrequest]
  simp only [bind, Except.bind, hanswer, hread]

theorem embedMany_of_items (h : r.items network earlier (.many texts) = .ok items) :
    r.embedMany network earlier texts =
      if items.length = texts.length then
        .ok ((items.mergeSort fun a b => a.index ≤ b.index).map Item.embedding)
      else .error (.invalidResponse s!"expected {texts.length} embeddings, got {items.length}") := by
  rw [embedMany, h]
  simp only [bind, Except.bind]
  by_cases hlength : items.length = texts.length
  · rw [if_pos hlength, if_neg (not_not_intro hlength)]
    rfl
  · rw [if_neg hlength, if_pos hlength]
    rfl

/-- **A batch is put together by place, and places are not looked at.** Where a success answer does
not have as many items as there are texts, that is the error. Otherwise the vectors are those of the
items in the order of their places: the right ones if the items fill the places. If they do not, the
batch still succeeds, with the vector of an item at a place that the item is not for. -/
theorem batch_by_place (network : Network) (s : Session) (htexts : texts ≠ [])
    (hrequest : r.request (.many texts) = .ok request)
    (hanswer : network request s.log.length = .answered response)
    (hstatus : 200 ≤ response.status ∧ response.status < 300)
    (hbody : response.body?.bind items? = some items) :
    (items.length ≠ texts.length →
      ((Provider.source (r.source network)).embedAll texts s).2 = some (.error
        (.invalidResponse s!"expected {texts.length} embeddings, got {items.length}"))) ∧
    (items.length = texts.length → ∃ sorted, Sorts items sorted ∧
      ((Provider.source (r.source network)).embedAll texts s).2 =
        some (.ok (sorted.map Item.embedding)) ∧
      (Fills items texts.length → ∀ item ∈ items,
        (sorted.map Item.embedding)[item.index]? = some item.embedding) ∧
      (¬Fills items texts.length → ∃ place, ∃ item : Item,
        sorted[place]? = some item ∧ item.index ≠ place)) := by
  have hbatch : ((Provider.source (r.source network)).embedAll texts s).2 =
      some (r.embedMany network s.log.length texts) := by
    obtain ⟨text, rest, rfl⟩ := List.exists_cons_of_ne_nil htexts
    rfl
  rw [hbatch, embedMany_of_items (items_of_body hrequest hanswer hstatus hbody)]
  refine ⟨fun hlength => by rw [if_neg hlength], fun hlength => ?_⟩
  have hsorts := sorts_mergeSort items
  refine ⟨_, hsorts, by rw [if_pos hlength], fun hfills item hitem => ?_,
    hsorts.exists_misplaced hlength⟩
  rw [List.getElem?_map, hsorts.getElem?_of_fills hfills hitem, Option.map_some]

end Batch

/-! ## Two texts and two items -/

def atHost : Remote := { key := some "k", baseUrl := "http://h" }

theorem request_atHost (input : Input) : atHost.request input =
    .ok ⟨⟨false, "h", 80, "/embeddings"⟩, "Bearer k", atHost.body input⟩ := by
  have haddress : Url.parse? (atHost.baseUrl ++ "/embeddings") =
      some ⟨false, "h", 80, "/embeddings"⟩ := by cbv
  rw [request, haddress]
  rfl

/-- A success answer with two vectors of one element each, for these places. -/
def answerFor (first second : String) : HttpResponse where
  status := 200
  body := Text.utf8Bytes ("\x7b\"data\":[\x7b\"embedding\":[1],\"index\":" ++ first ++
    "\x7d,\x7b\"embedding\":[2],\"index\":" ++ second ++ "\x7d]\x7d")

/-- Two items that come in the other order. -/
theorem batch_by_place_swapped :
    ∃ vectors, ((Provider.source (atHost.source fun _ _ => .answered (answerFor "1" "0"))).embedAll
        ["a", "b"] {}).2 = some (.ok vectors) ∧
      vectors[0]? = some [⟨0x4000000000000000⟩] ∧ vectors[1]? = some [⟨0x3ff0000000000000⟩] := by
  have hbody : (answerFor "1" "0").body?.bind items? =
      some [⟨[⟨0x3ff0000000000000⟩], 1⟩, ⟨[⟨0x4000000000000000⟩], 0⟩] := by decide +kernel
  obtain ⟨sorted, -, hbatch, hplaces, -⟩ :=
    (batch_by_place (fun _ _ => .answered (answerFor "1" "0")) {} (by simp)
      (request_atHost (.many ["a", "b"])) rfl (by decide) hbody).2 rfl
  have hplaces := hplaces (by decide)
  exact ⟨_, hbatch, hplaces ⟨[⟨0x4000000000000000⟩], 0⟩ (by simp),
    hplaces ⟨[⟨0x3ff0000000000000⟩], 1⟩ (by simp)⟩

/-- Two items for one place: the second text is given a vector that is not for it. -/
theorem batch_with_a_place_twice :
    ∃ items, (answerFor "0" "0").body?.bind items? = some items ∧ ¬Fills items 2 ∧
      ((Provider.source (atHost.source fun _ _ => .answered (answerFor "0" "0"))).embedAll
        ["a", "b"] {}).2 = some (.ok [[⟨0x3ff0000000000000⟩], [⟨0x4000000000000000⟩]]) := by
  have hbody : (answerFor "0" "0").body?.bind items? =
      some [⟨[⟨0x3ff0000000000000⟩], 0⟩, ⟨[⟨0x4000000000000000⟩], 0⟩] := by decide +kernel
  have hitems : atHost.items (fun _ _ => .answered (answerFor "0" "0")) 0 (.many ["a", "b"]) = _ :=
    items_of_body (request_atHost _) rfl (by decide) hbody
  refine ⟨_, hbody, by decide, congrArg some ((embedMany_of_items hitems).trans ?_)⟩
  rw [List.mergeSort_of_pairwise (by simp)]
  rfl

end Remote

end NearNotes
