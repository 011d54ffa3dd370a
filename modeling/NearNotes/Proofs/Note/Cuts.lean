import Mathlib
import NearNotes.Note.Section

/-!
# Cuts of a text

Where a text may be cut, and the sections that a row of such places cuts it into.

* `Text.IsPlace` : an offset with whole characters on both sides; `splitAtByte?_append`,
  `slice?_append` : a cut there succeeds; `slice?_eq_some` : what a slice is;
* `sectionBetween?_eq_some` : a section is not empty and stands where it says;
* `sectionsAt_of_places` : places in order are all kept, and `spans_cover`, `sectionsAt_cover` : they cut
  the rest of a text into sections, with nothing left over and nothing twice.
-/

namespace NearNotes

namespace Text

/-- The offset stands between two characters of the text or at one of its ends. -/
def IsPlace (cs : List Char) (offset : Nat) : Prop :=
  ∃ front back, cs = front ++ back ∧ byteLength front = offset

theorem byteLength_pos {cs : List Char} (h : cs ≠ []) : 0 < byteLength cs := by
  obtain ⟨c, cs, rfl⟩ := List.exists_cons_of_ne_nil h
  have := c.utf8Size_pos
  rw [byteLength_cons]
  omega

theorem IsPlace.le {cs : List Char} {offset : Nat} (h : IsPlace cs offset) :
    offset ≤ byteLength cs := by
  obtain ⟨front, back, rfl, rfl⟩ := h
  rw [byteLength_append]
  omega

/-- Of two places in a text, the later one comes after the earlier one and what is between them. -/
theorem between_of_append_eq {front back front' back' : List Char}
    (h : front ++ back = front' ++ back') (hle : byteLength front ≤ byteLength front') :
    ∃ mid, front' = front ++ mid ∧ back = mid ++ back' := by
  rcases List.append_eq_append_iff.mp h with ⟨mid, hfront, hback⟩ | ⟨mid, hfront, hback⟩
  · exact ⟨mid, hfront, hback⟩
  · -- The first place is not the earlier one, so nothing is between them.
    have hmid : mid = [] := by
      by_contra hne
      have := byteLength_pos hne
      rw [hfront, byteLength_append] at hle
      omega
    exact ⟨[], by simp [hfront, hmid], by simp [hback, hmid]⟩

theorem splitAtByte?_append (front back : List Char) :
    splitAtByte? (byteLength front) (front ++ back) = some (front, back) := by
  induction front with
  | nil => cases back <;> rfl
  | cons c front ih =>
      obtain ⟨n, hn⟩ : ∃ n, byteLength (c :: front) = n + 1 :=
        ⟨_, (Nat.succ_pred_eq_of_pos (byteLength_pos (List.cons_ne_nil c front))).symm⟩
      have hrest : n + 1 - c.utf8Size = byteLength front := by
        rw [← hn, byteLength_cons, Nat.add_sub_cancel_left]
      have hfits : c.utf8Size ≤ n + 1 := by
        rw [← hn, byteLength_cons]
        exact Nat.le_add_right _ _
      rw [hn, List.cons_append, splitAtByte?, if_pos hfits, hrest, ih]
      rfl

theorem slice?_append (front mid back : List Char) :
    slice? (front ++ (mid ++ back)) (byteLength front) (byteLength front + byteLength mid)
      = some mid := by
  rw [slice?, if_pos (Nat.le_add_right _ _), splitAtByte?_append]
  simp only [Nat.add_sub_cancel_left]
  rw [splitAtByte?_append]
  rfl

theorem slice?_eq_some {cs text : List Char} {start stop : Nat}
    (h : slice? cs start stop = some text) :
    ∃ front back, cs = front ++ (text ++ back) ∧ byteLength front = start ∧
      start + byteLength text = stop := by
  unfold slice? at h
  split at h
  case isFalse => cases h
  case isTrue hle =>
    split at h
    case h_1 => cases h
    case h_2 front rest hfront =>
      obtain ⟨⟨mid, back⟩, hmid, rfl⟩ := Option.map_eq_some_iff.mp h
      obtain ⟨rfl, hstart⟩ := splitAtByte?_eq_some hfront
      obtain ⟨rfl, hlen⟩ := splitAtByte?_eq_some hmid
      refine ⟨front, back, rfl, hstart, ?_⟩
      show start + byteLength mid = stop
      omega

end Text

open Text

theorem sectionBetween?_eq_some {cs : List Char} {start stop : Nat} {s : Section}
    (h : sectionBetween? cs (start, stop) = some s) :
    s.startOffset = start ∧ s.text ≠ "" ∧ s.endOffset = stop ∧
      ∃ front back, cs = front ++ (s.text.toList ++ back) ∧ byteLength front = s.startOffset := by
  simp only [sectionBetween?] at h
  split at h
  case isTrue => cases h
  case isFalse hlt =>
    obtain ⟨text, hslice, rfl⟩ := Option.map_eq_some_iff.mp h
    obtain ⟨front, back, rfl, rfl, rfl⟩ := slice?_eq_some hslice
    have htext : (String.ofList text).toList = text := String.toList_ofList
    refine ⟨rfl, ?_, ?_, front, back, by rw [htext], rfl⟩
    · intro hempty
      have : text = [] := by rw [← htext]; exact congrArg String.toList hempty
      simp [this] at hlt
    · simp only [Section.endOffset, htext]

theorem sectionBetween?_append (front back : List Char) {mid : List Char} (h : mid ≠ []) :
    sectionBetween? (front ++ (mid ++ back))
        (byteLength front, byteLength front + byteLength mid) =
      some ⟨byteLength front, String.ofList mid⟩ := by
  have := byteLength_pos h
  rw [sectionBetween?, if_neg (by omega), slice?_append]
  rfl

theorem dropRepeats_of_increasing {offsets : List Nat} (h : offsets.Pairwise (· < ·)) :
    dropRepeats offsets = offsets := by
  induction offsets using dropRepeats.induct with
  | case1 => rfl
  | case2 a => rfl
  | case3 a rest ih => simp at h
  | case4 a b rest hne ih => rw [dropRepeats, if_neg hne, ih (List.pairwise_cons.mp h).2]

/-- Places in order, the first of which has `front` before it, cut what comes after it into
sections, one for every place but the end of the text. -/
theorem spans_cover {cs : List Char} {starts : List Nat} :
    ∀ {front back : List Char}, cs = front ++ back →
      (byteLength front :: starts).Pairwise (· < ·) → (∀ a ∈ starts, IsPlace cs a) →
      let cut := (spansUpTo (byteLength cs) (byteLength front :: starts)).filterMap
        (sectionBetween? cs)
      cut.flatMap (·.text.toList) = back ∧
        cut.map Section.startOffset =
          (byteLength front :: starts).filter (· ≠ byteLength cs) := by
  induction starts with
  | nil =>
      rintro front back rfl - -
      by_cases hback : back = []
      · subst hback
        simp [spansUpTo, sectionBetween?]
      · have hlt := byteLength_pos hback
        have hcut := sectionBetween?_append front [] hback
        rw [List.append_nil] at hcut
        simp only [spansUpTo, byteLength_append, List.filterMap_cons, List.filterMap_nil, hcut]
        simp [String.toList_ofList, Nat.ne_of_gt hlt]
  | cons a starts ih =>
      rintro front back rfl hsorted hplaces
      obtain ⟨hfirst, hrest⟩ := List.pairwise_cons.mp hsorted
      obtain ⟨front', back', heq, rfl⟩ := hplaces a List.mem_cons_self
      have hlt := hfirst _ List.mem_cons_self
      obtain ⟨mid, rfl, rfl⟩ := between_of_append_eq heq (Nat.le_of_lt hlt)
      have hmid : mid ≠ [] := by
        rintro rfl
        simp at hlt
      obtain ⟨htexts, hstarts⟩ := ih heq hrest fun b hb => hplaces b (List.mem_cons_of_mem _ hb)
      have hcut := sectionBetween?_append front back' hmid
      have hne : byteLength front ≠ byteLength (front ++ (mid ++ back')) := by
        have := byteLength_pos hmid
        simp only [byteLength_append]
        omega
      simp only [spansUpTo, List.filterMap_cons, byteLength_append] at htexts hstarts hcut hne ⊢
      rw [hcut]
      refine ⟨?_, ?_⟩
      · simp only [List.flatMap_cons, htexts, String.toList_ofList]
      · rw [List.map_cons, hstarts, eq_comm]
        exact List.filter_cons_of_pos (by exact decide_eq_true hne)

theorem sectionsAt_of_places {cs : List Char} {offsets : List Nat}
    (hsorted : offsets.Pairwise (· < ·)) (hplaces : ∀ a ∈ offsets, IsPlace cs a) :
    sectionsAt cs offsets = (spansUpTo (byteLength cs) offsets).filterMap (sectionBetween? cs) := by
  have hwithin : offsets.filter (· ≤ byteLength cs) = offsets :=
    List.filter_eq_self.mpr fun a ha => by simpa using (hplaces a ha).le
  rw [sectionsAt, hwithin, dropRepeats_of_increasing hsorted]

/-- Places in order cut what comes after the first one into sections; what is before it is in
none. -/
theorem sectionsAt_cover {cs : List Char} {offsets : List Nat}
    (hsorted : offsets.Pairwise (· < ·)) (hplaces : ∀ a ∈ offsets, IsPlace cs a) :
    (sectionsAt cs offsets).map Section.startOffset = offsets.filter (· ≠ byteLength cs) ∧
      ∀ first ∈ offsets.head?, ∃ front, byteLength front = first ∧
        front ++ (sectionsAt cs offsets).flatMap (·.text.toList) = cs := by
  rw [sectionsAt_of_places hsorted hplaces]
  cases offsets with
  | nil => simp [spansUpTo]
  | cons a rest =>
      obtain ⟨front, back, rfl, rfl⟩ := hplaces a List.mem_cons_self
      obtain ⟨htexts, hstarts⟩ := spans_cover rfl hsorted fun b hb =>
        hplaces b (List.mem_cons_of_mem _ hb)
      refine ⟨hstarts, fun first hfirst => ⟨front, ?_, by rw [htexts]⟩⟩
      simpa using hfirst

/-- Whatever the offsets, a section is not empty and stands in the text where it says. -/
theorem mem_sectionsAt {cs : List Char} {offsets : List Nat} {s : Section}
    (h : s ∈ sectionsAt cs offsets) :
    s.text ≠ "" ∧
      ∃ front back, cs = front ++ (s.text.toList ++ back) ∧ byteLength front = s.startOffset := by
  obtain ⟨⟨start, stop⟩, -, hcut⟩ := List.mem_filterMap.mp h
  obtain ⟨-, hne, -, hstands⟩ := sectionBetween?_eq_some hcut
  exact ⟨hne, hstands⟩

end NearNotes
