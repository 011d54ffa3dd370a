import Mathlib
import NearNotes.Proofs.Note.Cuts

/-!
# Sections at any offsets

A splitter may name any offsets: in any order, more than once, past the end of the note or inside a
character. What the sections are is said of the offsets as they are named.

* `Text.toUTF8_extract` : a part of a text, in bytes;
* `nextOffset`, `mem_spansUpTo_dropRepeats`, `mem_sectionsAt_iff` : a section goes from a named offset
  up to the next one that counts;
* `dropRepeats_increasing` : of offsets in order the different ones are left, in order;
* `Section.Tile` : sections one behind the other; `Tile.countP_contains` : a byte is in one of them or
  outside of all; `tile_spans` : places in order cut a text so;
* `Splitter.sections_at_any_offsets` : the sections of a note at any offsets.
-/

namespace NearNotes

namespace Text

theorem size_toUTF8 (s : String) : s.toUTF8.size = byteLength s.toList := by
  suffices h : ∀ cs : List Char, cs.utf8Encode.size = byteLength cs by
    rw [← h, ← String.toByteArray_ofList, String.ofList_toList, String.toUTF8]
  intro cs
  induction cs with
  | nil => rfl
  | cons c cs ih =>
      rw [List.utf8Encode_cons, ByteArray.size_append, ih, List.utf8Encode_singleton, byteLength_cons,
        List.size_toByteArray, String.length_utf8EncodeChar]

/-- What stands between two places of a text is what stands there in its bytes. -/
theorem toUTF8_extract {document text : String} {front back : List Char}
    (h : document.toList = front ++ (text.toList ++ back)) :
    document.toUTF8.extract (byteLength front) (byteLength front + byteLength text.toList) =
      text.toUTF8 := by
  have hdocument : document = String.ofList front ++ text ++ String.ofList back := by
    rw [← String.toList_inj, h]
    simp
  have hfront : (String.ofList front).toUTF8.size = byteLength front := by
    rw [size_toUTF8, String.toList_ofList]
  have hbytes : document.toUTF8 =
      (String.ofList front).toUTF8 ++ text.toUTF8 ++ (String.ofList back).toUTF8 := by
    simp only [hdocument, String.toUTF8, String.toByteArray_append]
  have hboth : ((String.ofList front).toUTF8 ++ text.toUTF8).size =
      byteLength front + byteLength text.toList := by
    rw [ByteArray.size_append, hfront, size_toUTF8]
  rw [hbytes, ByteArray.extract_append, hboth, Nat.sub_self,
    ByteArray.extract_append_eq_right hfront.symm (by rw [hfront, size_toUTF8])]
  simp

end Text

open Text

/-! ## Any offsets -/

/-- Where a section goes to from an offset, given the offsets named after it: the first of them within
the text that is another one, or else the end of the text. -/
def nextOffset (length start : Nat) (after : List Nat) : Nat :=
  (after.find? fun a => a ≤ length && a != start).getD length

theorem exists_dropRepeats_cons (a : Nat) (rest : List Nat) :
    ∃ kept, dropRepeats (a :: rest) = a :: kept := by
  induction rest with
  | nil => exact ⟨[], rfl⟩
  | cons b rest ih =>
      rw [dropRepeats]
      split
      case isTrue heq => exact heq ▸ ih
      case isFalse => exact ⟨_, rfl⟩

/-- From every offset on a span goes up to the first of those after it that is another one. -/
theorem mem_spansUpTo_dropRepeats {finish start stop : Nat} {offsets : List Nat} :
    (start, stop) ∈ spansUpTo finish (dropRepeats offsets) ↔
      ∃ after, start :: after <:+ offsets ∧ stop = (after.find? (· != start)).getD finish := by
  induction offsets using dropRepeats.induct with
  | case1 => simp [dropRepeats, spansUpTo]
  | case2 a =>
      rw [dropRepeats, spansUpTo, List.mem_singleton, Prod.mk.injEq]
      constructor
      · rintro ⟨rfl, rfl⟩
        exact ⟨[], List.suffix_refl _, rfl⟩
      · rintro ⟨after, hsuffix, rfl⟩
        rcases List.suffix_cons_iff.mp hsuffix with heq | hnil
        · obtain ⟨rfl, rfl⟩ := List.cons.inj heq
          exact ⟨rfl, rfl⟩
        · cases List.suffix_nil.mp hnil
  | case3 a rest ih =>
      -- The first of two that are equal has the span of the second.
      rw [dropRepeats, if_pos rfl, ih]
      constructor
      · rintro ⟨after, hsuffix, hstop⟩
        exact ⟨after, hsuffix.trans (List.suffix_cons a _), hstop⟩
      · rintro ⟨after, hsuffix, rfl⟩
        rcases List.suffix_cons_iff.mp hsuffix with heq | hrest
        · obtain ⟨rfl, rfl⟩ := List.cons.inj heq
          exact ⟨rest, List.suffix_refl _, by rw [List.find?_cons_of_neg (by simp)]⟩
        · exact ⟨after, hrest, rfl⟩
  | case4 a b rest hne ih =>
      obtain ⟨kept, hkept⟩ := exists_dropRepeats_cons b rest
      have hnext : ((b :: rest).find? (· != a)).getD finish = b := by
        rw [List.find?_cons_of_pos (by simpa using Ne.symm hne), Option.getD_some]
      rw [dropRepeats, if_neg hne, hkept, spansUpTo, ← hkept, List.mem_cons, ih, Prod.mk.injEq]
      constructor
      · rintro (⟨rfl, rfl⟩ | ⟨after, hsuffix, hstop⟩)
        · exact ⟨_, List.suffix_refl _, hnext.symm⟩
        · exact ⟨after, hsuffix.trans (List.suffix_cons a _), hstop⟩
      · rintro ⟨after, hsuffix, rfl⟩
        rcases List.suffix_cons_iff.mp hsuffix with heq | hrest
        · obtain ⟨rfl, rfl⟩ := List.cons.inj heq
          exact .inl ⟨rfl, hnext⟩
        · exact .inr ⟨after, hrest, rfl⟩

/-- The spans between the offsets that count, in terms of all of them. -/
theorem mem_spansUpTo_within {length start stop : Nat} {offsets : List Nat} :
    (start, stop) ∈ spansUpTo length (dropRepeats (offsets.filter (· ≤ length))) ↔
      ∃ after, start :: after <:+ offsets ∧ start ≤ length ∧
        stop = nextOffset length start after := by
  have hnext : ∀ after : List Nat, ((after.filter (· ≤ length)).find? (· != start)).getD length =
      nextOffset length start after := by
    intro after
    rw [List.find?_filter, nextOffset]
    simp only [decide_eq_true_eq, Bool.decide_and, Bool.decide_eq_true]
  rw [mem_spansUpTo_dropRepeats]
  constructor
  · rintro ⟨kept, hsuffix, rfl⟩
    obtain ⟨tail, htail, heq⟩ := List.suffix_filter_iff.mp hsuffix
    obtain ⟨far, after, rfl, -, hstart, rfl⟩ := List.filter_eq_cons_iff.mp heq.symm
    exact ⟨after, (List.suffix_append far _).trans htail, by simpa using hstart, hnext after⟩
  · rintro ⟨after, hsuffix, hstart, rfl⟩
    refine ⟨after.filter (· ≤ length), List.suffix_filter_iff.mpr ⟨_, hsuffix, ?_⟩, (hnext after).symm⟩
    rw [List.filter_cons_of_pos (by simpa using hstart)]

theorem sectionBetween?_eq_some_iff {cs : List Char} {start stop : Nat} {s : Section} :
    sectionBetween? cs (start, stop) = some s ↔
      s.text ≠ "" ∧ s.startOffset = start ∧ s.endOffset = stop ∧
        ∃ front back, cs = front ++ (s.text.toList ++ back) ∧ byteLength front = s.startOffset := by
  constructor
  · intro h
    obtain ⟨hstart, hne, hstop, hstands⟩ := sectionBetween?_eq_some h
    exact ⟨hne, hstart, hstop, hstands⟩
  · rintro ⟨hne, rfl, rfl, front, back, rfl, hfront⟩
    have hmid : s.text.toList ≠ [] := by rwa [Ne, String.toList_eq_nil_iff]
    have hcut := sectionBetween?_append front back hmid
    rw [Section.endOffset, ← hfront, hcut, String.ofList_toList, hfront]

/-- Whatever the offsets, the sections are the texts that are not empty and stand between a named offset
and the next one that counts. -/
theorem mem_sectionsAt_iff {cs : List Char} {offsets : List Nat} {s : Section} :
    s ∈ sectionsAt cs offsets ↔
      s.text ≠ "" ∧
      (∃ after, s.startOffset :: after <:+ offsets ∧
        s.endOffset = nextOffset (byteLength cs) s.startOffset after) ∧
      ∃ front back, cs = front ++ (s.text.toList ++ back) ∧ byteLength front = s.startOffset := by
  rw [sectionsAt, List.mem_filterMap]
  constructor
  · rintro ⟨⟨start, stop⟩, hspan, hcut⟩
    obtain ⟨hne, rfl, rfl, hstands⟩ := sectionBetween?_eq_some_iff.mp hcut
    obtain ⟨after, hsuffix, -, hstop⟩ := mem_spansUpTo_within.mp hspan
    exact ⟨hne, ⟨after, hsuffix, hstop⟩, hstands⟩
  · rintro ⟨hne, ⟨after, hsuffix, hstop⟩, front, back, hcs, hfront⟩
    have hle : s.startOffset ≤ byteLength cs := by
      rw [← hfront, hcs, byteLength_append]
      exact Nat.le_add_right _ _
    exact ⟨(s.startOffset, s.endOffset), mem_spansUpTo_within.mpr ⟨after, hsuffix, hle, hstop⟩,
      sectionBetween?_eq_some_iff.mpr ⟨hne, rfl, rfl, front, back, hcs, hfront⟩⟩

/-! ## Offsets in order -/

theorem dropRepeats_subset (offsets : List Nat) : dropRepeats offsets ⊆ offsets := by
  induction offsets using dropRepeats.induct with
  | case1 => exact List.Subset.refl _
  | case2 a => exact List.Subset.refl _
  | case3 a rest ih =>
      rw [dropRepeats, if_pos rfl]
      exact List.Subset.trans ih (List.subset_cons_self a _)
  | case4 a b rest hne ih =>
      rw [dropRepeats, if_neg hne]
      exact List.cons_subset_cons a ih

theorem dropRepeats_increasing {offsets : List Nat} (h : offsets.Pairwise (· ≤ ·)) :
    (dropRepeats offsets).Pairwise (· < ·) := by
  induction offsets using dropRepeats.induct with
  | case1 => exact .nil
  | case2 a => exact List.pairwise_singleton _ _
  | case3 a rest ih =>
      rw [dropRepeats, if_pos rfl]
      exact ih (List.pairwise_cons.mp h).2
  | case4 a b rest hne ih =>
      obtain ⟨hfirst, hrest⟩ := List.pairwise_cons.mp h
      rw [dropRepeats, if_neg hne]
      refine List.pairwise_cons.mpr ⟨fun c hc => ?_, ih hrest⟩
      have hab := hfirst b List.mem_cons_self
      have hbc : b ≤ c := by
        rcases List.mem_cons.mp (dropRepeats_subset _ hc) with rfl | hc
        · exact Nat.le_refl _
        · exact (List.pairwise_cons.mp hrest).1 c hc
      omega

/-- Sections one behind the other from one offset to another, none of them empty. -/
inductive Section.Tile (finish : Nat) : Nat → List Section → Prop
  | nil : Tile finish finish []
  | cons {s : Section} {rest : List Section} (hlt : s.startOffset < s.endOffset)
      (hrest : Tile finish s.endOffset rest) : Tile finish s.startOffset (s :: rest)

namespace Section.Tile

variable {start finish : Nat} {sections : List Section}

theorem le (h : Tile finish start sections) : start ≤ finish := by
  induction h with
  | nil => exact Nat.le_refl _
  | cons hlt _ ih => exact (Nat.le_of_lt hlt).trans ih

theorem le_startOffset (h : Tile finish start sections) : ∀ s ∈ sections, start ≤ s.startOffset := by
  induction h with
  | nil => simp
  | cons hlt _ ih =>
      intro s hs
      rcases List.mem_cons.mp hs with rfl | hs
      · exact Nat.le_refl _
      · exact (Nat.le_of_lt hlt).trans (ih s hs)

theorem pairwise (h : Tile finish start sections) :
    sections.Pairwise fun s t => s.startOffset < s.endOffset ∧ s.endOffset ≤ t.startOffset := by
  induction h with
  | nil => exact .nil
  | cons hlt hrest ih =>
      exact List.pairwise_cons.mpr ⟨fun t ht => ⟨hlt, hrest.le_startOffset t ht⟩, ih⟩

/-- The bytes from the first section on are in one section each, and no others are in any. -/
theorem countP_contains (h : Tile finish start sections) (n : Nat) :
    sections.countP (·.contains n) = if start ≤ n ∧ n < finish then 1 else 0 := by
  induction h with
  | nil => simp
  | @cons s rest hlt hrest ih =>
      have hle := hrest.le
      have hcontains : s.contains n = true ↔ s.startOffset ≤ n ∧ n < s.endOffset := by
        simp [Section.contains]
      rw [List.countP_cons, ih]
      simp only [hcontains]
      split_ifs <;> omega

end Section.Tile

theorem sectionBetween?_of_places {cs : List Char} {start stop : Nat} (hstart : IsPlace cs start)
    (hstop : IsPlace cs stop) (hlt : start < stop) :
    ∃ s, sectionBetween? cs (start, stop) = some s ∧ s.startOffset = start ∧ s.endOffset = stop := by
  obtain ⟨front, back, rfl, rfl⟩ := hstart
  obtain ⟨front', back', heq, rfl⟩ := hstop
  obtain ⟨mid, rfl, rfl⟩ := between_of_append_eq heq (Nat.le_of_lt hlt)
  have hmid : mid ≠ [] := by
    rintro rfl
    simp at hlt
  have hcut := sectionBetween?_append front back' hmid
  rw [← byteLength_append] at hcut
  obtain ⟨-, hends, hends', -⟩ := sectionBetween?_eq_some_iff.mp hcut
  exact ⟨_, hcut, hends, hends'⟩

/-- Places in order cut a text into sections one behind the other, from the first place to the end. -/
theorem tile_spans {cs : List Char} {first : Nat} {starts : List Nat}
    (hsorted : (first :: starts).Pairwise (· < ·)) (hplaces : ∀ a ∈ first :: starts, IsPlace cs a) :
    Section.Tile (byteLength cs) first
      ((spansUpTo (byteLength cs) (first :: starts)).filterMap (sectionBetween? cs)) := by
  induction starts generalizing first with
  | nil =>
      have hfirst := hplaces first List.mem_cons_self
      rw [spansUpTo]
      rcases Nat.lt_or_eq_of_le hfirst.le with hlt | rfl
      · have hend : IsPlace cs (byteLength cs) := ⟨cs, [], (List.append_nil cs).symm, rfl⟩
        obtain ⟨s, hcut, rfl, hstop⟩ := sectionBetween?_of_places hfirst hend hlt
        rw [List.filterMap_cons_some hcut]
        exact .cons (hstop ▸ hlt) (hstop ▸ .nil)
      · rw [List.filterMap_cons_none (by simp [sectionBetween?])]
        exact .nil
  | cons next starts ih =>
      obtain ⟨hfirst, hrest⟩ := List.pairwise_cons.mp hsorted
      have hlt := hfirst next List.mem_cons_self
      obtain ⟨s, hcut, rfl, rfl⟩ := sectionBetween?_of_places (hplaces first List.mem_cons_self)
        (hplaces next (List.mem_cons_of_mem _ List.mem_cons_self)) hlt
      rw [spansUpTo, List.filterMap_cons_some hcut]
      exact .cons hlt (ih hrest fun a ha => hplaces a (List.mem_cons_of_mem _ ha))

/-- Offsets in order cut all of a text up, if those within it are places of it; where none is, there
is nothing to cut. -/
theorem tile_sectionsAt {cs : List Char} {first : Nat} {offsets : List Nat}
    (hsorted : (first :: offsets).Pairwise (· ≤ ·))
    (hplaces : ∀ a ∈ first :: offsets, a ≤ byteLength cs → IsPlace cs a) :
    if first ≤ byteLength cs then
      Section.Tile (byteLength cs) first (sectionsAt cs (first :: offsets))
    else sectionsAt cs (first :: offsets) = [] := by
  split
  case isTrue hfirst =>
    have hsorted' := dropRepeats_increasing (hsorted.filter (· ≤ byteLength cs))
    have hplaces' : ∀ a ∈ dropRepeats ((first :: offsets).filter (· ≤ byteLength cs)),
        IsPlace cs a := by
      intro a ha
      obtain ⟨hmem, hle⟩ := List.mem_filter.mp (dropRepeats_subset _ ha)
      exact hplaces a hmem (by simpa using hle)
    rw [sectionsAt]
    rw [List.filter_cons_of_pos (by simpa using hfirst)] at hsorted' hplaces' ⊢
    obtain ⟨kept, hkept⟩ := exists_dropRepeats_cons first (offsets.filter (· ≤ byteLength cs))
    rw [hkept] at hsorted' hplaces' ⊢
    exact tile_spans hsorted' hplaces'
  case isFalse hfirst =>
    have hnone : (first :: offsets).filter (· ≤ byteLength cs) = [] := by
      refine List.filter_eq_nil_iff.mpr fun a ha => ?_
      have hle : first ≤ a := by
        rcases List.mem_cons.mp ha with rfl | ha
        · exact Nat.le_refl _
        · exact (List.pairwise_cons.mp hsorted).1 a ha
      rw [decide_eq_true_eq]
      omega
    rw [sectionsAt, hnone]
    rfl

namespace Splitter

/-- **Sections at any offsets.** Whatever offsets a splitter names, in any order, more than once, past the
end of the note or inside a character, the sections are the texts that are not empty and stand in the
note between a named offset and the next one that counts, or the end of the note. Their bytes are those
of the note. Let the offsets be in order, and those within the note be places of it. Then the sections
follow each other, with different starts, and every byte from the first offset on is in exactly one of
them. -/
theorem sections_at_any_offsets (splitter : Splitter) (document : String) :
    let offsets := (splitter document).map Boundary.startOffset
    let sections := splitter.sections document
    let length := document.toUTF8.size
    (∀ s, s ∈ sections ↔ s.text ≠ "" ∧
      (∃ after, s.startOffset :: after <:+ offsets ∧
        s.endOffset = nextOffset length s.startOffset after) ∧
      ∃ front back, document.toList = front ++ (s.text.toList ++ back) ∧
        byteLength front = s.startOffset) ∧
    (∀ s ∈ sections, s.startOffset ∈ offsets ∧ s.startOffset < s.endOffset ∧
      s.text.toUTF8 = document.toUTF8.extract s.startOffset s.endOffset) ∧
    (offsets.Pairwise (· ≤ ·) → (∀ a ∈ offsets, a ≤ length → IsPlace document.toList a) →
      sections.Pairwise (fun s t => s.endOffset ≤ t.startOffset) ∧
      (sections.map Section.startOffset).Nodup ∧
      ∀ first ∈ offsets.head?, ∀ n,
        sections.countP (·.contains n) = if first ≤ n ∧ n < length then 1 else 0) := by
  intro offsets sections length
  have hlength : length = byteLength document.toList := size_toUTF8 document
  rw [hlength]
  refine ⟨fun s => mem_sectionsAt_iff, fun s hs => ?_, fun hsorted hplaces => ?_⟩
  · obtain ⟨hne, ⟨after, hsuffix, -⟩, front, back, hstands, hfront⟩ := mem_sectionsAt_iff.mp hs
    have hpos : 0 < byteLength s.text.toList := byteLength_pos (by rwa [Ne, String.toList_eq_nil_iff])
    refine ⟨hsuffix.subset List.mem_cons_self, Nat.lt_add_of_pos_right hpos, ?_⟩
    rw [Section.endOffset, ← hfront, toUTF8_extract hstands]
  · have hsections : sections = sectionsAt document.toList offsets := rfl
    rw [hsections]
    cases hoffsets : offsets with
    | nil => simp [sectionsAt, dropRepeats, spansUpTo]
    | cons first rest =>
        rw [hoffsets] at hsorted hplaces
        have htile := tile_sectionsAt hsorted hplaces
        split at htile
        case isTrue =>
          have hpairwise := htile.pairwise
          refine ⟨hpairwise.imp And.right, List.pairwise_map.mpr (hpairwise.imp fun h => ?_), ?_⟩
          · exact Nat.ne_of_lt (h.1.trans_le h.2)
          · rintro first' hfirst n
            obtain rfl := Option.some.inj hfirst
            exact htile.countP_contains n
        case isFalse hfar =>
          rw [htile]
          refine ⟨.nil, .nil, fun first' hfirst n => ?_⟩
          obtain rfl := Option.some.inj hfirst
          rw [List.countP_nil, if_neg (by omega)]

/-- Offsets that are repeated, and one past the end of a note of four bytes. -/
def stutter : Splitter := fun _ => [⟨1, ""⟩, ⟨1, ""⟩, ⟨3, ""⟩, ⟨4, ""⟩, ⟨9, ""⟩]

theorem sections_at_any_offsets_repeated :
    ((stutter "aéb").map Boundary.startOffset).Pairwise (· ≤ ·) ∧
    (∀ a ∈ (stutter "aéb").map Boundary.startOffset, a ≤ "aéb".toUTF8.size →
      IsPlace "aéb".toList a) ∧
    stutter.sections "aéb" = [⟨1, "é"⟩, ⟨3, "b"⟩] ∧
    ∀ n, (stutter.sections "aéb").countP (·.contains n) = if 1 ≤ n ∧ n < 4 then 1 else 0 := by
  have hsorted : ((stutter "aéb").map Boundary.startOffset).Pairwise (· ≤ ·) := by decide
  have hplaces : ∀ a ∈ (stutter "aéb").map Boundary.startOffset, a ≤ "aéb".toUTF8.size →
      IsPlace "aéb".toList a := by
    intro a ha hle
    rw [size_toUTF8] at hle
    have hmem : a = 1 ∨ a = 3 ∨ a = 4 ∨ a = 9 := by simpa [stutter] using ha
    rcases hmem with rfl | rfl | rfl | rfl
    · exact ⟨['a'], ['é', 'b'], rfl, rfl⟩
    · exact ⟨['a', 'é'], ['b'], rfl, rfl⟩
    · exact ⟨['a', 'é', 'b'], [], rfl, rfl⟩
    · exact absurd hle (by decide)
  obtain ⟨-, -, hcover⟩ := sections_at_any_offsets stutter "aéb"
  obtain ⟨-, -, hcount⟩ := hcover hsorted hplaces
  exact ⟨hsorted, hplaces, rfl, hcount 1 rfl⟩

/-- An offset inside a character gives no section, neither where it starts one nor where it ends one. -/
example : sections (fun _ => [⟨2, ""⟩, ⟨0, ""⟩, ⟨2, ""⟩, ⟨3, ""⟩, ⟨1, ""⟩]) "aéb" = [⟨1, "éb"⟩] := by
  decide

end Splitter

end NearNotes
