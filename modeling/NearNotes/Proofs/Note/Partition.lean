import Mathlib
import NearNotes.Proofs.Note.Cuts
import NearNotes.Proofs.Pattern.Matches

/-!
# Sections partition a note

Whatever the pattern, the sections of a note hold all of its text from the first match on, and
every part of it once.

* `Splitter.offsets_ofPattern` : the boundaries at the matches of a pattern are places of the note,
  in order;
* `Splitter.sections_partition` : the sections are what lies between them.
-/

namespace NearNotes.Splitter

theorem offsets_ofProgram (program : Pattern.Program) (document : String) :
    (ofProgram program document).map Boundary.startOffset =
      (program.findAll document.toList).map Pattern.Program.Match.start := by
  rw [ofProgram, List.map_map]
  rfl

/-- The boundaries at the matches of a pattern are places of the note, in order. -/
theorem offsets_ofPattern {pattern : String} {splitter : Splitter}
    (h : ofPattern pattern = .ok splitter) (document : String) :
    let offsets := (splitter document).map Boundary.startOffset
    offsets.Pairwise (· < ·) ∧ ∀ a ∈ offsets, Text.IsPlace document.toList a := by
  unfold ofPattern at h
  split at h
  case h_1 ast hparse =>
    cases h
    rw [offsets_ofProgram]
    exact Pattern.Program.findAll_increasing
      (Pattern.Program.framed_ofAst (Pattern.parse_numbered hparse)) document.toList
  case h_2 => cases h

/-- **Sections partition a note.** Whatever the pattern, its boundaries are places of the note, in
order. What stands before the first one, followed by the texts of the sections, is the note.
There is a section for each boundary but one at the end of the note; it is not empty and stands in
the note where its boundary is. -/
theorem sections_partition {pattern : String} {splitter : Splitter}
    (h : ofPattern pattern = .ok splitter) (document : String) :
    let offsets := (splitter document).map Boundary.startOffset
    let sections := splitter.sections document
    (offsets.Pairwise (· < ·) ∧ ∀ a ∈ offsets, Text.IsPlace document.toList a) ∧
    (∀ first ∈ offsets.head?, ∃ front, Text.byteLength front = first ∧
      front ++ sections.flatMap (·.text.toList) = document.toList) ∧
    sections.map Section.startOffset = offsets.filter (· ≠ Text.byteLength document.toList) ∧
    ∀ s ∈ sections, s.text ≠ "" ∧ ∃ front back,
      document.toList = front ++ (s.text.toList ++ back) ∧ Text.byteLength front = s.startOffset := by
  intro offsets sections
  obtain ⟨hsorted, hplaces⟩ := offsets_ofPattern h document
  obtain ⟨hstarts, hcover⟩ := sectionsAt_cover hsorted hplaces
  exact ⟨⟨hsorted, hplaces⟩, hcover, hstarts, fun s hs => mem_sectionsAt hs⟩

theorem ofPattern_optional : ofPattern "é?" =
    .ok (ofProgram (.ofAst (.repeated 0 (some 1) true (.set (.single 'é'))))) := rfl

/-- A pattern that matches nothing as well, in a note with a character of two bytes: a match without
characters at the end of another one is passed over, and the one at the end starts no section. -/
theorem sections_partition_optional :
    ∃ splitter, ofPattern "é?" = .ok splitter ∧
      (splitter "aéb").map Boundary.startOffset = [0, 1, 4] ∧
      splitter.sections "aéb" = [⟨0, "a"⟩, ⟨1, "éb"⟩] ∧
      (splitter.sections "aéb").map Section.startOffset =
        ((splitter "aéb").map Boundary.startOffset).filter
          (· ≠ Text.byteLength "aéb".toList) :=
  ⟨_, ofPattern_optional, rfl, rfl, (sections_partition ofPattern_optional "aéb").2.2.1⟩

end NearNotes.Splitter
