import Mathlib
import NearNotes.Proofs.Note.Headings

/-!
# Sections line by line

With the splitter of the heading pattern a section is a line that is a heading, with the lines after it
up to the next heading.

* `Text.splitLines_append`, `Text.splitLines_flatten_of_infix` : lines of parts of a text;
* `sectionsOfLines` : the sections of a note given as lines; `sectionsOfLines_append`,
  `sectionsOfLines_shift` : of lines after other lines; `mem_sectionsOfLines` : what each of them is;
* `Splitter.sections_eq_ofLines` : the splitter's sections are these.
-/

namespace NearNotes

namespace Text

/-! ## Lines of parts -/

/-- The lines of two texts one after the other, the first of which ends with a line. -/
theorem splitLines_append {cs : List Char} (h : ∀ last ∈ cs.getLast?, last = '\n') (ds : List Char) :
    splitLines (cs ++ ds) = splitLines cs ++ splitLines ds := by
  induction cs using lines_induction with
  | last body hbody =>
      have hnil : body = [] := by
        by_contra hne
        have hlast := List.getLast?_eq_some_getLast hne
        exact hbody (h _ hlast ▸ List.getLast_mem hne)
      rw [hnil]
      rfl
  | line body rest hbody ih =>
      have hrest : ∀ last ∈ rest.getLast?, last = '\n' := by
        intro last hlast
        refine h last ?_
        rw [List.getLast?_append, List.getLast?_cons, hlast]
        rfl
      rw [List.append_assoc, List.cons_append, splitLines_line hbody, splitLines_line hbody, ih hrest,
        List.cons_append]

theorem splitLines_eq_nil_or_singleton {body : List Char} (h : '\n' ∉ body) :
    splitLines body = [] ∨ splitLines body = [body] := by
  by_cases hne : body = []
  · exact .inl (hne ▸ rfl)
  · exact .inr (splitLines_last h hne)

theorem splitLines_flatten_of_prefix {cs : List Char} {lines : List (List Char)}
    (h : lines <+: splitLines cs) : splitLines lines.flatten = lines := by
  induction cs using lines_induction generalizing lines with
  | last body hbody =>
      have hlines : lines = [] ∨ lines = splitLines body := by
        rcases splitLines_eq_nil_or_singleton hbody with hnil | hone
        · exact .inl (List.prefix_nil.mp (hnil ▸ h))
        · rw [hone] at h ⊢
          exact (List.prefix_cons_iff.mp h).imp_right fun ⟨rest, hlines, hrest⟩ => by
            rw [hlines, List.prefix_nil.mp hrest]
      rcases hlines with rfl | rfl
      · rfl
      · rw [splitLines_flatten]
  | line body rest hbody ih =>
      rw [splitLines_line hbody] at h
      rcases List.prefix_cons_iff.mp h with rfl | ⟨lines, rfl, hlines⟩
      · rfl
      · rw [List.flatten_cons, List.append_assoc, List.singleton_append, splitLines_line hbody,
          ih hlines]

theorem splitLines_flatten_of_suffix {cs : List Char} {lines : List (List Char)}
    (h : lines <:+ splitLines cs) : splitLines lines.flatten = lines := by
  induction cs using lines_induction generalizing lines with
  | last body hbody =>
      have hlines : lines = [] ∨ lines = splitLines body := by
        rcases splitLines_eq_nil_or_singleton hbody with hnil | hone
        · exact .inl (List.suffix_nil.mp (hnil ▸ h))
        · rw [hone] at h ⊢
          exact (List.suffix_cons_iff.mp h).symm.imp_left List.suffix_nil.mp
      rcases hlines with rfl | rfl
      · rfl
      · rw [splitLines_flatten]
  | line body rest hbody ih =>
      rw [splitLines_line hbody] at h
      rcases List.suffix_cons_iff.mp h with rfl | hlines
      · rw [← splitLines_line hbody, splitLines_flatten]
      · exact ih hlines

/-- Lines that follow each other in a text are the lines of what they make up. -/
theorem splitLines_flatten_of_infix {cs : List Char} {lines : List (List Char)}
    (h : lines <:+: splitLines cs) : splitLines lines.flatten = lines := by
  obtain ⟨tail, hlines, htail⟩ := List.infix_iff_prefix_suffix.mp h
  rw [← splitLines_flatten_of_suffix htail] at hlines
  exact splitLines_flatten_of_prefix hlines

/-- The line belongs to the body of a section: it is no heading. -/
def isBody (line : List Char) : Bool := (heading? line).isNone

theorem isBody_eq_false_iff {line : List Char} : isBody line = false ↔ (heading? line).isSome := by
  rw [isBody, ← Option.not_isSome, Bool.not_eq_false']

theorem ne_nil_of_not_isBody {line : List Char} (h : isBody line = false) : line ≠ [] := by
  rintro rfl
  cases h

end Text

open Text Pattern.Program

/-! ## Sections -/

def Section.shift (bytes : Nat) (s : Section) : Section :=
  { s with startOffset := bytes + s.startOffset }

/-- The sections of lines, the first of which starts at an offset: every heading with the lines up to
the next one. -/
def sectionsOfLines (offset : Nat) : List (List Char) → List Section
  | [] => []
  | line :: lines =>
    if isBody line then sectionsOfLines (offset + byteLength line) lines
    else ⟨offset, String.ofList (line ++ (lines.takeWhile isBody).flatten)⟩ ::
      sectionsOfLines (offset + byteLength line) lines

section Lines

variable {offset : Nat} {lines : List (List Char)}

theorem sectionsOfLines_of_body (h : ∀ line ∈ lines, isBody line) :
    sectionsOfLines offset lines = [] := by
  induction lines generalizing offset with
  | nil => rfl
  | cons line lines ih =>
      rw [sectionsOfLines, if_pos (h line List.mem_cons_self)]
      exact ih fun line hline => h line (List.mem_cons_of_mem _ hline)

/-- Lines after others start sections of their own, if the first of them is a heading. -/
theorem sectionsOfLines_append {more : List (List Char)}
    (h : ∀ first ∈ more.head?, isBody first = false) :
    sectionsOfLines offset (lines ++ more) =
      sectionsOfLines offset lines ++ sectionsOfLines (offset + byteLength lines.flatten) more := by
  have hstop : more.takeWhile isBody = [] := by
    cases more with
    | nil => rfl
    | cons first more => rw [List.takeWhile_cons_of_neg (by rw [h first rfl]; exact Bool.false_ne_true)]
  induction lines generalizing offset with
  | nil => rfl
  | cons line lines ih =>
      have htake : (lines ++ more).takeWhile isBody = lines.takeWhile isBody := by
        rw [List.takeWhile_append, hstop, List.append_nil]
        split
        · rename_i hall
          exact ((List.takeWhile_prefix _).eq_of_length hall).symm
        · rfl
      rw [List.cons_append, sectionsOfLines, sectionsOfLines, htake, ih, List.flatten_cons,
        byteLength_append, Nat.add_assoc]
      split <;> rfl

theorem sectionsOfLines_shift (bytes : Nat) :
    sectionsOfLines (bytes + offset) lines = (sectionsOfLines offset lines).map (.shift bytes) := by
  induction lines generalizing offset with
  | nil => rfl
  | cons line lines ih =>
      rw [sectionsOfLines, sectionsOfLines, Nat.add_assoc, ih]
      split <;> rfl

theorem mem_sectionsOfLines {s : Section} :
    s ∈ sectionsOfLines offset lines ↔ ∃ before line after, lines = before ++ line :: after ∧
      isBody line = false ∧ s.startOffset = offset + byteLength before.flatten ∧
      s.text.toList = (line :: after.takeWhile isBody).flatten := by
  induction lines generalizing offset with
  | nil => simp [sectionsOfLines]
  | cons first lines ih =>
      rw [sectionsOfLines]
      constructor
      · intro h
        have hcases : isBody first = false ∧
            s = ⟨offset, String.ofList (first ++ (lines.takeWhile isBody).flatten)⟩ ∨
            s ∈ sectionsOfLines (offset + byteLength first) lines := by
          split at h
          case isTrue => exact .inr h
          case isFalse hfirst =>
            exact (List.mem_cons.mp h).imp_left fun heq => ⟨by simpa using hfirst, heq⟩
        rcases hcases with ⟨hfirst, rfl⟩ | hmem
        · exact ⟨[], first, lines, rfl, hfirst, rfl, String.toList_ofList⟩
        · obtain ⟨before, line, after, rfl, hline, hstart, htext⟩ := ih.mp hmem
          refine ⟨first :: before, line, after, rfl, hline, ?_, htext⟩
          rw [hstart, List.flatten_cons, byteLength_append, Nat.add_assoc]
      · rintro ⟨before, line, after, heq, hline, hstart, htext⟩
        cases before with
        | nil =>
            obtain ⟨rfl, rfl⟩ := List.cons.inj heq
            obtain ⟨start, text⟩ := s
            have htext : text = String.ofList (first ++ (lines.takeWhile isBody).flatten) := by
              rw [← String.toList_inj, htext, String.toList_ofList, List.flatten_cons]
            rw [if_neg (by rw [hline]; exact Bool.false_ne_true), htext]
            simp only [List.flatten_nil, byteLength_nil, Nat.add_zero] at hstart
            rw [hstart]
            exact List.mem_cons_self
        | cons first' before =>
            obtain ⟨rfl, rfl⟩ := List.cons.inj heq
            have hmem := (@ih (offset + byteLength first)).mpr ⟨before, line, after, rfl, hline, by
              rw [hstart, List.flatten_cons, byteLength_append, Nat.add_assoc], htext⟩
            split
            · exact hmem
            · exact List.mem_cons_of_mem _ hmem

end Lines

/-! ## The splitter -/

theorem spansUpTo_cons (finish start : Nat) (starts : List Nat) :
    spansUpTo finish (start :: starts) =
      (start, starts.headD finish) :: spansUpTo finish starts := by
  cases starts <;> rfl

theorem headingMatches_cons (offset : Nat) (line : List Char) (lines : List (List Char)) :
    (headingMatches offset (line :: lines)).map Match.start =
      if isBody line then (headingMatches (offset + byteLength line) lines).map Match.start
      else offset :: (headingMatches (offset + byteLength line) lines).map Match.start := by
  rw [headingMatches, isBody]
  cases heading? line <;> rfl

theorem headD_headingMatches (offset : Nat) (lines : List (List Char)) :
    ((headingMatches offset lines).map Match.start).headD (offset + byteLength lines.flatten) =
      offset + byteLength (lines.takeWhile isBody).flatten := by
  induction lines generalizing offset with
  | nil => rfl
  | cons line lines ih =>
      rw [headingMatches_cons, List.takeWhile_cons, List.flatten_cons, byteLength_append,
        ← Nat.add_assoc]
      split
      · rw [ih, List.flatten_cons, byteLength_append, Nat.add_assoc]
      · rfl

/-- The spans between the headings of lines cut the text into the sections of the lines. -/
theorem sectionBetween?_headings {cs : List Char} {lines : List (List Char)} :
    ∀ {front : List Char}, cs = front ++ lines.flatten →
      (spansUpTo (byteLength cs) ((headingMatches (byteLength front) lines).map Match.start)).filterMap
        (sectionBetween? cs) = sectionsOfLines (byteLength front) lines := by
  induction lines with
  | nil => exact fun _ => rfl
  | cons line lines ih =>
      rintro front rfl
      have hrest := @ih (front ++ line) (by rw [List.flatten_cons, List.append_assoc])
      rw [byteLength_append front line] at hrest
      rw [headingMatches_cons, sectionsOfLines, ← hrest]
      split
      case isTrue => rfl
      case isFalse hline =>
        have hne : line ≠ [] := ne_nil_of_not_isBody (by simpa using hline)
        have hend : byteLength (front ++ (line :: lines).flatten) =
            byteLength front + byteLength line + byteLength lines.flatten := by
          rw [List.flatten_cons, byteLength_append, byteLength_append, Nat.add_assoc]
        have hlines : (line :: lines).flatten =
            (line ++ (lines.takeWhile isBody).flatten) ++ (lines.dropWhile isBody).flatten := by
          rw [List.append_assoc, ← List.flatten_append, List.takeWhile_append_dropWhile,
            List.flatten_cons]
        have hcut := sectionBetween?_append front (lines.dropWhile isBody).flatten
          (List.append_ne_nil_of_left_ne_nil hne (lines.takeWhile isBody).flatten)
        rw [spansUpTo_cons, hend, headD_headingMatches, ← hend, hlines, Nat.add_assoc,
          ← byteLength_append, List.filterMap_cons_some hcut]

namespace Splitter

theorem sections_eq_ofLines {splitter : Splitter} (h : ofPattern headingPattern = .ok splitter)
    (document : String) :
    splitter.sections document = sectionsOfLines 0 (splitLines document.toList) := by
  obtain ⟨hsorted, hplaces⟩ := offsets_ofPattern h document
  rw [sections, sectionsAt_of_places hsorted hplaces]
  obtain rfl := Except.ok.inj (ofPattern_heading.symm.trans h)
  rw [offsets_ofProgram, findAll_lines]
  exact @sectionBetween?_headings _ _ [] (splitLines_flatten document.toList).symm

end Splitter

end NearNotes
