import Mathlib
import NearNotes.Command.Run
import NearNotes.Proofs.Locality
import NearNotes.Proofs.Note.Offsets
import NearNotes.Proofs.Ranking

/-!
# The section of a line

A line is chosen by its number, and stands for the byte at which it starts. That byte is in the section
whose heading is the last one up to the line.

* `Text.lineStart` : where lines start; each starts later than those before it;
* `bodyEnd`, `sectionFrom`, `mem_sectionsOfLines_iff` : the sections of lines by the numbers of their
  headings;
* `contains_sectionFrom`, `not_contains_of_bodies`, `not_contains_of_le` : which of them a line starts
  in;
* `Pipeline.ranking_of_chosen`, `Pipeline.ranking_of_none` : what a ranking comes to;
* `Pipeline.line_picks_section` : the ranking for the line of a number.
-/

namespace NearNotes

namespace Text

/-! ## Where lines start -/

/-- Where a line starts in the text that lines make up, by the number of lines before it. -/
def lineStart (lines : List (List Char)) (i : Nat) : Nat := byteLength (lines.take i).flatten

/-- The line with so many lines before it is a heading. -/
def isHeadingAt (lines : List (List Char)) (i : Nat) : Bool :=
  lines[i]?.any fun line => (heading? line).isSome

/-- The line of a number, counted from one, is a heading. -/
def isHeadingLine (document : String) (n : Nat) : Bool :=
  1 ≤ n && isHeadingAt (splitLines document.toList) (n - 1)

theorem isHeadingAt_iff {lines : List (List Char)} {i : Nat} :
    isHeadingAt lines i ↔ ∃ line, lines[i]? = some line ∧ isBody line = false := by
  simp only [isHeadingAt, Option.any_eq_true, isBody_eq_false_iff]

theorem isHeadingLine_succ (document : String) (i : Nat) :
    isHeadingLine document (i + 1) = isHeadingAt (splitLines document.toList) i := by
  simp [isHeadingLine]

theorem isBody_of_not_isHeadingAt {lines : List (List Char)} {i : Nat} {line : List Char}
    (h : ¬ isHeadingAt lines i) (hline : lines[i]? = some line) : isBody line := by
  by_contra hhead
  exact h (isHeadingAt_iff.mpr ⟨line, hline, by simpa using hhead⟩)

theorem ne_nil_of_mem_splitLines {cs line : List Char} (h : line ∈ splitLines cs) : line ≠ [] := by
  obtain ⟨body, -, rfl | ⟨rfl, hne, -⟩⟩ := mem_splitLines h
  · simp
  · exact hne

theorem lineStart_of_le {lines : List (List Char)} {i : Nat} (h : lines.length ≤ i) :
    lineStart lines i = byteLength lines.flatten := by
  rw [lineStart, List.take_of_length_le h]

theorem lineStart_add (lines : List (List Char)) (i count : Nat) :
    lineStart lines (i + count) = lineStart lines i + byteLength ((lines.drop i).take count).flatten := by
  rw [lineStart, lineStart, List.take_add, List.flatten_append, byteLength_append]

/-- No line is empty, so each starts later than those before it. -/
theorem lineStart_strictMonoOn {lines : List (List Char)} (hne : ∀ line ∈ lines, line ≠ []) :
    StrictMonoOn (lineStart lines) (Set.Iic lines.length) := by
  intro i hi j hj hij
  obtain ⟨count, rfl⟩ := Nat.exists_eq_add_of_lt hij
  have hlt : i < lines.length := Nat.lt_of_lt_of_le hij hj
  have hline : lines[i] ≠ [] := hne _ (List.getElem_mem hlt)
  rw [Nat.add_assoc, lineStart_add, List.drop_eq_getElem_cons hlt, List.take_succ_cons,
    List.flatten_cons, byteLength_append]
  exact Nat.lt_add_of_pos_right (Nat.add_pos_left (byteLength_pos hline) _)

end Text

open Text

/-! ## Sections by the numbers of lines -/

/-- How many lines there are up to the end of a section, given how many there are before its heading. -/
def bodyEnd (lines : List (List Char)) (i : Nat) : Nat :=
  i + 1 + ((lines.drop (i + 1)).takeWhile isBody).length

def sectionFrom (lines : List (List Char)) (i : Nat) : Section :=
  ⟨lineStart lines i, String.ofList ((lines.drop i).take (bodyEnd lines i - i)).flatten⟩

section

variable {lines : List (List Char)} {i j : Nat}

theorem endOffset_sectionFrom : (sectionFrom lines i).endOffset = lineStart lines (bodyEnd lines i) := by
  have hend : bodyEnd lines i = i + (bodyEnd lines i - i) := by
    unfold bodyEnd
    omega
  rw [hend, lineStart_add, Section.endOffset, sectionFrom, String.toList_ofList]

theorem text_sectionFrom {line : List Char} (h : lines[i]? = some line) :
    (sectionFrom lines i).text.toList =
      (line :: (lines.drop (i + 1)).takeWhile isBody).flatten := by
  obtain ⟨hlt, rfl⟩ := List.getElem?_eq_some_iff.mp h
  have hcount : bodyEnd lines i - i = ((lines.drop (i + 1)).takeWhile isBody).length + 1 := by
    unfold bodyEnd
    omega
  rw [sectionFrom, String.toList_ofList, hcount, List.drop_eq_getElem_cons hlt, List.take_succ_cons,
    ← List.prefix_iff_eq_take.mp (List.takeWhile_prefix _)]

theorem mem_sectionsOfLines_iff {s : Section} :
    s ∈ sectionsOfLines 0 lines ↔ ∃ i, isHeadingAt lines i ∧ s = sectionFrom lines i := by
  rw [mem_sectionsOfLines]
  constructor
  · rintro ⟨before, line, after, rfl, hline, hstart, htext⟩
    have hat : (before ++ line :: after)[before.length]? = some line := by simp
    have hafter : (before ++ line :: after).drop (before.length + 1) = after := by simp
    refine ⟨before.length, isHeadingAt_iff.mpr ⟨line, hat, hline⟩, ?_⟩
    obtain ⟨start, text⟩ := s
    obtain rfl : text = (sectionFrom (before ++ line :: after) before.length).text := by
      rw [← String.toList_inj, text_sectionFrom hat, hafter, htext]
    have hstart : start = 0 + byteLength before.flatten := hstart
    rw [hstart, Nat.zero_add, sectionFrom, lineStart, List.take_left]
  · rintro ⟨i, hhead, rfl⟩
    obtain ⟨line, hat, hline⟩ := isHeadingAt_iff.mp hhead
    obtain ⟨hlt, rfl⟩ := List.getElem?_eq_some_iff.mp hat
    refine ⟨lines.take i, lines[i], lines.drop (i + 1), ?_, hline, (Nat.zero_add _).symm,
      text_sectionFrom hat⟩
    rw [← List.drop_eq_getElem_cons hlt, List.take_append_drop]

theorem bodyEnd_le (h : i < lines.length) : bodyEnd lines i ≤ lines.length := by
  have hbody := (List.takeWhile_prefix isBody (l := lines.drop (i + 1))).length_le
  rw [List.length_drop] at hbody
  unfold bodyEnd
  omega

/-- Lines that are no headings belong to the section before them. -/
theorem lt_bodyEnd (hij : i ≤ j) (hj : j < lines.length)
    (hbodies : ∀ k, i < k → k ≤ j → ¬ isHeadingAt lines k) : j < bodyEnd lines i := by
  have hall : ∀ line ∈ (lines.drop (i + 1)).take (j - i), isBody line := by
    intro line hline
    obtain ⟨k, hk⟩ := List.mem_iff_getElem?.mp hline
    rw [List.getElem?_take] at hk
    split at hk
    · rename_i hlt
      rw [List.getElem?_drop] at hk
      exact isBody_of_not_isHeadingAt (hbodies (i + 1 + k) (by omega) (by omega)) hk
    · cases hk
  have hbody : (lines.drop (i + 1)).takeWhile isBody =
      (lines.drop (i + 1)).take (j - i) ++ ((lines.drop (i + 1)).drop (j - i)).takeWhile isBody := by
    rw [← List.takeWhile_append_of_pos hall, List.take_append_drop]
  rw [bodyEnd, hbody, List.length_append, List.length_take, List.length_drop]
  omega

variable (hne : ∀ line ∈ lines, line ≠ [])

include hne

theorem contains_sectionFrom (hij : i ≤ j) (hj : j < lines.length)
    (hbodies : ∀ k, i < k → k ≤ j → ¬ isHeadingAt lines k) :
    (sectionFrom lines i).contains (lineStart lines j) = true := by
  have hmono := lineStart_strictMonoOn hne
  have hi := Nat.lt_of_le_of_lt hij hj
  have hstart : lineStart lines i ≤ lineStart lines j := hmono.monotoneOn hi.le hj.le hij
  have hend : lineStart lines j < lineStart lines (bodyEnd lines i) :=
    hmono hj.le (bodyEnd_le hi) (lt_bodyEnd hij hj hbodies)
  rw [Section.contains, endOffset_sectionFrom]
  simpa using ⟨hstart, hend⟩

theorem not_contains_of_bodies (hj : j < lines.length)
    (hbodies : ∀ k, k ≤ j → ¬ isHeadingAt lines k) :
    ∀ s ∈ sectionsOfLines 0 lines, s.contains (lineStart lines j) = false := by
  intro s hs
  obtain ⟨i, hhead, rfl⟩ := mem_sectionsOfLines_iff.mp hs
  obtain ⟨line, hat, -⟩ := isHeadingAt_iff.mp hhead
  have hi := (List.getElem?_eq_some_iff.mp hat).1
  have hji : j < i := Nat.lt_of_not_le fun hij => hbodies i hij hhead
  have hlt : lineStart lines j < lineStart lines i := lineStart_strictMonoOn hne hj.le hi.le hji
  have hstart : (sectionFrom lines i).startOffset = lineStart lines i := rfl
  rw [Section.contains, hstart, decide_eq_false (Nat.not_le_of_lt hlt), Bool.false_and]

theorem not_contains_of_le (hj : lines.length ≤ j) :
    ∀ s ∈ sectionsOfLines 0 lines, s.contains (lineStart lines j) = false := by
  intro s hs
  obtain ⟨i, hhead, rfl⟩ := mem_sectionsOfLines_iff.mp hs
  obtain ⟨line, hat, -⟩ := isHeadingAt_iff.mp hhead
  have hend := bodyEnd_le (List.getElem?_eq_some_iff.mp hat).1
  have hle : (sectionFrom lines i).endOffset ≤ lineStart lines j := by
    rw [endOffset_sectionFrom, lineStart_of_le hj, ← lineStart_of_le (Nat.le_refl _)]
    exact (lineStart_strictMonoOn hne).monotoneOn hend (Nat.le_refl _) hend
  rw [Section.contains, decide_eq_false (Nat.not_lt_of_le hle), Bool.and_false]

end

/-- The sections at the matches of a pattern do not share bytes. -/
theorem Splitter.sections_apart {pattern : String} {splitter : Splitter}
    (h : ofPattern pattern = .ok splitter) (document : String) :
    (splitter.sections document).Pairwise Section.Apart := by
  obtain ⟨hsorted, hplaces⟩ := offsets_ofPattern h document
  rw [sections]
  cases hoffsets : (splitter document).map Boundary.startOffset with
  | nil => exact .nil
  | cons first offsets =>
      rw [hoffsets] at hsorted hplaces
      have htile := tile_sectionsAt (hsorted.imp Nat.le_of_lt) fun a ha _ => hplaces a ha
      rw [if_pos (hplaces first List.mem_cons_self).le] at htile
      exact htile.pairwise.imp fun h => .inl h.2

/-! ## Rankings -/

namespace Pipeline

variable {p : Pipeline} {document : String} {offset chosen k : Nat} {s : Session}

theorem populate_error {e : RunError} (h : (p.populate document s).2 = some (.error e)) :
    ∃ cause, e = .embedding cause := by
  obtain ⟨m, w, -, hnone | hresult⟩ :=
    (p.window (p.splitter.sections document)).populate_path s
  · rw [populate, hnone] at h
    cases h
  · rw [populate, hresult] at h
    unfold Job.resultOf at h
    split at h
    · cases h
      exact ⟨_, rfl⟩
    · split at h
      · cases h
      · cases h

theorem ranking_of_none (h : sectionAt? (p.splitter.sections document) offset = none) :
    p.ranking document offset k s = (s, some (.error (.noSection offset))) := by
  simp only [ranking, h]

/-- A ranking is made of what populating comes to, from the chosen section on. -/
theorem ranking_of_chosen (h : sectionAt? (p.splitter.sections document) offset = some chosen) :
    p.ranking document offset k s =
      ((p.populate document s).1, (p.populate document s).2.map (·.bind fun found =>
        (rank (p.splitter.sections document) found.1 chosen k).mapError .embedding)) := by
  simp only [ranking, h, Job.finish_eq_populate, List.head?_cons, Option.join_some]
  rfl

theorem ranking_ne_noSection (h : sectionAt? (p.splitter.sections document) offset = some chosen)
    (other : Nat) : (p.ranking document offset k s).2 ≠ some (.error (.noSection other)) := by
  rw [ranking_of_chosen h]
  intro herror
  obtain ⟨result, hresult, hbind⟩ := Option.map_eq_some_iff.mp herror
  cases result with
  | error e =>
      obtain ⟨cause, rfl⟩ := populate_error hresult
      cases hbind
  | ok found =>
      have hbind : (rank (p.splitter.sections document) found.1 chosen k).mapError RunError.embedding =
          .error (.noSection other) := hbind
      cases hrank : rank (p.splitter.sections document) found.1 chosen k with
      | error e =>
          rw [hrank] at hbind
          cases hbind
      | ok ranked =>
          rw [hrank] at hbind
          cases hbind

/-- The last heading up to a line is that of the chosen section. -/
theorem exists_chosen (hsplitter : Splitter.ofPattern Splitter.headingPattern = .ok p.splitter)
    {m n : Nat} (hn : n ≤ (splitLines document.toList).length)
    (hm : IsGreatest {m | m ≤ n ∧ isHeadingLine document m = true} m) :
    ∃ chosen, (p.splitter.sections document)[chosen]? =
        some (sectionFrom (splitLines document.toList) (m - 1)) ∧
      sectionAt? (p.splitter.sections document) (startOfLine document n) = some chosen := by
  obtain ⟨⟨hmn, hhead⟩, hlast⟩ := hm
  obtain ⟨hpos, hhead⟩ := Bool.and_eq_true_iff.mp hhead
  have hpos : 1 ≤ m := of_decide_eq_true hpos
  have hmem : sectionFrom (splitLines document.toList) (m - 1) ∈ p.splitter.sections document := by
    rw [Splitter.sections_eq_ofLines hsplitter]
    exact mem_sectionsOfLines_iff.mpr ⟨m - 1, hhead, rfl⟩
  obtain ⟨chosen, hchosen⟩ := List.mem_iff_getElem?.mp hmem
  have hbodies : ∀ k, m - 1 < k → k ≤ n - 1 → ¬ isHeadingAt (splitLines document.toList) k := by
    intro k hk hkn hhead
    have hle : k + 1 ≤ m := hlast ⟨by omega, (isHeadingLine_succ document k).trans hhead⟩
    omega
  have hcontains := contains_sectionFrom (fun _ => ne_nil_of_mem_splitLines)
    (Nat.sub_le_sub_right hmn 1) (by omega) hbodies
  exact ⟨chosen, hchosen,
    sectionAt?_of_contains (Splitter.sections_apart hsplitter document) hchosen hcontains⟩

theorem sectionAt?_of_not_contains {sections : List Section}
    (h : ∀ part ∈ sections, part.contains offset = false) : sectionAt? sections offset = none := by
  rw [sectionAt?_eq_none_iff, List.any_eq_false]
  exact fun part hpart => by rw [h part hpart]; exact Bool.false_ne_true

/-- Where there is no heading up to a line, the line is in no section. -/
theorem sectionAt?_of_no_heading
    (hsplitter : Splitter.ofPattern Splitter.headingPattern = .ok p.splitter) {n : Nat} (hpos : 1 ≤ n)
    (hn : n ≤ (splitLines document.toList).length)
    (hbodies : ∀ m ≤ n, isHeadingLine document m = false) :
    sectionAt? (p.splitter.sections document) (startOfLine document n) = none := by
  refine sectionAt?_of_not_contains ?_
  rw [Splitter.sections_eq_ofLines hsplitter]
  refine not_contains_of_bodies (fun _ => ne_nil_of_mem_splitLines) (by omega) fun k hk hhead => ?_
  have hline := hbodies (k + 1) (by omega)
  rw [isHeadingLine_succ, hhead] at hline
  cases hline

theorem sectionAt?_past_lines
    (hsplitter : Splitter.ofPattern Splitter.headingPattern = .ok p.splitter) {n : Nat}
    (hn : (splitLines document.toList).length < n) :
    sectionAt? (p.splitter.sections document) (startOfLine document n) = none := by
  refine sectionAt?_of_not_contains ?_
  rw [Splitter.sections_eq_ofLines hsplitter]
  exact not_contains_of_le (fun _ => ne_nil_of_mem_splitLines) (Nat.le_sub_one_of_lt hn)

theorem startOfLine_past_lines {n : Nat} (hn : (splitLines document.toList).length < n) :
    startOfLine document n = byteLength document.toList := by
  show lineStart (splitLines document.toList) (n - 1) = _
  rw [lineStart_of_le (Nat.le_sub_one_of_lt hn), splitLines_flatten]

/-- **A line picks its section.** With the splitter of the heading pattern, take the ranking from the
byte at which line number `n` of a note starts. If `n` is the number of a line and some line up to it is
a heading, then the last such line is the first one of the chosen section, the ranking is made of what
populating the note comes to and of the chosen section, and it does not fail for the want of a section.
If no line up to it is a heading, the ranking fails with the offset of the line. For a number past the
last line it fails with the length of the note, and line zero is taken for the first one. This is the
ranking that the command asks for when it is given a line. -/
theorem line_picks_section
    (hsplitter : Splitter.ofPattern Splitter.headingPattern = .ok p.splitter) (document : String) :
    let lines := splitLines document.toList
    let sections := p.splitter.sections document
    (∀ n, 1 ≤ n → n ≤ lines.length →
      (∀ m, IsGreatest {m | m ≤ n ∧ isHeadingLine document m = true} m →
        ∃ chosen part, sections[chosen]? = some part ∧
          part.startOffset = startOfLine document m ∧
          (∃ line, lines[m - 1]? = some line ∧ line <+: part.text.toList) ∧
          sectionAt? sections (startOfLine document n) = some chosen ∧
          ∀ k s, p.ranking document (startOfLine document n) k s =
            ((p.populate document s).1, (p.populate document s).2.map (·.bind fun found =>
              (rank sections found.1 chosen k).mapError .embedding))) ∧
      ∀ k s,
        ((∃ offset, (p.ranking document (startOfLine document n) k s).2 =
            some (.error (.noSection offset))) ↔ ∀ m ≤ n, isHeadingLine document m = false) ∧
        ((∀ m ≤ n, isHeadingLine document m = false) →
          p.ranking document (startOfLine document n) k s =
            (s, some (.error (.noSection (startOfLine document n)))))) ∧
    (∀ n, lines.length < n → ∀ k s, p.ranking document (startOfLine document n) k s =
      (s, some (.error (.noSection (byteLength document.toList))))) ∧
    (∀ k s, p.ranking document (startOfLine document 0) k s =
      p.ranking document (startOfLine document 1) k s) ∧
    ∀ (a : Arguments) n s, a.line = some n →
      Command.search a p document s =
        ((p.ranking document (startOfLine document n) p.query.neighbors s).1,
          (p.ranking document (startOfLine document n) p.query.neighbors s).2.map
            (·.map (·.flatMap (RankedSection.lines a.full)))) := by
  intro lines sections
  refine ⟨fun n hpos hn => ⟨fun m hm => ?_, fun k s => ⟨⟨?_, ?_⟩, ?_⟩⟩, fun n hn k s => ?_,
    fun k s => rfl, fun a n s hline => by simp only [Command.search, hline]⟩
  · obtain ⟨chosen, hchosen, hat⟩ := exists_chosen hsplitter hn hm
    have hhead := (Bool.and_eq_true_iff.mp hm.1.2).2
    obtain ⟨line, hline, -⟩ := isHeadingAt_iff.mp hhead
    refine ⟨chosen, _, hchosen, rfl, ⟨line, hline, ?_⟩, hat, fun k s => ranking_of_chosen hat⟩
    rw [text_sectionFrom hline, List.flatten_cons]
    exact List.prefix_append _ _
  · rintro ⟨offset, herror⟩ m hmn
    by_contra hhead
    -- Where there is a heading, there is a last one, and it is that of a section.
    have hgreatest : IsGreatest {m | m ≤ n ∧ isHeadingLine document m = true} _ :=
      ⟨Nat.sSup_mem ⟨m, hmn, by simpa using hhead⟩ ⟨n, fun _ h => h.1⟩,
        fun _ h => le_csSup ⟨n, fun _ h => h.1⟩ h⟩
    obtain ⟨chosen, -, hat⟩ := exists_chosen hsplitter hn hgreatest
    exact ranking_ne_noSection hat offset herror
  · intro hbodies
    exact ⟨_, by rw [ranking_of_none (sectionAt?_of_no_heading hsplitter hpos hn hbodies)]⟩
  · exact fun hbodies => ranking_of_none (sectionAt?_of_no_heading hsplitter hpos hn hbodies)
  · rw [ranking_of_none (sectionAt?_past_lines hsplitter hn), startOfLine_past_lines hn]

/-- The fourth of five lines is in the section of the second one, the first line comes before all
headings, and there is no ninth line. -/
theorem line_picks_section_at_blank_lines :
    let note := "x\n# a\r\n\né\n# b"
    let sections := headed.splitter.sections note
    splitLines note.toList = ["x\n", "# a\r\n", "\n", "é\n", "# b"].map String.toList ∧
    IsGreatest {m | m ≤ 4 ∧ isHeadingLine note m = true} 2 ∧
    (∃ chosen part, sections[chosen]? = some part ∧ part.startOffset = 2 ∧
      sectionAt? sections (startOfLine note 4) = some chosen ∧
      ∀ k s, (headed.ranking note (startOfLine note 4) k s).1 = (headed.populate note s).1) ∧
    (∀ k, headed.ranking note (startOfLine note 1) k blank =
      (blank, some (.error (.noSection 0)))) ∧
    ∀ k, headed.ranking note (startOfLine note 9) k blank =
      (blank, some (.error (.noSection 14))) := by
  intro note sections
  have hlines : splitLines note.toList =
      ["x\n", "# a\r\n", "\n", "é\n", "# b"].map String.toList := by decide
  have hcount : (splitLines note.toList).length = 5 := by rw [hlines]; rfl
  have hfirst : ∀ m ≤ 1, isHeadingLine note m = false := by decide
  have hgreatest : IsGreatest {m | m ≤ 4 ∧ isHeadingLine note m = true} 2 := by
    refine ⟨⟨by decide, by decide⟩, fun m hm => ?_⟩
    have hbelow : ∀ m ≤ 4, isHeadingLine note m = true → m ≤ 2 := by decide
    exact hbelow m hm.1 hm.2
  obtain ⟨hwithin, hpast, -⟩ := line_picks_section (p := headed) Splitter.ofPattern_heading note
  obtain ⟨chosen, part, hchosen, hstart, -, hat, hranking⟩ :=
    (hwithin 4 (by decide) (by rw [hcount]; decide)).1 2 hgreatest
  have htwo : startOfLine note 2 = 2 := by decide
  have hend : byteLength note.toList = 14 := by decide
  refine ⟨hlines, hgreatest, ⟨chosen, part, hchosen, hstart.trans htwo, hat, fun k s => ?_⟩,
    fun k => ?_, fun k => ?_⟩
  · rw [hranking k s]
  · exact ((hwithin 1 (by decide) (by rw [hcount]; decide)).2 k blank).2 hfirst
  · exact hend ▸ hpast 9 (by rw [hcount]; decide) k blank

end Pipeline

end NearNotes
