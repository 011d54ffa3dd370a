import Mathlib
import NearNotes.Proofs.Note.Partition
import NearNotes.Proofs.Pattern.Heading

/-!
# The heading pattern reads lines

The splitter of the heading pattern names the lines that are headings, in order.

* `headingMatches` : a match for every line that is a heading; `find_lines`, `findFrom_lines` : a
  search finds the first of them, and searches one after the other all;
* `map_boundaryAt` : the boundaries at these matches;
* `Splitter.heading_lines` : the splitter, line by line.
-/

namespace NearNotes

namespace Pattern.Program

variable {text : List Char} {before : Option Char} {offset most : Nat} {last : Option Nat}

theorem headingProgram_framed : headingProgram.Framed := by
  obtain ⟨ast, hparse, hprogram⟩ := parse_headingPattern
  exact hprogram ▸ framed_ofAst (parse_numbered hparse)

/-- The match of a heading: the hash, the blank and the title, which is the group. -/
def headingMatch (offset : Nat) (title : List Char) : Match :=
  ⟨offset, offset + 2 + Text.byteLength title,
    some (offset + 2, offset + 2 + Text.byteLength title)⟩

/-- The matches of the lines that are headings, the first line starting at an offset. -/
def headingMatches (offset : Nat) : List (List Char) → List Match
  | [] => []
  | line :: lines =>
    ((Text.heading? line).map (headingMatch offset)).toList ++
      headingMatches (offset + Text.byteLength line) lines

theorem start_lt_stop_of_mem {m : Match} :
    ∀ {lines : List (List Char)} {offset : Nat}, m ∈ headingMatches offset lines →
      m.start < m.stop
  | [], _, h => absurd h List.not_mem_nil
  | line :: lines, offset, h => by
      rcases List.mem_append.mp h with h | h
      · obtain ⟨title, -, rfl⟩ := Option.map_eq_some_iff.mp (Option.mem_toList.mp h)
        simp only [headingMatch]
        omega
      · exact start_lt_stop_of_mem h

/-- A search from the start of a line finds its heading or goes on with the next line. -/
theorem find_line (offset : Nat) (hbefore : before = none ∨ before = some '\n') {body tail : List Char}
    (hbody : '\n' ∉ body) (htail : LineEnds tail) :
    headingProgram.find ⟨before, body ++ tail, offset⟩ =
      match Text.heading? body with
      | some title => some (headingMatch offset title)
      | none => (beyond tail (offset + Text.byteLength body)).bind Match.ofSlots := by
  show (headingProgram.scanAt ⟨before, body ++ tail, offset⟩ {} none).bind Match.ofSlots = _
  rw [scanAt_line hbefore hbody htail]
  cases htitle : Text.heading? body with
  | none => rfl
  | some title =>
      rw [Text.heading?_of_not_mem hbody] at htitle
      obtain ⟨rfl, -⟩ := Text.title?_eq_some htitle
      have hlength : offset + Text.byteLength ('#' :: ' ' :: title) =
          offset + 2 + Text.byteLength title := by
        rw [Text.byteLength_cons, Text.byteLength_cons, ← Nat.add_assoc, ← Nat.add_assoc]
        rfl
      simp only [hlength]
      rfl

theorem find_lines (cs : List Char) :
    ∀ {before : Option Char} {offset : Nat}, before = none ∨ before = some '\n' →
      headingProgram.find ⟨before, cs, offset⟩ =
        (headingMatches offset (Text.splitLines cs)).head? := by
  induction cs using Text.lines_induction with
  | last body hbody =>
      intro before offset hbefore
      have hline := find_line offset hbefore hbody lineEnds_nil
      rw [List.append_nil] at hline
      rw [hline]
      by_cases hne : body = []
      · subst hne
        rfl
      · rw [Text.splitLines_last hbody hne, headingMatches]
        cases Text.heading? body <;> rfl
  | line body rest hbody ih =>
      intro before offset hbefore
      rw [find_line offset hbefore hbody (lineEnds_newline rest), Text.splitLines_line hbody,
        headingMatches, Text.heading?_append_newline hbody]
      cases Text.heading? body with
      | some title => rfl
      | none =>
          rw [Text.byteLength_append, ← Nat.add_assoc]
          exact ih (.inr rfl)

/-! ## One after the other -/

theorem following_eq_find {program : Program} {place : Place}
    (hchars : ∀ m, program.find place = some m → m.start < m.stop) (last : Option Nat) :
    program.following place last = program.find place := by
  unfold following
  cases hfind : program.find place with
  | none => rfl
  | some m =>
      have := hchars m hfind
      simp [show ¬ m.stop ≤ m.start by omega]

/-- A search may start later if it finds the same match, and that has characters. -/
theorem findFrom_of_find_eq {program : Program} (hframed : program.Framed) {p q : Place}
    (hp : p.In text) (hq : q.In text) (hle : p.offset ≤ q.offset)
    (hfind : program.find p = program.find q)
    (hchars : ∀ m, program.find q = some m → m.start < m.stop) (last last' : Option Nat) :
    program.findFrom most p last = program.findFrom most q last' := by
  cases most with
  | zero => rfl
  | succ most =>
      rw [findFrom_succ, findFrom_succ, following_eq_find hchars, following_eq_find (hfind ▸ hchars),
        hfind]
      cases hm : program.find q with
      | none => rfl
      | some m =>
          obtain ⟨-, ⟨front, back, htext, hlength⟩, hstart, hlen⟩ := find_between hframed hq hm
          have hafter : Place.In text ⟨front.getLast?, back, m.stop⟩ := ⟨front, htext, hlength, rfl⟩
          have hseekp := Place.seek_eq hp hafter (show p.offset ≤ m.stop by omega)
          have hseekq := Place.seek_eq hq hafter (show q.offset ≤ m.stop by omega)
          simp only at hseekp hseekq
          simp only [hseekp, hseekq]

theorem find_lines_chars {cs : List Char} (hbefore : before = none ∨ before = some '\n') :
    ∀ m, headingProgram.find ⟨before, cs, offset⟩ = some m → m.start < m.stop := by
  intro m hm
  rw [find_lines cs hbefore] at hm
  exact start_lt_stop_of_mem (List.mem_of_mem_head? hm)

theorem in_skip {body tail : List Char} (h : Place.In text ⟨before, body ++ tail, offset⟩)
    (hne : body ≠ []) :
    Place.In text ⟨body.getLast?, tail, offset + Text.byteLength body⟩ := by
  obtain ⟨front, rfl, hlength, -⟩ := h
  refine ⟨front ++ body, by simp, ?_, ?_⟩
  · rw [Text.byteLength_append, hlength]
  · rw [List.getLast?_append_of_ne_nil _ hne]

/-- A heading is found, and the next search starts at the end of its line. -/
theorem findFrom_heading (hbefore : before = none ∨ before = some '\n') {body tail title : List Char}
    (hbody : '\n' ∉ body) (htail : LineEnds tail)
    (hin : Place.In text ⟨before, body ++ tail, offset⟩)
    (htitle : Text.heading? body = some title) :
    headingProgram.findFrom (most + 1) ⟨before, body ++ tail, offset⟩ last =
      headingMatch offset title ::
        headingProgram.findFrom most ⟨body.getLast?, tail, offset + Text.byteLength body⟩
          (some (headingMatch offset title).stop) := by
  have hfind := find_line offset hbefore hbody htail
  rw [htitle] at hfind
  obtain ⟨rfl, -⟩ := Text.title?_eq_some (Text.heading?_of_not_mem hbody ▸ htitle)
  have hstop : (headingMatch offset title).stop =
      offset + Text.byteLength ('#' :: ' ' :: title) := by
    rw [Text.byteLength_cons, Text.byteLength_cons, ← Nat.add_assoc, ← Nat.add_assoc]
    rfl
  have hseek := Place.seek_eq hin (in_skip hin (List.cons_ne_nil _ _)) (Nat.le_add_right _ _)
  rw [findFrom_succ, following_eq_find (find_lines_chars hbefore), hfind]
  simp only [hstop, hseek]

/-- A search from the end of a line goes on with the next one. -/
theorem find_line_end {x : Char} (hx : x ≠ '\n') (tail : List Char) :
    headingProgram.find ⟨some x, tail, offset⟩ = (beyond tail offset).bind Match.ofSlots :=
  congrArg (·.bind Match.ofSlots) (scanAt_inside List.not_mem_nil tail hx)

theorem exists_getLast? {body : List Char} (hbody : '\n' ∉ body) (hne : body ≠ []) :
    ∃ x, body.getLast? = some x ∧ x ≠ '\n' :=
  ⟨_, List.getLast?_eq_some_getLast hne, fun h => hbody (h ▸ List.getLast_mem hne)⟩

theorem findFrom_of_find_none {program : Program} {place : Place}
    (h : program.find place = none) : program.findFrom most place last = [] := by
  cases most with
  | zero => rfl
  | succ most => rw [findFrom_succ, following, h]

theorem findFrom_lines (cs : List Char) :
    ∀ {before : Option Char} {offset most : Nat} {last : Option Nat},
      before = none ∨ before = some '\n' → Place.In text ⟨before, cs, offset⟩ → cs.length < most →
      headingProgram.findFrom most ⟨before, cs, offset⟩ last =
        headingMatches offset (Text.splitLines cs) := by
  induction cs using Text.lines_induction with
  | last body hbody =>
      intro before offset most last hbefore hin hmost
      have hfind := @find_lines body _ offset hbefore
      by_cases hne : body = []
      · subst hne
        exact findFrom_of_find_none hfind
      rw [Text.splitLines_last hbody hne] at hfind ⊢
      obtain ⟨most, rfl⟩ : ∃ n, most = n + 1 := ⟨most - 1, by omega⟩
      cases htitle : Text.heading? body with
      | none =>
          simp only [headingMatches, htitle] at hfind ⊢
          exact findFrom_of_find_none hfind
      | some title =>
          obtain ⟨x, hx, hxne⟩ := exists_getLast? hbody hne
          have hline := @findFrom_heading _ _ _ most last hbefore _ _ _ hbody lineEnds_nil
            (by rwa [List.append_nil]) htitle
          rw [List.append_nil, hx, findFrom_of_find_none (find_line_end hxne [])] at hline
          simp only [headingMatches, htitle]
          exact hline
  | line body rest hbody ih =>
      intro before offset most last hbefore hin hmost
      have hnext : Place.In text ⟨some '\n', rest, offset + Text.byteLength (body ++ ['\n'])⟩ := by
        rw [← List.getLast?_concat (a := '\n') (l := body)]
        exact in_skip (by simpa using hin) (by simp)
      have hoffset : offset + Text.byteLength (body ++ ['\n']) =
          offset + Text.byteLength body + '\n'.utf8Size := by
        rw [Text.byteLength_append, ← Nat.add_assoc]
        rfl
      rw [List.length_append, List.length_cons] at hmost
      rw [Text.splitLines_line hbody, headingMatches, Text.heading?_append_newline hbody]
      cases htitle : Text.heading? body with
      | none =>
          have hfind := find_line offset hbefore hbody (lineEnds_newline rest)
          rw [htitle] at hfind
          rw [findFrom_of_find_eq headingProgram_framed hin hnext (Nat.le_add_right _ _)
            (by rw [hfind, hoffset]; rfl) (find_lines_chars (.inr rfl)) last none]
          exact ih (.inr rfl) hnext (by omega)
      | some title =>
          have hne : body ≠ [] := by
            rintro rfl
            cases htitle
          obtain ⟨most, rfl⟩ : ∃ n, most = n + 1 := ⟨most - 1, by omega⟩
          obtain ⟨x, hx, hxne⟩ := exists_getLast? hbody hne
          rw [findFrom_heading hbefore hbody (lineEnds_newline rest) hin htitle]
          rw [findFrom_of_find_eq headingProgram_framed (in_skip hin hne) hnext (by simp only; omega)
            (by rw [hx, find_line_end hxne, hoffset]; rfl) (find_lines_chars (.inr rfl)) _ none]
          rw [ih (.inr rfl) hnext (by omega)]
          rfl

theorem findAll_lines (cs : List Char) :
    headingProgram.findAll cs = headingMatches 0 (Text.splitLines cs) :=
  findFrom_lines cs (.inl rfl) (Place.start_in cs) (Nat.lt_succ_self _)

end Pattern.Program

/-! ## Boundaries -/

namespace Splitter

open Pattern.Program

theorem boundaryAt_headingMatch (front title tail : List Char) :
    boundaryAt (front ++ '#' :: ' ' :: (title ++ tail))
        (headingMatch (Text.byteLength front) title) =
      ⟨Text.byteLength front, String.ofList title⟩ := by
  have hslice := Text.slice?_append (front ++ ['#', ' ']) title tail
  rw [Text.byteLength_append, show Text.byteLength ['#', ' '] = 2 from rfl,
    List.append_assoc] at hslice
  have hdocument : front ++ '#' :: ' ' :: (title ++ tail) =
      front ++ (['#', ' '] ++ (title ++ tail)) := rfl
  simp only [boundaryAt, headingMatch, Option.getD_some, hdocument, hslice]

theorem map_boundaryAt {cs : List Char} {lines : List (List Char)} :
    ∀ {front : List Char}, cs = front ++ lines.flatten →
      (headingMatches (Text.byteLength front) lines).map (boundaryAt cs) =
        lines.zipIdx.filterMap fun (line, i) => (Text.heading? line).map fun title =>
          ⟨Text.byteLength front + Text.byteLength (lines.take i).flatten, String.ofList title⟩ := by
  induction lines with
  | nil => exact fun _ => rfl
  | cons line lines ih =>
      rintro front rfl
      have hrest := @ih (front ++ line) (by rw [List.flatten_cons, List.append_assoc])
      simp only [Text.byteLength_append] at hrest
      rw [headingMatches, List.map_append, hrest, List.zipIdx_cons, Nat.zero_add, List.zipIdx_succ,
        List.filterMap_cons, List.filterMap_map]
      have hshift : ∀ i, Text.byteLength front + Text.byteLength ((line :: lines).take (i + 1)).flatten =
          Text.byteLength front + Text.byteLength line + Text.byteLength (lines.take i).flatten := by
        intro i
        rw [List.take_succ_cons, List.flatten_cons, Text.byteLength_append, Nat.add_assoc]
      simp only [Function.comp_def, hshift]
      cases htitle : Text.heading? line with
      | none => rfl
      | some title =>
          obtain ⟨-, tail, rfl⟩ := Text.heading?_eq_some htitle
          have hboundary := boundaryAt_headingMatch front title (tail ++ lines.flatten)
          simp only [Option.map_some, Option.toList_some, List.map_cons, List.map_nil,
            List.singleton_append]
          congr 1
          simpa using hboundary

theorem ofPattern_heading : ofPattern headingPattern = .ok (ofProgram headingProgram) := rfl

/-- **Headings line by line.** The splitter of the heading pattern names one boundary for each line
of a note that is a heading, in order: it stands where the line starts, and its header is what
follows the hash and the blank, up to the newline. -/
theorem heading_lines :
    ∃ splitter, ofPattern headingPattern = .ok splitter ∧ ∀ document,
      splitter document = (Text.splitLines document.toList).zipIdx.filterMap fun (line, i) =>
        (Text.heading? line).map fun title =>
          ⟨Text.startOfLine document (i + 1), String.ofList title⟩ := by
  refine ⟨ofProgram headingProgram, ofPattern_heading, fun document => ?_⟩
  have hboundaries := @map_boundaryAt document.toList _ []
    (Text.splitLines_flatten document.toList).symm
  rw [ofProgram, findAll_lines]
  simpa [Text.startOfLine] using hboundaries

/-- Lines without a blank, with a second hash or without a title are no headings; a carriage return
is part of the title. -/
example : ofProgram headingProgram "#x\n# \n# é\r\n# z" = [⟨6, "é\r"⟩, ⟨12, "z"⟩] := by
  decide +kernel

end Splitter

end NearNotes
