import Mathlib
import NearNotes.Proofs.Note.Lines
import NearNotes.Proofs.Pattern.Matches

/-!
# The program of the heading pattern

What a scan for headings does at the places of one line.

* `headingProgram`, `parse_headingPattern` : the program that the pattern spells;
* `scanAt_idle`, `scanAt_start`, `scanAt_hash`, `scanAt_blank`, `scanAt_title` : one character, by
  how much of a heading has been read;
* `scanAt_inside`, `scanAt_titled` : the rest of a line, without a heading and inside a title;
* `scanAt_line` : a whole line.
-/

namespace NearNotes.Pattern

theorem CharSet.has_single (a c : Char) : (CharSet.single a).has c = decide (c = a) := by
  have hval : c.toNat = a.toNat ↔ c = a := ⟨fun h => Char.toNat_inj.mp h, congrArg _⟩
  simp only [CharSet.has, CharSet.single, List.any_cons, List.any_nil, Bool.or_false]
  rw [Bool.eq_iff_iff]
  simp only [Bool.and_eq_true, decide_eq_true_eq, ← hval]
  omega

theorem CharSet.has_notNewline (c : Char) : CharSet.notNewline.has c = decide (c ≠ '\n') := by
  have hval : c.toNat = 10 ↔ c = '\n' := ⟨fun h => Char.toNat_inj.mp h, congrArg _⟩
  have htop : c.toNat ≤ 0x10FFFF := by
    rcases c.valid with h | ⟨-, h⟩
    · exact Nat.le_of_lt (Nat.lt_trans h (by decide))
    · exact Nat.le_of_lt_succ h
  simp only [CharSet.has, CharSet.notNewline, CharSet.top, List.any_cons, List.any_nil,
    Bool.or_false]
  rw [Bool.eq_iff_iff]
  simp only [Bool.and_eq_true, Bool.or_eq_true, decide_eq_true_eq, ne_eq, ← hval]
  omega

namespace Program

/-- The program of the heading pattern. A match is opened at node ten, its hash is read at node
eight, the blank at node seven and the title at node five. -/
def headingProgram : Program where
  nodes := #[.accept, .mark 1 0, .check .lineEnd 1, .mark 3 2, .branch 5 3, .read .notNewline 4,
    .mark 2 5, .read (.single ' ') 6, .read (.single '#') 7, .check .lineStart 8, .mark 0 9]
  start := 10

theorem parse_headingPattern :
    ∃ ast, parse Splitter.headingPattern = .ok ast ∧ ofAst ast = headingProgram := ⟨_, rfl, rfl⟩

variable {place next : Place} {start title offset : Nat} {c : Char} {rest : List Char}

/-! ## Arriving at a place -/

theorem enter_fresh_of_inside (h : Look.lineStart.holds place = false) {active : Active}
    (hopening : 10 ∉ active.seen) (hstart : 9 ∉ active.seen) :
    headingProgram.enter place headingProgram.fresh active =
      ⟨9 :: 10 :: active.seen, active.threads⟩ := by
  simp [enter, headingProgram, fresh, explore_cons, explore_nil, moves, Active.visit, waits, h,
    hopening, hstart]

theorem enter_fresh_of_lineStart (h : Look.lineStart.holds place = true) :
    headingProgram.enter place headingProgram.fresh {} =
      ⟨[8, 9, 10], [⟨8, [some place.offset, none, none, none]⟩]⟩ := by
  simp [enter, headingProgram, fresh, explore_cons, explore_nil, moves, Active.visit, waits, h,
    Slots.empty]

/-- Behind a hash that starts a line. -/
def hashed (start : Nat) : Active := ⟨[7], [⟨7, [some start, none, none, none]⟩]⟩

/-- Behind the blank after that hash, where the title starts. -/
def blanked (start title : Nat) : Active :=
  ⟨[5, 6], [⟨5, [some start, none, some title, none]⟩]⟩

/-- Behind a character of the title. At the end of its line the heading is complete, though more
of it would be preferred. -/
def titled (start title : Nat) (place : Place) : Active :=
  if Look.lineEnd.holds place then
    ⟨[0, 1, 2, 3, 5, 4],
      [⟨0, [some start, some place.offset, some title, some place.offset]⟩,
        ⟨5, [some start, none, some title, none]⟩]⟩
  else ⟨[2, 3, 5, 4], [⟨5, [some start, none, some title, none]⟩]⟩

theorem enter_hash : headingProgram.enter place ⟨7, [some start, none, none, none]⟩ {} =
    hashed start := by
  simp [enter, headingProgram, explore_cons, explore_nil, moves, Active.visit, waits, hashed]

theorem enter_blank : headingProgram.enter place ⟨6, [some start, none, none, none]⟩ {} =
    blanked start place.offset := by
  simp [enter, headingProgram, explore_cons, explore_nil, moves, Active.visit, waits, blanked]

theorem enter_title : headingProgram.enter place ⟨4, [some start, none, some title, none]⟩ {} =
    titled start title place := by
  unfold titled
  split
  case isTrue h =>
    simp [enter, headingProgram, explore_cons, explore_nil, moves, Active.visit, waits, h]
  case isFalse h =>
    simp [enter, headingProgram, explore_cons, explore_nil, moves, Active.visit, waits, h]

/-! ## One character -/

/-- A single thread that waits for a character goes on with it or ends. -/
theorem scanAt_read {active : Active} {seen : List Nat} {n target : Nat} {slots : Slots}
    {chars : CharSet} (hafter : place.after = c :: rest) (hnext : place.next? = some next)
    (hjoined : headingProgram.enter place headingProgram.fresh active = ⟨seen, [⟨n, slots⟩]⟩)
    (hnode : headingProgram.nodes[n]? = some (.read chars target)) :
    headingProgram.scanAt place active none =
      headingProgram.scanAt next
        (if chars.has c then headingProgram.enter next ⟨target, slots⟩ {} else {}) none := by
  rw [scanAt_next hafter hnext, joined_none, hjoined]
  simp only [List.reverse_singleton, advance_cons, accepted_eq_find?, List.find?_cons, accepting,
    onward?, hnode, List.find?_nil, Option.map_none, Option.or_none, Option.isSome_none,
    Bool.and_false, Bool.false_eq_true, if_false]
  split <;> rfl

/-- At the end of the text, a thread that waits for a character is of no use. -/
theorem scanAt_read_end {active : Active} {seen : List Nat} {n target : Nat} {slots : Slots}
    {chars : CharSet} (hafter : place.after = [])
    (hjoined : headingProgram.enter place headingProgram.fresh active = ⟨seen, [⟨n, slots⟩]⟩)
    (hnode : headingProgram.nodes[n]? = some (.read chars target)) :
    headingProgram.scanAt place active none = none := by
  rw [scanAt_end hafter, joined_none, hjoined]
  simp [accepted_eq_find?, accepting, hnode]

theorem scanAt_idle (hafter : place.after = c :: rest) (hnext : place.next? = some next)
    (h : Look.lineStart.holds place = false) :
    headingProgram.scanAt place {} none = headingProgram.scanAt next {} none := by
  rw [scanAt_next hafter hnext, joined_none,
    enter_fresh_of_inside h List.not_mem_nil List.not_mem_nil]
  rfl

theorem enter_fresh_hashed (h : Look.lineStart.holds place = false) :
    headingProgram.enter place headingProgram.fresh (hashed start) =
      ⟨[9, 10, 7], [⟨7, [some start, none, none, none]⟩]⟩ :=
  enter_fresh_of_inside h (by simp [hashed]) (by simp [hashed])

theorem enter_fresh_blanked (h : Look.lineStart.holds place = false) :
    headingProgram.enter place headingProgram.fresh (blanked start title) =
      ⟨[9, 10, 5, 6], [⟨5, [some start, none, some title, none]⟩]⟩ :=
  enter_fresh_of_inside h (by simp [blanked]) (by simp [blanked])

theorem scanAt_start (hafter : place.after = c :: rest) (hnext : place.next? = some next)
    (h : Look.lineStart.holds place = true) :
    headingProgram.scanAt place {} none =
      headingProgram.scanAt next (if c = '#' then hashed place.offset else {}) none := by
  rw [scanAt_read hafter hnext (enter_fresh_of_lineStart h) rfl, enter_hash, CharSet.has_single]
  simp only [decide_eq_true_eq]

theorem scanAt_hash (hafter : place.after = c :: rest) (hnext : place.next? = some next)
    (h : Look.lineStart.holds place = false) :
    headingProgram.scanAt place (hashed start) none =
      headingProgram.scanAt next (if c = ' ' then blanked start next.offset else {}) none := by
  rw [scanAt_read hafter hnext (enter_fresh_hashed h) rfl, enter_blank, CharSet.has_single]
  simp only [decide_eq_true_eq]

theorem scanAt_blank (hafter : place.after = c :: rest) (hnext : place.next? = some next)
    (h : Look.lineStart.holds place = false) :
    headingProgram.scanAt place (blanked start title) none =
      headingProgram.scanAt next (if c = '\n' then {} else titled start title next) none := by
  rw [scanAt_read hafter hnext (enter_fresh_blanked h) rfl, enter_title, CharSet.has_notNewline]
  simp only [decide_eq_true_eq, ite_not]

theorem scanAt_title (hafter : place.after = c :: rest) (hnext : place.next? = some next)
    (h : Look.lineStart.holds place = false) (hc : c ≠ '\n') :
    headingProgram.scanAt place (titled start title place) none =
      headingProgram.scanAt next (titled start title next) none := by
  have hend : Look.lineEnd.holds place = false := by simp [Look.holds, hafter, hc]
  have hjoined : headingProgram.enter place headingProgram.fresh (titled start title place) =
      ⟨[9, 10, 2, 3, 5, 4], [⟨5, [some start, none, some title, none]⟩]⟩ := by
    rw [titled, if_neg (by simp [hend])]
    exact enter_fresh_of_inside h (by simp) (by simp)
  rw [scanAt_read hafter hnext hjoined rfl, enter_title, CharSet.has_notNewline]
  simp [hc]

/-- At the end of its line a heading is found, and no more of it can be. -/
theorem scanAt_title_end (hend : Look.lineEnd.holds place = true)
    (h : Look.lineStart.holds place = false) :
    headingProgram.scanAt place (titled start title place) none =
      some [some start, some place.offset, some title, some place.offset] := by
  have hjoined : headingProgram.enter place headingProgram.fresh (titled start title place) =
      ⟨[9, 10, 0, 1, 2, 3, 5, 4],
        [⟨0, [some start, some place.offset, some title, some place.offset]⟩,
          ⟨5, [some start, none, some title, none]⟩]⟩ := by
    rw [titled, if_pos hend]
    exact enter_fresh_of_inside h (by simp) (by simp)
  cases hafter : place.after with
  | nil =>
      rw [scanAt_end hafter, joined_none, hjoined]
      rfl
  | cons c rest =>
      have hc : c = '\n' := by simpa [Look.holds, hafter] using hend
      subst hc
      rw [scanAt_next hafter (place.next?_cons hafter), joined_none, hjoined]
      rfl

/-! ## One line -/

/-- What a scan comes to that leaves a line without a match. -/
def beyond (tail : List Char) (offset : Nat) : Option Slots :=
  match tail with
  | [] => none
  | c :: rest => headingProgram.scanAt ⟨some c, rest, offset + c.utf8Size⟩ {} none

/-- The text is at its end or at the end of a line. -/
def LineEnds (tail : List Char) : Prop := ∀ c ∈ tail.head?, c = '\n'

theorem lineEnds_nil : LineEnds [] := fun _ h => by cases h

theorem lineEnds_newline (rest : List Char) : LineEnds ('\n' :: rest) := fun _ h => by
  cases h
  rfl

theorem lineStart_inside {x : Char} (hx : x ≠ '\n') (after : List Char) (offset : Nat) :
    Look.lineStart.holds ⟨some x, after, offset⟩ = false := by simp [Look.holds, hx]

/-- A thread that waits for another character than the end of the line gets no further. -/
theorem scanAt_stop {active : Active} {seen : List Nat} {n target : Nat} {slots : Slots}
    {chars : CharSet} {before : Option Char} {tail : List Char} (htail : LineEnds tail)
    (hjoined : headingProgram.enter ⟨before, tail, offset⟩ headingProgram.fresh active =
      ⟨seen, [⟨n, slots⟩]⟩)
    (hnode : headingProgram.nodes[n]? = some (.read chars target))
    (hchars : chars.has '\n' = false) :
    headingProgram.scanAt ⟨before, tail, offset⟩ active none = beyond tail offset := by
  cases tail with
  | nil => exact scanAt_read_end rfl hjoined hnode
  | cons c rest =>
      obtain rfl : c = '\n' := htail c rfl
      rw [scanAt_read rfl rfl hjoined hnode, hchars]
      rfl

theorem scanAt_inside {body : List Char} (hbody : '\n' ∉ body) (tail : List Char) :
    ∀ {x : Char} {offset : Nat}, x ≠ '\n' →
      headingProgram.scanAt ⟨some x, body ++ tail, offset⟩ {} none =
        beyond tail (offset + Text.byteLength body) := by
  induction body with
  | nil =>
      intro x offset hx
      cases tail with
      | nil =>
          rw [scanAt_end rfl, joined_none, enter_fresh_of_inside (lineStart_inside hx _ _)
            List.not_mem_nil List.not_mem_nil]
          rfl
      | cons c rest => exact scanAt_idle rfl rfl (lineStart_inside hx _ _)
  | cons c body ih =>
      intro x offset hx
      obtain ⟨hc, hbody⟩ := List.ne_and_not_mem_of_not_mem_cons hbody
      rw [List.cons_append, scanAt_idle rfl rfl (lineStart_inside hx _ _), ih hbody hc.symm,
        Text.byteLength_cons, Nat.add_assoc]

theorem scanAt_titled {body tail : List Char} (hbody : '\n' ∉ body) (htail : LineEnds tail) :
    ∀ {x : Char} {offset : Nat}, x ≠ '\n' →
      headingProgram.scanAt ⟨some x, body ++ tail, offset⟩
          (titled start title ⟨some x, body ++ tail, offset⟩) none =
        some [some start, some (offset + Text.byteLength body), some title,
          some (offset + Text.byteLength body)] := by
  induction body with
  | nil =>
      intro x offset hx
      refine scanAt_title_end ?_ (lineStart_inside hx _ _)
      cases tail with
      | nil => rfl
      | cons c rest =>
          obtain rfl : c = '\n' := htail c rfl
          rfl
  | cons c body ih =>
      intro x offset hx
      obtain ⟨hc, hbody⟩ := List.ne_and_not_mem_of_not_mem_cons hbody
      rw [List.cons_append, scanAt_title rfl rfl (lineStart_inside hx _ _) hc.symm,
        ih hbody hc.symm, Text.byteLength_cons, Nat.add_assoc]

theorem scanAt_line {before : Option Char} (hbefore : before = none ∨ before = some '\n')
    {body tail : List Char} (hbody : '\n' ∉ body) (htail : LineEnds tail) :
    headingProgram.scanAt ⟨before, body ++ tail, offset⟩ {} none =
      match Text.heading? body with
      | some _ => some [some offset, some (offset + Text.byteLength body), some (offset + 2),
          some (offset + Text.byteLength body)]
      | none => beyond tail (offset + Text.byteLength body) := by
  have hline : ∀ after, Look.lineStart.holds ⟨before, after, offset⟩ = true := by
    intro after
    rcases hbefore with rfl | rfl <;> rfl
  -- The line is read as far as it is the start of a heading.
  cases body with
  | nil => exact scanAt_stop htail (enter_fresh_of_lineStart (hline _)) rfl rfl
  | cons c body =>
    obtain ⟨hc, hrest⟩ := List.ne_and_not_mem_of_not_mem_cons hbody
    rw [List.cons_append, scanAt_start rfl rfl (hline _)]
    by_cases hhash : c = '#'
    case neg =>
      rw [Text.heading?_of_not_mem hbody, Text.title?_of_ne_hash hhash,
        if_neg hhash, scanAt_inside hrest tail hc.symm,
        Text.byteLength_cons, Nat.add_assoc]
    subst hhash
    rw [if_pos rfl]
    cases body with
    | nil => exact scanAt_stop htail (enter_fresh_hashed (lineStart_inside hc.symm _ _)) rfl rfl
    | cons d body =>
      obtain ⟨hd, hmore⟩ := List.ne_and_not_mem_of_not_mem_cons hrest
      rw [List.cons_append, scanAt_hash rfl rfl (lineStart_inside hc.symm _ _)]
      by_cases hblank : d = ' '
      case neg =>
        rw [Text.heading?_of_not_mem hbody, Text.title?_of_ne_blank hblank,
          if_neg hblank, scanAt_inside hmore tail hd.symm,
          Text.byteLength_cons, Text.byteLength_cons]
        simp only [Nat.add_assoc]
      subst hblank
      rw [if_pos rfl]
      cases body with
      | nil => exact scanAt_stop htail (enter_fresh_blanked (lineStart_inside hd.symm _ _)) rfl rfl
      | cons e body =>
        obtain ⟨he, htitle⟩ := List.ne_and_not_mem_of_not_mem_cons hmore
        rw [List.cons_append, scanAt_blank rfl rfl (lineStart_inside hd.symm _ _),
          if_neg he.symm, scanAt_titled htitle htail he.symm, Text.heading?_of_not_mem hbody]
        simp only [Text.byteLength_cons, Nat.add_assoc]
        rfl

end Program

end NearNotes.Pattern
