import Mathlib
import NearNotes.Pattern.Parser
import NearNotes.Proofs.Results

/-!
# Numbers of groups

The number zero is kept for the whole match: no group of a pattern that is read has it.

* `Ast.Numbered` : all groups of a pattern count from one;
* `Reader.Numbered` : so do those of all parts read so far and the open ones;
* `Reader.step_numbered`, `parse_numbered` : each step of a reader keeps to that, and so does the
  pattern read in the end.
-/

namespace NearNotes.Pattern

def Ast.Numbered : Ast → Prop
  | empty | never | set _ | look _ => True
  | seq a b => a.Numbered ∧ b.Numbered
  | either a b => a.Numbered ∧ b.Numbered
  | group index body => 1 ≤ index ∧ body.Numbered
  | repeated _ _ _ body => body.Numbered

/-- All groups of the parts have numbers from one on. -/
def Part.AllNumbered (parts : List Part) : Prop := ∀ p ∈ parts, p.ast.Numbered

namespace Part

theorem AllNumbered.nil : AllNumbered [] := fun _ hp => absurd hp List.not_mem_nil

theorem allNumbered_cons {p : Part} {parts : List Part} :
    AllNumbered (p :: parts) ↔ p.ast.Numbered ∧ AllNumbered parts := List.forall_mem_cons

theorem AllNumbered.reverse {parts : List Part} (h : AllNumbered parts) :
    AllNumbered parts.reverse := fun p hp => h p (List.mem_reverse.mp hp)

theorem foldl_seq_numbered {parts : List Part} :
    ∀ {ast : Ast}, ast.Numbered → AllNumbered parts →
      (parts.foldl (fun ast p => .seq ast p.ast) ast).Numbered := by
  induction parts with
  | nil => exact fun h _ => h
  | cons p parts ih =>
      intro ast h hparts
      exact ih ⟨h, (allNumbered_cons.mp hparts).1⟩ (allNumbered_cons.mp hparts).2

theorem row_numbered {parts : List Part} (h : AllNumbered parts) : (row parts).ast.Numbered := by
  match parts with
  | [] => exact trivial
  | [p] => exact h p List.mem_cons_self
  | p :: q :: rest =>
      exact foldl_seq_numbered (allNumbered_cons.mp h).1 (allNumbered_cons.mp h).2

theorem eitherAll_numbered {parts : List Part} (h : AllNumbered parts) :
    (Ast.eitherAll (parts.map Part.ast)).Numbered := by
  induction parts with
  | nil => exact trivial
  | cons p parts ih =>
      obtain ⟨hp, hparts⟩ := allNumbered_cons.mp h
      cases parts with
      | nil => exact hp
      | cons q parts => exact ⟨hp, ih hparts⟩

theorem alternatives_numbered {parts : List Part} (h : AllNumbered parts) :
    (alternatives parts).ast.Numbered := by
  unfold alternatives
  split
  · exact h _ List.mem_cons_self
  · exact eitherAll_numbered h

theorem repeated_numbered {p : Part} (h : p.ast.Numbered) (least : Nat) (most : Option Nat)
    (greedy : Bool) : (repeated least most greedy p).ast.Numbered := by
  unfold repeated
  split
  · exact trivial
  · exact h
  · exact h

end Part

theorem Item.toPart_numbered (item : Item) : item.toPart.ast.Numbered := by
  cases item with
  | char c => exact trivial
  | set chars =>
      simp only [Item.toPart]
      split <;> exact trivial
  | look condition => exact trivial

namespace Reader

structure Numbered (r : Reader) : Prop where
  row : Part.AllNumbered r.row
  alternatives : Part.AllNumbered r.alternatives
  frames : ∀ f ∈ r.stack, Part.AllNumbered f.row ∧ Part.AllNumbered f.alternatives ∧
    ∀ index ∈ f.index, 1 ≤ index

variable {r r' : Reader} {cs rest : List Char}

theorem Numbered.start : Numbered {} :=
  ⟨.nil, .nil, fun _ hf => absurd hf List.not_mem_nil⟩

theorem Numbered.push (h : r.Numbered) {p : Part} (hp : p.ast.Numbered) :
    (r.push p).Numbered :=
  ⟨Part.allNumbered_cons.mpr ⟨hp, h.row⟩, h.alternatives, h.frames⟩

theorem Numbered.inner (h : r.Numbered) : r.inner.ast.Numbered :=
  Part.alternatives_numbered (Part.AllNumbered.reverse
    (Part.allNumbered_cons.mpr ⟨Part.row_numbered h.row.reverse, h.alternatives⟩))

theorem Numbered.openGroup (h : r.Numbered) {index : Option Nat} {flags : Flags}
    (hindex : ∀ i ∈ index, 1 ≤ i) (hopen : r.openGroup index flags = .ok r') : r'.Numbered := by
  unfold Reader.openGroup at hopen
  split at hopen
  · cases hopen
  · cases hopen
    exact ⟨.nil, .nil, List.forall_mem_cons.mpr ⟨⟨h.row, h.alternatives, hindex⟩, h.frames⟩⟩

theorem Numbered.closeGroup (h : r.Numbered) (hclose : r.closeGroup = .ok r') : r'.Numbered := by
  unfold Reader.closeGroup at hclose
  split at hclose
  case h_1 => cases hclose
  case h_2 frame stack hstack =>
    cases hclose
    have hframes := h.frames
    rw [hstack] at hframes
    obtain ⟨⟨hrow, halternatives, hindex⟩, hframes⟩ := List.forall_mem_cons.mp hframes
    refine ⟨Part.allNumbered_cons.mpr ⟨?_, hrow⟩, halternatives, hframes⟩
    split
    case h_1 index hsome => exact ⟨hindex index hsome, h.inner⟩
    case h_2 => exact h.inner

theorem Numbered.openNamed (h : r.Numbered) (hopen : r.openNamed cs = .ok (r', rest)) :
    r'.Numbered := by
  obtain ⟨⟨name, after⟩, -, hopen⟩ := bind_eq_ok_iff.mp hopen
  simp only at hopen
  split at hopen
  · cases hopen
  · obtain ⟨opened, hopened, heq⟩ := bind_eq_ok_iff.mp hopen
    cases heq
    have hnamed : ({ r with names := name :: r.names } : Reader).Numbered :=
      ⟨h.row, h.alternatives, h.frames⟩
    exact hnamed.openGroup (by simp) hopened

theorem Numbered.readGroup (h : r.Numbered) (hread : r.readGroup cs = .ok (r', rest)) :
    r'.Numbered := by
  unfold Reader.readGroup at hread
  split at hread
  · cases hread
  · cases hread
  · cases hread
  · cases hread
  · exact h.openNamed hread
  · exact h.openNamed hread
  · obtain ⟨⟨flags, after⟩, -, hread⟩ := bind_eq_ok_iff.mp hread
    simp only at hread
    split at hread
    · split at hread
      · cases hread
      · cases hread
        exact ⟨h.row, h.alternatives, h.frames⟩
    · obtain ⟨opened, hopened, heq⟩ := bind_eq_ok_iff.mp hread
      cases heq
      exact h.openGroup (by simp) hopened
  · obtain ⟨opened, hopened, heq⟩ := bind_eq_ok_iff.mp hread
    cases heq
    exact h.openGroup (by simp) hopened

theorem Numbered.readMark (h : r.Numbered) {least : Nat} {most : Option Nat}
    (hread : r.readMark least most cs = .ok (r', rest)) : r'.Numbered := by
  obtain ⟨repeated, hrepeat, heq⟩ := bind_eq_ok_iff.mp hread
  cases heq
  unfold Reader.repeatLast at hrepeat
  split at hrepeat
  case h_1 => cases hrepeat
  case h_2 part row hrow =>
    cases hrepeat
    have hparts := h.row
    rw [hrow] at hparts
    obtain ⟨hpart, hparts⟩ := Part.allNumbered_cons.mp hparts
    exact ⟨Part.allNumbered_cons.mpr ⟨Part.repeated_numbered hpart _ _ _, hparts⟩,
      h.alternatives, h.frames⟩

theorem step_numbered (h : r.Numbered) (hstep : r.step cs = .ok (r', rest)) : r'.Numbered := by
  unfold step at hstep
  split at hstep
  case h_1 => cases hstep; exact h
  case h_2 => exact h.readGroup hstep
  case h_3 =>
    obtain ⟨closed, hclosed, heq⟩ := bind_eq_ok_iff.mp hstep
    cases heq
    exact h.closeGroup hclosed
  case h_4 =>
    cases hstep
    exact ⟨.nil, Part.allNumbered_cons.mpr ⟨Part.row_numbered h.row.reverse, h.alternatives⟩,
      h.frames⟩
  case h_5 =>
    obtain ⟨⟨item, after⟩, -, heq⟩ := bind_eq_ok_iff.mp hstep
    cases heq
    exact h.push item.toPart_numbered
  case h_6 => exact h.readMark hstep
  case h_7 => exact h.readMark hstep
  case h_8 => exact h.readMark hstep
  case h_9 =>
    split at hstep
    · cases hstep
    · obtain ⟨⟨least, most, after⟩, -, hread⟩ := bind_eq_ok_iff.mp hstep
      exact h.readMark hread
  case h_10 =>
    obtain ⟨⟨item, after⟩, -, heq⟩ := bind_eq_ok_iff.mp hstep
    cases heq
    exact h.push item.toPart_numbered
  case h_11 => cases hstep; exact h.push (Item.toPart_numbered _)
  case h_12 => cases hstep; exact h.push trivial
  case h_13 => cases hstep; exact h.push trivial
  case h_14 => cases hstep; exact h.push (Item.toPart_numbered _)

theorem readAll_numbered {most : Nat} :
    ∀ {r : Reader} {cs : List Char}, r.Numbered → r.readAll most cs = .ok r' → r'.Numbered := by
  induction most with
  | zero =>
      intro r cs h hread
      cases hread
      exact h
  | succ most ih =>
      intro r cs h hread
      unfold readAll at hread
      split at hread
      · cases hread
        exact h
      · obtain ⟨⟨next, rest⟩, hstep, hread⟩ := bind_eq_ok_iff.mp hread
        exact ih (step_numbered h hstep) hread

end Reader

theorem parse_numbered {text : String} {ast : Ast} (h : parse text = .ok ast) : ast.Numbered := by
  obtain ⟨r, hread, h⟩ := bind_eq_ok_iff.mp h
  have hr := Reader.readAll_numbered .start hread
  simp only at h
  split at h
  · cases h
  · split at h
    · cases h
    · split at h
      · cases h
      · cases h
        exact hr.inner

end NearNotes.Pattern
