import Mathlib
import NearNotes.Proofs.Pattern.Scan

/-!
# The matches of a text

The matches that a search finds one after the other.

* `find_between`, `find_again` : a match lies behind the place where its search starts, and one
  without characters is found again by a search that starts at it;
* `following`, `Passed` : the match after another one, with an empty one passed over;
* `findFrom_increasing`, `findAll_increasing` : matches start at places of the text, every one
  behind the one before.
-/

namespace NearNotes.Pattern.Program

variable {program : Program} {text : List Char} {place : Place} {m : Match}

theorem exists_ofSlots_eq {slots : Slots} {start stop : Nat}
    (hstart : slots[0]? = some (some start)) (hstop : slots[1]? = some (some stop)) :
    ∃ m : Match, Match.ofSlots slots = some m ∧ m.start = start ∧ m.stop = stop := by
  match slots, hstart, hstop with
  | _ :: _ :: rest, rfl, rfl =>
      unfold Match.ofSlots
      split
      case h_1 heq => cases heq; exact ⟨_, rfl, rfl, rfl⟩
      case h_2 heq => cases heq; exact ⟨_, rfl, rfl, rfl⟩
      case h_3 hnot => exact absurd rfl (hnot _ _ _)

theorem slots_of_find (hframed : program.Framed) (hplace : place.In text)
    (h : program.find place = some m) :
    ∃ slots, program.scanAt place {} none = some slots ∧ Match.ofSlots slots = some m ∧
      slots[0]? = some (some m.start) ∧ slots[1]? = some (some m.stop) ∧
      Found text (fun a => Text.IsPlace text a ∧ place.offset ≤ a) 0 slots := by
  obtain ⟨slots, hscan, hmatch⟩ := Option.bind_eq_some_iff.mp h
  have hfound : Found text (fun a => Text.IsPlace text a ∧ place.offset ≤ a) 0 slots :=
    scanAt_found hframed hplace (Nat.zero_le _) Active.valid_empty
      (fun _ later hlater hle => ⟨hlater.isPlace, hle⟩) (fun _ hnone => by cases hnone) slots hscan
  obtain ⟨start, stop, hstart, hstop, -⟩ := id hfound
  obtain ⟨m', hmatch', rfl, rfl⟩ := exists_ofSlots_eq hstart hstop
  cases hmatch.symm.trans hmatch'
  exact ⟨slots, hscan, hmatch, hstart, hstop, hfound⟩

/-- A match starts and stops at places behind the one where its search starts. -/
theorem find_between (hframed : program.Framed) (hplace : place.In text)
    (h : program.find place = some m) :
    Text.IsPlace text m.start ∧ Text.IsPlace text m.stop ∧ place.offset ≤ m.start ∧
      m.start ≤ m.stop := by
  obtain ⟨slots, -, -, hstart, hstop, start, stop, hstart', hstop', ⟨hplace', hle⟩, hlen, -,
    hend⟩ := slots_of_find hframed hplace h
  cases hstart.symm.trans hstart'
  cases hstop.symm.trans hstop'
  exact ⟨hplace', hend, hle, hlen⟩

/-- A match without characters is found again by the search that starts at it. -/
theorem find_again (hframed : program.Framed) (hplace : place.In text)
    (h : program.find place = some m) (hempty : m.start = m.stop) :
    ∃ again : Place, again.In text ∧ again.offset = m.stop ∧ program.find again = some m := by
  obtain ⟨slots, hscan, hmatch, hstart, hstop, -⟩ := slots_of_find hframed hplace h
  obtain ⟨again, hagain, hoffset, hscan'⟩ := scanAt_again hframed hplace Active.valid_empty hscan
    (hempty ▸ hstart) hstop
  refine ⟨again, hagain, hoffset, ?_⟩
  show (program.scanAt again {} none).bind Match.ofSlots = some m
  rw [hscan']
  exact hmatch

/-! ## One after the other -/

/-- The match at or after a place, where an empty one at the end of the match before is passed
over. -/
def following (program : Program) (place : Place) (last : Option Nat) : Option Match :=
  match program.find place with
  | none => none
  | some m =>
    if m.stop ≤ m.start && some m.stop == last then place.next?.bind program.find else some m

theorem findFrom_succ (program : Program) (most : Nat) (place : Place) (last : Option Nat) :
    program.findFrom (most + 1) place last =
      match program.following place last with
      | none => []
      | some m =>
        m :: program.findFrom most (seek m.stop place.before place.offset place.after)
          (some m.stop) := rfl

/-- The match before ends here, and what a search from here finds is empty and stands here. -/
def Passed (program : Program) (place : Place) (last : Option Nat) : Prop :=
  last = some place.offset ∧
    ∃ m, program.find place = some m ∧ m.start = place.offset ∧ m.stop = place.offset

/-- The match that follows is found by a search from here, or from the next place if the match
here is passed over. -/
theorem find_of_following (hplace : place.In text) {last : Option Nat}
    (h : program.following place last = some m) :
    ∃ origin : Place, origin.In text ∧ place.offset ≤ origin.offset ∧
      program.find origin = some m ∧ (program.Passed place last → place.offset < origin.offset) := by
  unfold following at h
  cases hfind : program.find place with
  | none =>
      rw [hfind] at h
      cases h
  | some first =>
      simp only [hfind] at h
      split at h
      case isTrue =>
        obtain ⟨next, hnext, hm⟩ := Option.bind_eq_some_iff.mp h
        obtain ⟨hin, hlt⟩ := hplace.next hnext
        exact ⟨next, hin, Nat.le_of_lt hlt, hm, fun _ => hlt⟩
      case isFalse hnot =>
        cases h
        refine ⟨place, hplace, Nat.le_refl _, hfind, ?_⟩
        rintro ⟨hlast, m', hm', hstart, hstop⟩
        cases hfind.symm.trans hm'
        exact absurd (by simp [hlast, hstart, hstop]) hnot

theorem findFrom_increasing (hframed : program.Framed) {most : Nat} :
    ∀ {place : Place} {last : Option Nat}, place.In text →
      let offsets := (program.findFrom most place last).map Match.start
      offsets.Pairwise (· < ·) ∧ ∀ a ∈ offsets, Text.IsPlace text a ∧ place.offset ≤ a ∧
        (program.Passed place last → place.offset < a) := by
  induction most with
  | zero => exact fun _ => ⟨.nil, fun _ ha => absurd ha List.not_mem_nil⟩
  | succ most ih =>
      intro place last hplace
      rw [findFrom_succ]
      cases hfollowing : program.following place last with
      | none => exact ⟨.nil, fun _ ha => absurd ha List.not_mem_nil⟩
      | some m =>
          obtain ⟨origin, horigin, hle, hfind, hpassed⟩ := find_of_following hplace hfollowing
          obtain ⟨hstart, hstop, hle', hlen⟩ := find_between hframed horigin hfind
          obtain ⟨front, back, htext, hlength⟩ := hstop
          obtain ⟨after, hafter, hoffset⟩ : ∃ after : Place, after.In text ∧ after.offset = m.stop :=
            ⟨⟨front.getLast?, back, m.stop⟩, ⟨front, htext, hlength, rfl⟩, rfl⟩
          have hseek : seek m.stop place.before place.offset place.after = after := by
            rw [← hoffset]
            exact Place.seek_eq hplace hafter (by omega)
          obtain ⟨hsorted, hrest⟩ := @ih after (some m.stop) hafter
          -- If the match is empty, the search from its end finds it and passes over it.
          have hbehind : ∀ a ∈ (program.findFrom most after (some m.stop)).map Match.start,
              m.start < a := by
            intro a ha
            obtain ⟨-, hge, hgt⟩ := hrest a ha
            rcases Nat.lt_or_eq_of_le hlen with hlt | heq
            · omega
            · obtain ⟨again, hagain, hsame, hfind'⟩ := find_again hframed horigin hfind heq
              obtain rfl := hagain.unique hafter (hsame.trans hoffset.symm)
              have := hgt ⟨by rw [hoffset], m, hfind', by omega, by omega⟩
              omega
          simp only [hseek, List.map_cons]
          refine ⟨.cons hbehind hsorted, List.forall_mem_cons.mpr ⟨⟨hstart, by omega,
            fun h => Nat.lt_of_lt_of_le (hpassed h) hle'⟩, fun a ha => ?_⟩⟩
          have hlt := hbehind a ha
          exact ⟨(hrest a ha).1, by omega, fun _ => by omega⟩

theorem findAll_increasing (hframed : program.Framed) (text : List Char) :
    let offsets := (program.findAll text).map Match.start
    offsets.Pairwise (· < ·) ∧ ∀ a ∈ offsets, Text.IsPlace text a := by
  have hall := @findFrom_increasing _ _ hframed (text.length + 1) _ none (Place.start_in text)
  exact ⟨hall.1, fun a ha => (hall.2 a ha).1⟩

end NearNotes.Pattern.Program
