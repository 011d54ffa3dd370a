import Mathlib
import NearNotes.Proofs.Pattern.Threads

/-!
# The match of a search

What a scan of a text comes to, for any program that opens and closes its match once.

* `scanAt`, `scanAt_end`, `scanAt_next` : a scan, place by place;
* `Found`, `scanAt_found` : a match starts and stops at places of the text;
* `scanAt_of_dead`, `scanAt_of_live` : a match is replaced just when some way ahead of it accepts,
  and then by one that stops later;
* `scanAt_again` : a match without characters is found again by a scan that starts at it.
-/

namespace NearNotes.Pattern.Program

variable {program : Program} {text : List Char} {starts : Nat → Prop} {low : Nat}
  {place next : Place} {active : Active} {best : Option Slots}

def scanAt (program : Program) (place : Place) : Active → Option Slots → Option Slots :=
  program.scan place.before place.offset place.after

/-- The threads at a place: as long as there is no match a new one enters. -/
def joined (program : Program) (place : Place) (active : Active) (best : Option Slots) : Active :=
  if best.isNone then program.enter place program.fresh active else active

theorem scanAt_end (h : place.after = []) :
    program.scanAt place active best =
      (program.accepted (program.joined place active best).threads.reverse).or best := by
  obtain ⟨before, after, offset⟩ := place
  cases h
  rfl

/-- The match of the first thread that accepts, or else the one so far, is the best one; the scan
goes on with the threads ahead. -/
theorem scanAt_next {c : Char} {rest : List Char} (h : place.after = c :: rest)
    (hnext : place.next? = some next) :
    program.scanAt place active best =
      let threads := (program.joined place active best).threads.reverse
      let arrived := (program.advance c next threads {}).1
      let best := (program.accepted threads).or best
      if arrived.threads.isEmpty && best.isSome then best
      else program.scanAt next arrived best := by
  obtain ⟨before, after, offset⟩ := place
  cases h
  cases hnext
  simp only [← @advance_snd program ⟨some c, rest, offset + c.utf8Size⟩ c _ {}]
  rfl

theorem joined_of_some (place : Place) (active : Active) (slots : Slots) :
    program.joined place active (some slots) = active := rfl

theorem joined_none (place : Place) (active : Active) :
    program.joined place active none = program.enter place program.fresh active := rfl

/-! ## Matches between places -/

/-- A match from one place of the text to another, the first of which is as given. -/
def Found (text : List Char) (starts : Nat → Prop) (low : Nat) (slots : Slots) : Prop :=
  ∃ start stop, slots[0]? = some (some start) ∧ slots[1]? = some (some stop) ∧ starts start ∧
    start ≤ stop ∧ low ≤ stop ∧ Text.IsPlace text stop

theorem valid_joined (h : active.Valid program starts place) (hframed : program.Framed)
    (hstarts : best = none → starts place.offset) :
    (program.joined place active best).Valid program starts place := by
  cases best with
  | none => exact h.enter_fresh hframed (hstarts rfl)
  | some slots => exact h

theorem found_of_accepted (h : active.Valid program (fun a => starts a ∧ a ≤ place.offset) place)
    (hframed : program.Framed) (hplace : place.In text) (hlow : low ≤ place.offset)
    {slots : Slots} (haccepted : program.accepted active.threads.reverse = some slots) :
    Found text starts low slots := by
  obtain ⟨hstop, a, hstart, hstarts, hle⟩ := h.accepted hframed haccepted
  exact ⟨a, place.offset, hstart, hstop, hstarts, hle, hlow, hplace.isPlace⟩

/-- The threads that a character takes to the next place are inside their matches there. -/
theorem valid_arrived (h : active.Valid program starts place) (hframed : program.Framed)
    (c : Char) (next : Place) :
    (program.advance c next active.threads.reverse {}).1.Valid program starts next :=
  .advance hframed c (fun t ht => h.noted t (List.mem_reverse.mp ht)) Active.valid_empty

theorem scanAt_found (hframed : program.Framed) (hplace : place.In text)
    (hlow : low ≤ place.offset)
    (hvalid : active.Valid program (fun a => starts a ∧ a ≤ place.offset) place)
    (hstarts : best = none → ∀ later : Place, later.In text → place.offset ≤ later.offset →
      starts later.offset)
    (hbest : ∀ slots ∈ best, Found text starts low slots) :
    ∀ slots ∈ program.scanAt place active best, Found text starts low slots := by
  induction hafter : place.after generalizing place active best with
  | nil =>
      have hjoined := valid_joined hvalid hframed fun hnone =>
        ⟨hstarts hnone place hplace (Nat.le_refl _), Nat.le_refl _⟩
      intro slots hslots
      rw [scanAt_end hafter] at hslots
      rcases Option.or_eq_some_iff.mp hslots with haccepted | ⟨-, hslots⟩
      · exact found_of_accepted hjoined hframed hplace hlow haccepted
      · exact hbest slots hslots
  | cons c rest ih =>
      have hjoined := valid_joined hvalid hframed fun hnone =>
        ⟨hstarts hnone place hplace (Nat.le_refl _), Nat.le_refl _⟩
      have hnext := place.next?_cons hafter
      obtain ⟨hin, hlt⟩ := hplace.next hnext
      rw [scanAt_next hafter hnext]
      have hbest' : ∀ slots ∈
          (program.accepted (program.joined place active best).threads.reverse).or best,
          Found text starts low slots := by
        intro slots hslots
        rcases Option.or_eq_some_iff.mp hslots with haccepted | ⟨-, hslots⟩
        · exact found_of_accepted hjoined hframed hplace hlow haccepted
        · exact hbest slots hslots
      simp only
      split
      · exact hbest'
      · refine ih hin (by omega) ?_ (fun hnone later hlater hle => ?_) hbest' rfl
        · exact (valid_arrived hjoined hframed c _).mono fun a ha => ⟨ha.1, by omega⟩
        · exact hstarts (Option.or_eq_none_iff.mp hnone).2 later hlater (by omega)

/-! ## Ways ahead of a match -/

theorem accepting_eq_false {t : Thread} (h : ¬ Accepts program.nodes place t.node) :
    program.accepting t = false :=
  Bool.eq_false_iff.mpr fun haccepting => h (.here (accepting_iff.mp haccepting))

theorem accepted_of_dead {threads : List Thread}
    (h : ∀ t ∈ threads, ¬ Accepts program.nodes place t.node) : program.accepted threads = none := by
  rw [accepted_eq_find?, List.find?_eq_none.mpr]
  · rfl
  · intro t ht
    rw [accepting_eq_false (h t ht)]
    exact Bool.false_ne_true

/-- If no way ahead accepts here, none does behind the next character. -/
theorem arrived_dead {threads : List Thread} {c : Char} {rest : List Char}
    (hafter : place.after = c :: rest) (hnext : place.next? = some next)
    (h : ∀ t ∈ program.ahead threads, ¬ Accepts program.nodes place t.node) :
    ∀ t ∈ (program.advance c next threads {}).1.threads, ¬ Accepts program.nodes next t.node := by
  refine advance_forall (P := fun t => ¬ Accepts program.nodes next t.node)
    (fun t ht => not_accepts_moves ht) (fun t ht u hu haccepts => h t ht ?_)
    fun t ht => absurd ht List.not_mem_nil
  obtain ⟨chars, target, hnode, hhas, rfl⟩ := onward?_eq_some hu
  exact .read hnode hafter hnext hhas haccepts

/-- If some way ahead accepts, it does so behind the next character. -/
theorem arrived_live {threads : List Thread} {c : Char} {rest : List Char}
    (hafter : place.after = c :: rest) (hnext : place.next? = some next)
    (harrived : (program.advance c next threads {}).1.Full program.nodes next) {t : Thread}
    (ht : t ∈ program.ahead threads) (hwaits : waits program.nodes t.node = true)
    (haccepts : Accepts program.nodes place t.node) :
    ∃ u ∈ (program.advance c next threads {}).1.threads, Accepts program.nodes next u.node := by
  have hnot : program.accepting t = false := by
    simpa using List.mem_takeWhile_imp ht
  rcases haccepts.of_waits hwaits with hnode | ⟨chars, target, d, rest', next', hnode, hafter',
    hnext', hhas, haccepts⟩
  · rw [accepting_iff.mpr hnode] at hnot
    cases hnot
  · cases hafter.symm.trans hafter'
    cases hnext.symm.trans hnext'
    have honward : program.onward? c t = some ⟨target, t.slots⟩ := by
      rw [onward?, hnode]
      exact if_pos hhas
    exact harrived.accepts (mem_seen_advance {} ht honward) haccepts

theorem scanAt_of_dead {slots : Slots}
    (h : ∀ t ∈ active.threads, ¬ Accepts program.nodes place t.node) :
    program.scanAt place active (some slots) = some slots := by
  induction hafter : place.after generalizing place active with
  | nil =>
      have haccepted := accepted_of_dead fun t ht => h t (List.mem_reverse.mp ht)
      rw [scanAt_end hafter, joined_of_some, haccepted, Option.none_or]
  | cons c rest ih =>
      have haccepted := accepted_of_dead fun t ht => h t (List.mem_reverse.mp ht)
      have hnext := place.next?_cons hafter
      rw [scanAt_next hafter hnext, joined_of_some]
      simp only [haccepted, Option.none_or]
      split
      · rfl
      · exact ih (arrived_dead hafter hnext fun t ht =>
          h t (List.mem_reverse.mp (List.takeWhile_subset _ ht))) rfl

theorem not_accepting_of_accepted {threads : List Thread} (h : program.accepted threads = none) :
    ∀ t ∈ threads, (!program.accepting t) = true := by
  rw [accepted_eq_find?] at h
  intro t ht
  simpa using List.find?_eq_none.mp (Option.map_eq_none_iff.mp h) t ht

theorem mem_ahead_of_accepted {threads : List Thread} (h : program.accepted threads = none)
    {t : Thread} (ht : t ∈ threads) : t ∈ program.ahead threads := by
  rwa [ahead, List.takeWhile_eq_self_iff.mpr (not_accepting_of_accepted h)]

/-- A match that was found is replaced by one that stops later if some way ahead of it accepts. -/
theorem scanAt_of_live (hframed : program.Framed) (hplace : place.In text)
    (hvalid : active.Valid program (fun a => a ≤ place.offset) place)
    (h : ∃ t ∈ active.threads, Accepts program.nodes place t.node) {slots found : Slots}
    (hfound : program.scanAt place active (some slots) = some found) :
    ∃ stop, found[1]? = some (some stop) ∧ place.offset ≤ stop := by
  induction hafter : place.after generalizing place active with
  | nil =>
      rw [scanAt_end hafter, joined_of_some] at hfound
      cases haccepted : program.accepted active.threads.reverse with
      | some first =>
          rw [haccepted] at hfound
          cases hfound
          exact ⟨place.offset, (hvalid.accepted hframed haccepted).1, Nat.le_refl _⟩
      | none =>
          -- At the end of the text a way can accept only by a thread that does.
          obtain ⟨t, ht, haccepts⟩ := h
          have hahead := mem_ahead_of_accepted haccepted (List.mem_reverse.mpr ht)
          rcases haccepts.of_waits (hvalid.full.waiting t ht) with hnode | ⟨_, _, c, rest, _, -,
            hafter', -⟩
          · have hnot := List.mem_takeWhile_imp hahead
            rw [accepting_iff.mpr hnode] at hnot
            cases hnot
          · cases hafter.symm.trans hafter'
  | cons c rest ih =>
      have hnext := place.next?_cons hafter
      obtain ⟨hin, hlt⟩ := hplace.next hnext
      have harrived := (valid_arrived hvalid hframed c
        ⟨some c, rest, place.offset + c.utf8Size⟩).mono fun a ha =>
          (show a ≤ place.offset + c.utf8Size by omega)
      rw [scanAt_next hafter hnext, joined_of_some] at hfound
      cases haccepted : program.accepted active.threads.reverse with
      | some first =>
          have hfirst : Found text (fun _ => True) place.offset first :=
            found_of_accepted (hvalid.mono fun a ha => ⟨trivial, ha⟩) hframed hplace
              (Nat.le_refl _) haccepted
          have hlater : Found text (fun _ => True) place.offset found := by
            simp only [haccepted, Option.some_or] at hfound
            split at hfound
            · cases hfound
              exact hfirst
            · exact scanAt_found hframed hin (Nat.le_of_lt hlt)
                (harrived.mono fun a ha => ⟨trivial, ha⟩) (fun hnone => by cases hnone)
                (fun s hs => by cases hs; exact hfirst) _ hfound
          obtain ⟨-, stop, -, hstop, -, -, hle, -⟩ := hlater
          exact ⟨stop, hstop, hle⟩
      | none =>
          obtain ⟨t, ht, haccepts⟩ := h
          obtain ⟨u, hu, hlive⟩ := arrived_live hafter hnext harrived.full
            (mem_ahead_of_accepted haccepted (List.mem_reverse.mpr ht))
            (hvalid.full.waiting t ht) haccepts
          simp only [haccepted, Option.none_or] at hfound
          rw [if_neg (by simp [List.ne_nil_of_mem hu])] at hfound
          obtain ⟨stop, hstop, hle⟩ := ih hin harrived ⟨u, hu, hlive⟩ hfound rfl
          exact ⟨stop, hstop, by omega⟩

/-! ## Matches without characters -/

/-- A new thread among others leads to what it leads to alone, but for the nodes that they have
reached. -/
theorem threads_enter_fresh (hfull : active.Full program.nodes place) :
    (program.enter place program.fresh active).threads =
      (program.enter place program.fresh {}).threads.filter (fun t => t.node ∉ active.seen) ++
        active.threads := by
  have hbefore : Beside active.seen active.threads {} active := ⟨by simp, by simp⟩
  obtain ⟨final, hexplores, hbeside⟩ :=
    (explores_enter program place program.fresh {}).beside hfull.closed hbefore
  rw [← hexplores.unique (explores_enter program place program.fresh active)] at hbeside
  exact hbeside.threads

theorem mem_takeWhile_filter {α : Type} {p q : α → Bool} {l : List α} {a : α}
    (h : a ∈ l.takeWhile q) (ha : p a = true) : a ∈ (l.filter p).takeWhile q := by
  induction l with
  | nil => exact absurd h List.not_mem_nil
  | cons b l ih =>
      rw [List.takeWhile_cons] at h
      split at h
      case isFalse => exact absurd h List.not_mem_nil
      case isTrue hb =>
        rcases List.mem_cons.mp h with rfl | h
        · rw [List.filter_cons_of_pos ha, List.takeWhile_cons_of_pos hb]
          exact List.mem_cons_self
        · rw [List.filter_cons]
          split
          · rw [List.takeWhile_cons_of_pos hb]
            exact List.mem_cons_of_mem _ (ih h)
          · exact ih h

section Again

variable {found : Slots}

/-- The threads that were there do not accept if the match is that of the new thread. -/
theorem accepted_eq_none_of_fresh (hframed : program.Framed)
    (hvalid : active.Valid program (fun a => a < place.offset) place)
    (h : program.accepted (program.enter place program.fresh active).threads.reverse = some found)
    (hstart : found[0]? = some (some place.offset)) :
    program.accepted active.threads.reverse = none := by
  cases haccepted : program.accepted active.threads.reverse with
  | none => rfl
  | some first =>
      obtain ⟨-, a, hfirst, hlt⟩ := hvalid.accepted hframed haccepted
      rw [threads_enter_fresh hvalid.full, List.reverse_append, accepted_eq_find?,
        List.find?_append, Option.map_or, ← accepted_eq_find?, haccepted] at h
      cases h
      rw [hfirst] at hstart
      cases hstart
      exact absurd hlt (Nat.lt_irrefl _)

theorem accepted_alone (hframed : program.Framed)
    (hvalid : active.Valid program (fun a => a < place.offset) place)
    (h : program.accepted (program.enter place program.fresh active).threads.reverse = some found)
    (hstart : found[0]? = some (some place.offset)) :
    program.accepted (program.enter place program.fresh {}).threads.reverse = some found := by
  have hnone := accepted_eq_none_of_fresh hframed hvalid h hstart
  -- No thread of the new one accepts at a node that the others have reached.
  have hnew : ∀ t : Thread, program.accepting t = true → t.node ∉ active.seen := by
    intro t haccepting hseen
    have hwaits : waits program.nodes t.node = true := by
      rw [waits, accepting_iff.mp haccepting]
    obtain ⟨u, hu, hnode⟩ := hvalid.full.kept t.node hseen hwaits
    have hnot := not_accepting_of_accepted hnone u (List.mem_reverse.mpr hu)
    rw [accepting_iff.mpr (hnode ▸ accepting_iff.mp haccepting)] at hnot
    cases hnot
  rw [threads_enter_fresh hvalid.full, List.reverse_append, accepted_eq_find?,
    List.find?_append, Option.map_or, ← accepted_eq_find?, hnone, Option.none_or,
    ← List.filter_reverse, List.find?_filter] at h
  rw [accepted_eq_find?, ← h]
  congr 1
  refine List.find?_congr fun t _ => ?_
  cases haccepting : program.accepting t with
  | false => simp
  | true => simp [hnew t haccepting]

/-- If no way ahead of it accepts, none does where it is alone. -/
theorem ahead_alone (hframed : program.Framed)
    (hvalid : active.Valid program (fun a => a < place.offset) place)
    (h : program.accepted (program.enter place program.fresh active).threads.reverse = some found)
    (hstart : found[0]? = some (some place.offset))
    (hdead : ∀ t ∈ program.ahead (program.enter place program.fresh active).threads.reverse,
      ¬ Accepts program.nodes place t.node) :
    ∀ t ∈ program.ahead (program.enter place program.fresh {}).threads.reverse,
      ¬ Accepts program.nodes place t.node := by
  have hnone := accepted_eq_none_of_fresh hframed hvalid h hstart
  rw [threads_enter_fresh hvalid.full, List.reverse_append, ahead,
    List.takeWhile_append_of_pos (not_accepting_of_accepted hnone), ← List.filter_reverse] at hdead
  intro t ht haccepts
  by_cases hseen : t.node ∈ active.seen
  · obtain ⟨u, hu, hlive⟩ := hvalid.full.accepts hseen haccepts
    exact hdead u (List.mem_append_left _ (List.mem_reverse.mpr hu)) hlive
  · exact hdead t (List.mem_append_right _ (mem_takeWhile_filter ht (decide_eq_true hseen)))
      haccepts

/-- A match that replaces another one stops behind the place where it starts. -/
theorem start_lt_of_live (hframed : program.Framed) (hnext : next.In text) {low : Nat}
    (hlow : low < next.offset) (hvalid : active.Valid program (fun a => a ≤ low) next)
    (h : ∃ t ∈ active.threads, Accepts program.nodes next t.node) {first : Slots}
    (hfirst : Found text (fun a => a ≤ low) 0 first)
    (hfound : program.scanAt next active (some first) = some found) {offset : Nat}
    (hstart : found[0]? = some (some offset)) : found[1]? ≠ some (some offset) := by
  obtain ⟨stop, hstop, hle⟩ := scanAt_of_live hframed hnext
    (hvalid.mono fun a ha => Nat.le_trans ha (Nat.le_of_lt hlow)) h hfound
  obtain ⟨start, -, hstart', -, hlate, -⟩ := scanAt_found hframed hnext (Nat.zero_le _)
    (hvalid.mono fun a ha => ⟨ha, Nat.le_trans ha (Nat.le_of_lt hlow)⟩)
    (fun hnone => by cases hnone) (fun s hs => by cases hs; exact hfirst) found hfound
  rw [hstart] at hstart'
  cases hstart'
  rw [hstop]
  rintro hsame
  cases hsame
  omega

/-- A match that starts and stops at one place is found by the scan that starts there. -/
theorem scanAt_again (hframed : program.Framed) (hplace : place.In text)
    (hvalid : active.Valid program (fun a => a < place.offset) place)
    (hfound : program.scanAt place active none = some found) {offset : Nat}
    (hstart : found[0]? = some (some offset)) (hstop : found[1]? = some (some offset)) :
    ∃ again : Place, again.In text ∧ again.offset = offset ∧
      program.scanAt again {} none = some found := by
  induction hafter : place.after generalizing place active with
  | nil =>
      have hjoined := (hvalid.mono fun a ha => Nat.le_of_lt ha).enter_fresh hframed
        (Nat.le_refl place.offset)
      rw [scanAt_end hafter, joined_none, Option.or_none] at hfound
      have hoffset := (hjoined.accepted hframed hfound).1
      rw [hstop] at hoffset
      cases hoffset
      refine ⟨place, hplace, rfl, ?_⟩
      rw [scanAt_end hafter, joined_none, Option.or_none]
      exact accepted_alone hframed hvalid hfound hstart
  | cons c rest ih =>
      have hjoined := (hvalid.mono fun a ha => Nat.le_of_lt ha).enter_fresh hframed
        (Nat.le_refl place.offset)
      have hnext := place.next?_cons hafter
      obtain ⟨hin, hlt⟩ := hplace.next hnext
      have harrived := valid_arrived hjoined hframed c
        ⟨some c, rest, place.offset + c.utf8Size⟩
      rw [scanAt_next hafter hnext, joined_none] at hfound
      cases haccepted : program.accepted
          (program.enter place program.fresh active).threads.reverse with
      | none =>
          simp only [haccepted, Option.or_none, Option.isSome_none, Bool.and_false,
            Bool.false_eq_true, if_false] at hfound
          exact ih hin (harrived.mono fun a ha => Nat.lt_of_le_of_lt ha hlt) hfound rfl
      | some first =>
          simp only [haccepted, Option.some_or, Option.isSome_some, Bool.and_true] at hfound
          have hfirst : Found text (fun a => a ≤ place.offset) 0 first :=
            found_of_accepted (hjoined.mono fun a ha => ⟨ha, ha⟩) hframed hplace
              (Nat.zero_le _) haccepted
          -- A way ahead would accept behind the place where the match starts.
          have hdead : ∀ t ∈ (program.advance c ⟨some c, rest, place.offset + c.utf8Size⟩
              (program.enter place program.fresh active).threads.reverse {}).1.threads,
              ¬ Accepts program.nodes ⟨some c, rest, place.offset + c.utf8Size⟩ t.node := by
            intro t ht haccepts
            rw [if_neg (by simp [List.ne_nil_of_mem ht])] at hfound
            exact start_lt_of_live hframed hin hlt harrived ⟨t, ht, haccepts⟩ hfirst hfound
              hstart hstop
          obtain rfl : first = found := by
            split at hfound
            · exact Option.some.inj hfound
            · rw [scanAt_of_dead hdead] at hfound
              exact Option.some.inj hfound
          have hoffset := (hjoined.accepted hframed haccepted).1
          rw [hstop] at hoffset
          cases hoffset
          have halone := ahead_alone hframed hvalid haccepted hstart fun t ht haccepts => by
            have hmem := List.mem_reverse.mp (List.takeWhile_subset _ ht)
            obtain ⟨u, hu, hlive⟩ := arrived_live hafter hnext harrived.full ht
              (hjoined.full.waiting t hmem) haccepts
            exact hdead u hu hlive
          refine ⟨place, hplace, rfl, ?_⟩
          rw [scanAt_next hafter hnext, joined_none]
          simp only [accepted_alone hframed hvalid haccepted hstart, Option.some_or]
          split
          · rfl
          · exact scanAt_of_dead (arrived_dead hafter hnext halone)

end Again

end NearNotes.Pattern.Program
