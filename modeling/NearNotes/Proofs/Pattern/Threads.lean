import Mathlib
import NearNotes.Proofs.Note.Cuts
import NearNotes.Proofs.Pattern.Explore
import NearNotes.Proofs.Pattern.Shape

/-!
# Threads at one place of a text

What the threads of a search have noted, and what one character does to them.

* `Place.In` : a place of a text; `Place.In.unique`, `seek_eq` : its offset says which one;
* `Thread.Noted`, `Active.Valid` : every thread knows where its match starts, and one that accepts
  where it stops;
* `Valid.enter`, `Valid.advance` : a new thread and a character keep them so;
* `advance_snd`, `mem_seen_advance`, `advance_forall` : which threads a character takes where.
-/

namespace NearNotes.Pattern

/-! ## Places of a text -/

/-- A place of a text. -/
def Place.In (text : List Char) (p : Place) : Prop :=
  ∃ front, text = front ++ p.after ∧ Text.byteLength front = p.offset ∧ p.before = front.getLast?

namespace Place

variable {text : List Char} {p q : Place}

theorem start_in (text : List Char) : (start text).In text := ⟨[], rfl, rfl, rfl⟩

theorem In.isPlace (h : p.In text) : Text.IsPlace text p.offset := by
  obtain ⟨front, htext, hlength, -⟩ := h
  exact ⟨front, p.after, htext, hlength⟩

theorem In.unique (hp : p.In text) (hq : q.In text) (h : p.offset = q.offset) : p = q := by
  obtain ⟨front, rfl, hlength, hbefore⟩ := hp
  obtain ⟨front', htext, hlength', hbefore'⟩ := hq
  obtain ⟨mid, rfl, hafter⟩ := Text.between_of_append_eq htext (by omega)
  obtain rfl : mid = [] := by
    by_contra hne
    have := Text.byteLength_pos hne
    rw [Text.byteLength_append] at hlength'
    omega
  cases p
  cases q
  simp_all

theorem next?_cons (p : Place) {c : Char} {rest : List Char} (h : p.after = c :: rest) :
    p.next? = some ⟨some c, rest, p.offset + c.utf8Size⟩ := by
  rw [next?, h]

theorem In.next (hp : p.In text) (h : p.next? = some q) :
    q.In text ∧ p.offset < q.offset := by
  unfold next? at h
  split at h
  case h_1 => cases h
  case h_2 c rest hafter =>
    cases h
    obtain ⟨front, rfl, hlength, -⟩ := hp
    refine ⟨⟨front ++ [c], by simp [hafter], ?_, by simp⟩, ?_⟩
    · rw [Text.byteLength_append, hlength]
      simp
    · exact Nat.lt_add_of_pos_right c.utf8Size_pos

/-- A place of a text is either another one or, having characters before it, behind it. -/
theorem seek_eq (hp : p.In text) (hq : q.In text) (hle : p.offset ≤ q.offset) :
    Program.seek q.offset p.before p.offset p.after = q := by
  obtain ⟨before, after, offset⟩ := p
  induction after generalizing before offset with
  | nil =>
      obtain ⟨front, htext, hlength, hbefore⟩ := hp
      have hend := hq.isPlace.le
      rw [htext, List.append_nil, hlength] at hend
      have heq := In.unique (p := ⟨before, [], offset⟩) ⟨front, htext, hlength, hbefore⟩ hq
        (Nat.le_antisymm hle hend)
      rw [← heq]
      rfl
  | cons c rest ih =>
      simp only [Program.seek]
      split
      case isTrue hge =>
        exact In.unique hp hq (Nat.le_antisymm hle hge)
      case isFalse hlt =>
        obtain ⟨hnext, -⟩ := hp.next (next?_cons _ rfl)
        refine ih (some c) _ hnext ?_
        -- The next place of the text is the first one behind this one.
        obtain ⟨front, htext, hlength, -⟩ := hp
        obtain ⟨front', htext', hlength', -⟩ := hq
        obtain ⟨mid, rfl, hafter⟩ :=
          Text.between_of_append_eq (htext.symm.trans htext') (by simp only at *; omega)
        cases mid with
        | nil =>
            simp only [List.append_nil] at hlength'
            simp only at hlt hlength
            omega
        | cons d mid =>
            simp only [List.cons_append, List.cons.injEq] at hafter
            have hoffset : Text.byteLength front = offset := hlength
            rw [hafter.1, ← hlength', Text.byteLength_append, Text.byteLength_cons, hoffset]
            exact Nat.add_le_add_left (Nat.le_add_right _ _) _

end Place

/-! ## What threads have noted -/

/-- The thread is inside a match that starts at one of the given offsets, and if its node accepts,
the match stops here. -/
structure Thread.Noted (program : Program) (starts : Nat → Prop) (place : Place) (t : Thread) :
    Prop where
  length : t.slots.length = 4
  node_ne : t.node ≠ program.start
  opened : ∃ a, t.slots[0]? = some (some a) ∧ starts a
  closed : t.node = 0 → t.slots[1]? = some (some place.offset)

/-- Every thread has noted where its match starts, and those at nodes that accept where it stops. -/
structure Active.Valid (program : Program) (starts : Nat → Prop) (place : Place)
    (active : Active) : Prop where
  full : active.Full program.nodes place
  noted : ∀ t ∈ active.threads, t.Noted program starts place

/-- A thread that has noted nothing, at the node that opens a match. -/
def Program.fresh (program : Program) : Thread := ⟨program.start, .empty⟩

namespace Program

variable {program : Program} {starts : Nat → Prop} {place next : Place} {t : Thread}

theorem Framed.not_waits_start (h : program.Framed) :
    waits program.nodes program.start = false := by
  obtain ⟨entry, hopening, -⟩ := h.opening
  rw [waits, hopening]

/-- But for the node that opens the match, a node accepts, closes the match or stands inside. -/
theorem Framed.node_cases (h : program.Framed) {n : Nat} {node : Node}
    (hn : program.nodes[n]? = some node) (hne : n ≠ program.start) :
    (n = 0 ∧ node = .accept) ∨ (n = 1 ∧ node = .mark 1 0) ∨
      node.Leads fun m => m ≠ 0 ∧ m ≠ program.start := by
  match n with
  | 0 =>
      rw [h.accepting] at hn
      cases hn
      exact .inl ⟨rfl, rfl⟩
  | 1 =>
      rw [h.closing] at hn
      cases hn
      exact .inr (.inl ⟨rfl, rfl⟩)
  | n + 2 => exact .inr (.inr (h.inside _ _ hn (by omega) hne))

theorem Framed.accept_iff (h : program.Framed) {n : Nat} :
    program.nodes[n]? = some .accept ↔ n = 0 := by
  constructor
  · intro hn
    obtain ⟨entry, hopening, -⟩ := h.opening
    have hne : n ≠ program.start := by
      rintro rfl
      rw [hopening] at hn
      cases hn
    rcases h.node_cases hn hne with ⟨hzero, -⟩ | ⟨-, hnode⟩ | hleads
    · exact hzero
    · cases hnode
    · exact hleads.elim
  · rintro rfl
    exact h.accepting

theorem Framed.read_target (h : program.Framed) {n target : Nat} {chars : CharSet}
    (hn : program.nodes[n]? = some (.read chars target)) :
    target ≠ 0 ∧ target ≠ program.start := by
  obtain ⟨entry, hopening, -⟩ := h.opening
  have hne : n ≠ program.start := by
    rintro rfl
    rw [hopening] at hn
    cases hn
  rcases h.node_cases hn hne with ⟨-, hnode⟩ | ⟨-, hnode⟩ | hleads
  · cases hnode
  · cases hnode
  · exact hleads

end Program

namespace Thread

variable {program : Program} {starts starts' : Nat → Prop} {place next : Place} {t u : Thread}

theorem Noted.mono (h : t.Noted program starts place) (hmono : ∀ a, starts a → starts' a) :
    t.Noted program starts' place := by
  obtain ⟨a, hopened, ha⟩ := h.opened
  exact ⟨h.length, h.node_ne, ⟨a, hopened, hmono a ha⟩, h.closed⟩

/-- Inside a match a thread keeps what it has noted of its start. -/
theorem Noted.inside (h : t.Noted program starts place) {n : Nat}
    (hn : n ≠ 0 ∧ n ≠ program.start) {slots : Slots} (hlength : slots.length = t.slots.length)
    (hopened : slots[0]? = t.slots[0]?) (next : Place) : Noted program starts next ⟨n, slots⟩ where
  length := hlength.trans h.length
  node_ne := hn.2
  opened := by
    obtain ⟨a, ha, hstarts⟩ := h.opened
    exact ⟨a, hopened.trans ha, hstarts⟩
  closed hzero := absurd hzero hn.1

theorem Noted.moves (h : t.Noted program starts place) (hframed : program.Framed)
    (hu : u ∈ Program.moves program.nodes place t) : u.Noted program starts place := by
  unfold Program.moves at hu
  split at hu
  case h_1 condition next hnode =>
    split at hu
    case isFalse => exact absurd hu List.not_mem_nil
    case isTrue =>
      obtain rfl := List.mem_singleton.mp hu
      rcases hframed.node_cases hnode h.node_ne with ⟨-, heq⟩ | ⟨-, heq⟩ | hleads
      · cases heq
      · cases heq
      · exact h.inside hleads rfl rfl place
  case h_2 slot next hnode =>
    obtain rfl := List.mem_singleton.mp hu
    rcases hframed.node_cases hnode h.node_ne with ⟨-, heq⟩ | ⟨-, heq⟩ | hleads
    · cases heq
    · -- The thread closes the match here.
      cases heq
      obtain ⟨a, hopened, ha⟩ := h.opened
      have hlength := h.length
      have hstart := hframed.start_ne
      refine ⟨by simpa using hlength, show 0 ≠ program.start by omega, ⟨a, ?_, ha⟩, fun _ => ?_⟩
      · rw [List.getElem?_set_ne (by decide), hopened]
      · rw [List.getElem?_set_self (by omega)]
    · have hslot := hleads.1
      exact h.inside hleads.2 List.length_set (List.getElem?_set_ne (by omega)) place
  case h_3 first second hnode =>
    rcases hframed.node_cases hnode h.node_ne with ⟨-, heq⟩ | ⟨-, heq⟩ | hleads
    · cases heq
    · cases heq
    · rcases List.mem_pair.mp hu with rfl | rfl
      · exact h.inside hleads.1 rfl rfl place
      · exact h.inside hleads.2 rfl rfl place
  case h_4 => exact absurd hu List.not_mem_nil

/-- A thread that goes on with the next character is inside its match. -/
theorem Noted.read (h : t.Noted program starts place) (hframed : program.Framed)
    {chars : CharSet} {target : Nat} (hnode : program.nodes[t.node]? = some (.read chars target))
    (next : Place) : Noted program starts next ⟨target, t.slots⟩ :=
  h.inside (hframed.read_target hnode) rfl rfl next

end Thread

namespace Program

variable {program : Program} {starts starts' : Nat → Prop} {place next : Place} {t : Thread}
  {active : Active}

theorem noted_moves_fresh (hframed : program.Framed) (hstarts : starts place.offset) :
    ∀ u ∈ moves program.nodes place program.fresh, u.Noted program starts place := by
  obtain ⟨entry, hopening, hentry⟩ := hframed.opening
  intro u hu
  simp only [moves, fresh, hopening, List.mem_singleton] at hu
  subst hu
  exact ⟨rfl, hentry.2, ⟨place.offset, rfl, hstarts⟩, fun hzero => absurd hzero hentry.1⟩

def accepting (program : Program) (t : Thread) : Bool :=
  match program.nodes[t.node]? with
  | some .accept => true
  | _ => false

theorem accepting_iff : program.accepting t = true ↔ program.nodes[t.node]? = some .accept := by
  unfold accepting
  split <;> simp_all

theorem accepted_eq_find? (threads : List Thread) :
    program.accepted threads = (threads.find? program.accepting).map Thread.slots := rfl

end Program

namespace Active

variable {program : Program} {starts starts' : Nat → Prop} {place next : Place}
  {active : Active}

theorem valid_empty : Valid program starts place {} :=
  ⟨Program.full_empty, fun _ ht => absurd ht List.not_mem_nil⟩

theorem Valid.mono (h : active.Valid program starts place) (hmono : ∀ a, starts a → starts' a) :
    active.Valid program starts' place :=
  ⟨h.full, fun t ht => (h.noted t ht).mono hmono⟩

theorem Valid.enter (h : active.Valid program starts place) (hframed : program.Framed)
    {t : Thread} (ht : t.Noted program starts place) :
    (program.enter place t active).Valid program starts place := by
  have hexplores := Program.explores_enter program place t active
  refine ⟨hexplores.full h.full, hexplores.forall_threads (fun u hu v hv => hu.moves hframed hv)
    (fun u hu => ?_) h.noted⟩
  obtain rfl := List.mem_singleton.mp hu
  exact ht

theorem Valid.enter_fresh (h : active.Valid program starts place) (hframed : program.Framed)
    (hstarts : starts place.offset) :
    (program.enter place program.fresh active).Valid program starts place := by
  have hexplores := Program.explores_enter program place program.fresh active
  have hfull := hexplores.full h.full
  -- Until it opens its match the new thread has noted nothing, but it does not wait there.
  have hthreads := hexplores.forall_threads
    (P := fun u => u = program.fresh ∨ u.Noted program starts place)
    (fun u hu v hv => by
      rcases hu with rfl | hu
      · exact .inr (Program.noted_moves_fresh hframed hstarts v hv)
      · exact .inr (hu.moves hframed hv))
    (fun u hu => .inl (List.mem_singleton.mp hu)) (fun u hu => .inr (h.noted u hu))
  refine ⟨hfull, fun u hu => (hthreads u hu).resolve_left ?_⟩
  rintro rfl
  have hwaits := hfull.waiting _ hu
  rw [Program.fresh, hframed.not_waits_start] at hwaits
  cases hwaits

theorem Valid.accepted (h : active.Valid program starts place) (hframed : program.Framed)
    {slots : Slots} (haccepted : program.accepted active.threads.reverse = some slots) :
    slots[1]? = some (some place.offset) ∧ ∃ a, slots[0]? = some (some a) ∧ starts a := by
  obtain ⟨t, hfind, rfl⟩ := Option.map_eq_some_iff.mp haccepted
  have hnoted := h.noted t (List.mem_reverse.mp (List.mem_of_find?_eq_some hfind))
  have haccepts := Program.accepting_iff.mp (List.find?_some hfind)
  exact ⟨hnoted.closed (hframed.accept_iff.mp haccepts), hnoted.opened⟩

end Active

/-! ## One character -/

namespace Program

variable {program : Program} {starts : Nat → Prop} {place next : Place} {c : Char}

/-- The threads ahead of the first one that accepts. -/
def ahead (program : Program) (threads : List Thread) : List Thread :=
  threads.takeWhile fun t => !program.accepting t

/-- The thread that goes on behind the character, if its node reads it. -/
def onward? (program : Program) (c : Char) (t : Thread) : Option Thread :=
  match program.nodes[t.node]? with
  | some (.read chars target) => if chars.has c then some ⟨target, t.slots⟩ else none
  | _ => none

def arrive (program : Program) (next : Place) (arrived : Active) : Option Thread → Active
  | none => arrived
  | some t => program.enter next t arrived

theorem advance_cons (t : Thread) (threads : List Thread) (arrived : Active) :
    program.advance c next (t :: threads) arrived =
      if program.accepting t then (arrived, some t.slots)
      else program.advance c next threads (program.arrive next arrived (program.onward? c t)) := by
  rw [advance]
  cases hnode : program.nodes[t.node]? with
  | none => simp [accepting, onward?, arrive, hnode]
  | some node =>
      cases node with
      | read chars target =>
          simp only [accepting, onward?, hnode]
          split <;> rfl
      | _ => simp [accepting, onward?, arrive, hnode]

theorem onward?_eq_some {t u : Thread} (h : program.onward? c t = some u) :
    ∃ chars target, program.nodes[t.node]? = some (.read chars target) ∧ chars.has c = true ∧
      u = ⟨target, t.slots⟩ := by
  unfold onward? at h
  split at h
  case h_1 chars target hnode =>
    split at h
    case isTrue hhas =>
      cases h
      exact ⟨chars, target, hnode, hhas, rfl⟩
    case isFalse => cases h
  case h_2 => cases h

theorem advance_snd (threads : List Thread) (arrived : Active) :
    (program.advance c next threads arrived).2 = program.accepted threads := by
  induction threads generalizing arrived with
  | nil => rfl
  | cons t threads ih =>
      rw [advance_cons, accepted_eq_find?, List.find?_cons]
      cases program.accepting t with
      | true => rfl
      | false => exact ih _

theorem seen_subset_arrive (arrived : Active) (u : Option Thread) :
    arrived.seen ⊆ (program.arrive next arrived u).seen := by
  cases u with
  | none => exact List.Subset.refl _
  | some u => exact (explores_enter program next u arrived).seen_subset

theorem seen_subset_advance (threads : List Thread) (arrived : Active) :
    arrived.seen ⊆ (program.advance c next threads arrived).1.seen := by
  induction threads generalizing arrived with
  | nil => exact List.Subset.refl _
  | cons t threads ih =>
      rw [advance_cons]
      split
      · exact List.Subset.refl _
      · exact List.Subset.trans (seen_subset_arrive _ _) (ih _)

theorem mem_seen_advance {threads : List Thread} (arrived : Active) {t u : Thread}
    (ht : t ∈ program.ahead threads) (hu : program.onward? c t = some u) :
    u.node ∈ (program.advance c next threads arrived).1.seen := by
  induction threads generalizing arrived with
  | nil => exact absurd ht List.not_mem_nil
  | cons v threads ih =>
      rw [ahead, List.takeWhile_cons] at ht
      rw [advance_cons]
      cases hv : program.accepting v with
      | true => simp [hv] at ht
      | false =>
          simp only [hv, Bool.not_false, if_true] at ht
          rw [if_neg Bool.false_ne_true]
          rcases List.mem_cons.mp ht with rfl | ht
          · refine seen_subset_advance _ _ ?_
            rw [hu]
            exact (explores_enter program next u arrived).seen_closed.1 u (List.mem_singleton_self u)
          · exact ih _ ht

/-- What holds of the threads that go on, and is passed on by every move, holds of all that
arrive. -/
theorem advance_forall {P : Thread → Prop} {threads : List Thread} {arrived : Active}
    (hmove : ∀ t, P t → ∀ u ∈ moves program.nodes next t, P u)
    (honward : ∀ t ∈ program.ahead threads, ∀ u ∈ program.onward? c t, P u)
    (harrived : ∀ t ∈ arrived.threads, P t) :
    ∀ t ∈ (program.advance c next threads arrived).1.threads, P t := by
  induction threads generalizing arrived with
  | nil => exact harrived
  | cons v threads ih =>
      rw [advance_cons]
      cases hv : program.accepting v with
      | true => exact harrived
      | false =>
          rw [ahead, List.takeWhile_cons, hv] at honward
          obtain ⟨hfirst, hrest⟩ := List.forall_mem_cons.mp honward
          rw [if_neg Bool.false_ne_true]
          refine ih hrest ?_
          cases hu : program.onward? c v with
          | none => exact harrived
          | some u =>
              refine (explores_enter program next u arrived).forall_threads hmove ?_ harrived
              intro w hw
              obtain rfl := List.mem_singleton.mp hw
              exact hfirst w hu

end Program

theorem Active.Valid.advance {program : Program} {starts : Nat → Prop} {place next : Place}
    (hframed : program.Framed) (c : Char) {threads : List Thread} {arrived : Active}
    (hthreads : ∀ t ∈ threads, t.Noted program starts place)
    (harrived : arrived.Valid program starts next) :
    (program.advance c next threads arrived).1.Valid program starts next := by
  induction threads generalizing arrived with
  | nil => exact harrived
  | cons t threads ih =>
      obtain ⟨ht, hthreads⟩ := List.forall_mem_cons.mp hthreads
      rw [Program.advance_cons]
      split
      · exact harrived
      · refine ih hthreads ?_
        cases hu : program.onward? c t with
        | none => exact harrived
        | some u =>
            obtain ⟨chars, target, hnode, -, rfl⟩ := Program.onward?_eq_some hu
            exact harrived.enter hframed (ht.read hframed hnode next)

end NearNotes.Pattern
