import Mathlib
import NearNotes.Pattern.Search

/-!
# What threads reach without reading

A round of `explore` as a tree of visits, free of its bound on steps.

* `moves`, `targets` : the threads and nodes that a thread goes on to without reading a character;
* `Explores` : threads followed one after the other, each with all that it leads to, and
  `explores_explore` : the bound on steps leaves nothing out;
* `Active.Full` : the nodes reached are closed under `targets` and a thread waits at each that
  waits for a character or accepts; `Explores.full` : they stay so;
* `Explores.beside` : threads followed where some nodes are reached already come to what they come
  to alone, but for the threads at those nodes;
* `Accepts` : some way from a node accepts; `Full.accepts` : then so does some thread.
-/

namespace NearNotes.Pattern

namespace Program

variable {nodes : Nodes} {place : Place}

/-- The threads that a thread goes on to without reading a character, the preferred one first. -/
def moves (nodes : Nodes) (place : Place) (thread : Thread) : List Thread :=
  match nodes[thread.node]? with
  | some (.check condition next) =>
    if condition.holds place then [⟨next, thread.slots⟩] else []
  | some (.mark slot next) => [⟨next, thread.slots.set slot (some place.offset)⟩]
  | some (.branch first second) => [⟨first, thread.slots⟩, ⟨second, thread.slots⟩]
  | _ => []

def targets (nodes : Nodes) (place : Place) (n : Nat) : List Nat :=
  (moves nodes place ⟨n, .empty⟩).map Thread.node

def waits (nodes : Nodes) (n : Nat) : Bool :=
  match nodes[n]? with
  | some (.read ..) | some .accept => true
  | _ => false

theorem map_node_moves (t : Thread) :
    (moves nodes place t).map Thread.node = targets nodes place t.node := by
  unfold targets moves
  simp only
  split
  · split <;> rfl
  all_goals rfl

theorem node_mem_targets {t u : Thread} (h : u ∈ moves nodes place t) :
    u.node ∈ targets nodes place t.node := by
  rw [← map_node_moves]
  exact List.mem_map_of_mem h

theorem length_moves_le (nodes : Nodes) (place : Place) (t : Thread) : (moves nodes place t).length ≤ 2 := by
  unfold moves
  split
  · split <;> simp
  all_goals simp

theorem moves_eq_nil_of_size_le {t : Thread} (h : nodes.size ≤ t.node) :
    moves nodes place t = [] := by
  rw [moves, Array.getElem?_eq_none h]

end Program

/-- A thread's node is reached, and the thread is kept if it waits there. -/
def Active.visit (nodes : Nodes) (active : Active) (t : Thread) : Active where
  seen := t.node :: active.seen
  threads := if Program.waits nodes t.node then t :: active.threads else active.threads

namespace Program

variable {nodes : Nodes} {place : Place} {stack : List Thread} {active final : Active}

theorem explore_nil (steps : Nat) : explore nodes place steps [] active = active := by
  cases steps <;> rfl

theorem explore_cons (steps : Nat) (t : Thread) (stack : List Thread) (active : Active) :
    explore nodes place (steps + 1) (t :: stack) active =
      if t.node ∈ active.seen then explore nodes place steps stack active
      else explore nodes place steps (moves nodes place t ++ stack) (active.visit nodes t) := by
  rw [explore]
  simp only [List.contains_iff_mem]
  split
  · rfl
  · unfold moves Active.visit waits
    split
    · split <;> simp_all
    all_goals simp_all

/-- Threads are followed one after the other: one at a node reached before is dropped, and any
other is followed to all that it leads to before the next one. -/
inductive Explores (nodes : Nodes) (place : Place) : List Thread → Active → Active → Prop
  | done (active : Active) : Explores nodes place [] active active
  | again {t stack active final} (hseen : t.node ∈ active.seen)
      (rest : Explores nodes place stack active final) :
      Explores nodes place (t :: stack) active final
  | visit {t stack active between final} (hseen : t.node ∉ active.seen)
      (below : Explores nodes place (moves nodes place t) (active.visit nodes t) between)
      (rest : Explores nodes place stack between final) :
      Explores nodes place (t :: stack) active final

theorem Explores.of_append {first second : List Thread}
    (h : Explores nodes place (first ++ second) active final) :
    ∃ between, Explores nodes place first active between ∧
      Explores nodes place second between final := by
  induction first generalizing active with
  | nil => exact ⟨active, .done active, h⟩
  | cons t first ih =>
      cases h with
      | again hseen rest =>
          obtain ⟨between, hfirst, hsecond⟩ := ih rest
          exact ⟨between, .again hseen hfirst, hsecond⟩
      | visit hseen below rest =>
          obtain ⟨between, hfirst, hsecond⟩ := ih rest
          exact ⟨between, .visit hseen below hfirst, hsecond⟩

/-! ## The bound on steps -/

/-- How many nodes of the program are still to be reached. -/
def unseen (nodes : Nodes) (seen : List Nat) : Nat :=
  (Finset.range nodes.size \ seen.toFinset).card

theorem unseen_le_size (nodes : Nodes) (seen : List Nat) : unseen nodes seen ≤ nodes.size := by
  have hsub : Finset.range nodes.size \ seen.toFinset ⊆ Finset.range nodes.size :=
    Finset.sdiff_subset
  simpa [unseen] using Finset.card_le_card hsub

theorem unseen_cons_le (nodes : Nodes) (seen : List Nat) (n : Nat) :
    unseen nodes (n :: seen) ≤ unseen nodes seen := by
  refine Finset.card_le_card (Finset.sdiff_subset_sdiff (Finset.Subset.refl _) ?_)
  simp [List.toFinset_cons]

theorem unseen_cons_lt {nodes : Nodes} {seen : List Nat} {n : Nat} (hn : n < nodes.size) (hseen : n ∉ seen) :
    unseen nodes (n :: seen) < unseen nodes seen := by
  refine Finset.card_lt_card ((Finset.ssubset_iff_of_subset ?_).mpr ⟨n, ?_, ?_⟩)
  · exact Finset.sdiff_subset_sdiff (Finset.Subset.refl _) (by simp [List.toFinset_cons])
  · simp [hn, hseen]
  · simp

/-- A visit pays for the threads that it puts on the stack by the node that it reaches. -/
theorem cost_visit (nodes : Nodes) (place : Place) {t : Thread} (hseen : t.node ∉ active.seen) :
    2 * unseen nodes (active.visit nodes t).seen + (moves nodes place t).length ≤
      2 * unseen nodes active.seen := by
  show 2 * unseen nodes (t.node :: active.seen) + _ ≤ _
  rcases Nat.lt_or_ge t.node nodes.size with hn | hn
  · have := unseen_cons_lt hn hseen
    have := length_moves_le nodes place t
    omega
  · have := unseen_cons_le nodes active.seen t.node
    rw [moves_eq_nil_of_size_le hn, List.length_nil]
    omega

/-- With a step for every thread on the stack and two for every node still to be reached, the
stack is followed to its end. -/
theorem explores_explore {steps : Nat} :
    ∀ {stack : List Thread} {active : Active},
      2 * unseen nodes active.seen + stack.length ≤ steps →
      Explores nodes place stack active (explore nodes place steps stack active) := by
  induction steps with
  | zero =>
      intro stack active h
      obtain rfl : stack = [] := List.eq_nil_of_length_eq_zero (by omega)
      exact .done active
  | succ steps ih =>
      intro stack active h
      cases stack with
      | nil =>
          rw [explore_nil]
          exact .done active
      | cons t stack =>
          rw [explore_cons]
          rw [List.length_cons] at h
          split
          case isTrue hseen => exact .again hseen (ih (by omega))
          case isFalse hseen =>
            have hcost := cost_visit nodes place hseen
            obtain ⟨between, hbelow, hrest⟩ :=
              Explores.of_append (@ih (moves nodes place t ++ stack) (active.visit nodes t)
                (by rw [List.length_append]; omega))
            exact .visit hseen hbelow hrest

theorem explores_enter (program : Program) (place : Place) (t : Thread) (active : Active) :
    Explores program.nodes place [t] active (program.enter place t active) := by
  have := unseen_le_size program.nodes active.seen
  exact explores_explore (by rw [List.length_singleton]; omega)

theorem Explores.unique {final' : Active} (h : Explores nodes place stack active final)
    (h' : Explores nodes place stack active final') : final' = final := by
  induction h generalizing final' with
  | done active => cases h'; rfl
  | again hseen _ ih =>
      cases h' with
      | again _ rest => exact ih rest
      | visit hnot => exact absurd hseen hnot
  | visit hnot _ _ ihbelow ihrest =>
      cases h' with
      | again hseen => exact absurd hseen hnot
      | visit _ below rest =>
          obtain rfl := ihbelow below
          exact ihrest rest

/-! ## What is kept -/

/-- What holds of the threads at hand and is passed on by every move holds of all threads kept. -/
theorem Explores.forall_threads {P : Thread → Prop}
    (h : Explores nodes place stack active final)
    (hmove : ∀ t, P t → ∀ u ∈ moves nodes place t, P u) (hstack : ∀ t ∈ stack, P t)
    (hactive : ∀ t ∈ active.threads, P t) : ∀ t ∈ final.threads, P t := by
  induction h with
  | done active => exact hactive
  | again _ _ ih => exact ih (fun u hu => hstack u (List.mem_cons_of_mem _ hu)) hactive
  | @visit t stack active between final _ _ _ ihbelow ihrest =>
      have ht := hstack t List.mem_cons_self
      refine ihrest (fun u hu => hstack u (List.mem_cons_of_mem _ hu))
        (ihbelow (hmove t ht) fun u hu => ?_)
      simp only [Active.visit] at hu
      split at hu
      · rcases List.mem_cons.mp hu with rfl | hu
        · exact ht
        · exact hactive u hu
      · exact hactive u hu

theorem Explores.seen_subset (h : Explores nodes place stack active final) :
    active.seen ⊆ final.seen := by
  induction h with
  | done active => exact List.Subset.refl _
  | again _ _ ih => exact ih
  | visit _ _ _ ihbelow ihrest =>
      exact List.Subset.trans (List.subset_cons_self _ _) (List.Subset.trans ihbelow ihrest)

/-- Every thread of the stack is followed, and so is everything that a node reached leads to. -/
theorem Explores.seen_closed (h : Explores nodes place stack active final) :
    (∀ t ∈ stack, t.node ∈ final.seen) ∧
      ∀ n ∈ final.seen, n ∈ active.seen ∨ ∀ m ∈ targets nodes place n, m ∈ final.seen := by
  induction h with
  | done active => exact ⟨by simp, fun n hn => .inl hn⟩
  | @again t stack active final hseen hrest ih =>
      refine ⟨fun u hu => ?_, ih.2⟩
      rcases List.mem_cons.mp hu with rfl | hu
      · exact hrest.seen_subset hseen
      · exact ih.1 u hu
  | @visit t stack active between final _ hbelow hrest ihbelow ihrest =>
      have hsub := hrest.seen_subset
      refine ⟨fun u hu => ?_, fun n hn => ?_⟩
      · rcases List.mem_cons.mp hu with rfl | hu
        · exact hsub (hbelow.seen_subset List.mem_cons_self)
        · exact ihrest.1 u hu
      rcases ihrest.2 n hn with hn | hclosed
      case inr => exact .inr hclosed
      rcases ihbelow.2 n hn with hn | hclosed
      case inr => exact .inr fun m hm => hsub (hclosed m hm)
      rcases List.mem_cons.mp hn with rfl | hn
      case inr => exact .inl hn
      refine .inr fun m hm => ?_
      rw [← map_node_moves] at hm
      obtain ⟨u, hu, rfl⟩ := List.mem_map.mp hm
      exact hsub (ihbelow.1 u hu)

/-- A thread is kept at every waiting node that is newly reached, and none is dropped. -/
theorem Explores.kept (h : Explores nodes place stack active final) :
    active.threads ⊆ final.threads ∧
      ∀ n ∈ final.seen, waits nodes n = true →
        n ∈ active.seen ∨ ∃ t ∈ final.threads, t.node = n := by
  induction h with
  | done active => exact ⟨List.Subset.refl _, fun n hn _ => .inl hn⟩
  | again _ _ ih => exact ih
  | @visit t stack active between final _ _ _ ihbelow ihrest =>
      have hold : active.threads ⊆ (active.visit nodes t).threads := by
        simp only [Active.visit]
        split
        · exact List.subset_cons_self _ _
        · exact List.Subset.refl _
      refine ⟨List.Subset.trans hold (List.Subset.trans ihbelow.1 ihrest.1),
        fun n hn hwaits => ?_⟩
      rcases ihrest.2 n hn hwaits with hn | hthread
      case inr => exact .inr hthread
      rcases ihbelow.2 n hn hwaits with hn | ⟨u, hu, rfl⟩
      case inr => exact .inr ⟨u, ihrest.1 hu, rfl⟩
      rcases List.mem_cons.mp hn with rfl | hn
      case inr => exact .inl hn
      refine .inr ⟨t, ihrest.1 (ihbelow.1 ?_), rfl⟩
      simp only [Active.visit, hwaits, if_true]
      exact List.mem_cons_self

theorem Explores.waiting (h : Explores nodes place stack active final)
    (hactive : ∀ t ∈ active.threads, waits nodes t.node = true) :
    ∀ t ∈ final.threads, waits nodes t.node = true := by
  induction h with
  | done active => exact hactive
  | again _ _ ih => exact ih hactive
  | @visit t stack active between final _ _ _ ihbelow ihrest =>
      refine ihrest (ihbelow fun u hu => ?_)
      simp only [Active.visit] at hu
      split at hu
      case isTrue hwaits =>
        rcases List.mem_cons.mp hu with rfl | hu
        · exact hwaits
        · exact hactive u hu
      case isFalse => exact hactive u hu

end Program

/-- All that the nodes reached lead to is reached, and threads wait at just those of them that wait
for a character or accept. -/
structure Active.Full (nodes : Nodes) (place : Place) (active : Active) : Prop where
  closed : ∀ n ∈ active.seen, ∀ m ∈ Program.targets nodes place n, m ∈ active.seen
  kept : ∀ n ∈ active.seen, Program.waits nodes n = true → ∃ t ∈ active.threads, t.node = n
  waiting : ∀ t ∈ active.threads, Program.waits nodes t.node = true

namespace Program

variable {nodes : Nodes} {place : Place} {stack : List Thread} {active final : Active}

theorem full_empty : Active.Full nodes place {} :=
  ⟨fun _ hn => absurd hn List.not_mem_nil, fun _ hn => absurd hn List.not_mem_nil,
    fun _ ht => absurd ht List.not_mem_nil⟩

theorem Explores.full (h : Explores nodes place stack active final)
    (hfull : active.Full nodes place) : final.Full nodes place where
  closed n hn := by
    rcases h.seen_closed.2 n hn with hn | hclosed
    · exact fun m hm => h.seen_subset (hfull.closed n hn m hm)
    · exact hclosed
  kept n hn hwaits := by
    rcases h.kept.2 n hn hwaits with hn | hthread
    · obtain ⟨t, ht, rfl⟩ := hfull.kept n hn hwaits
      exact ⟨t, h.kept.1 ht, rfl⟩
    · exact hthread
  waiting := h.waiting hfull.waiting

/-! ## Beside nodes that are reached already -/

/-- One of two rounds starts with some nodes reached and some threads kept, the other alone; what
the first comes to is what the second comes to, without the threads at those nodes. -/
structure Beside (old : List Nat) (base : List Thread) (alone shared : Active) : Prop where
  seen : ∀ n, n ∈ shared.seen ↔ n ∈ alone.seen ∨ n ∈ old
  threads : shared.threads = alone.threads.filter (fun t => t.node ∉ old) ++ base

variable {old : List Nat} {base : List Thread} {alone shared : Active}

theorem Beside.visit_old (h : Beside old base alone shared) {t : Thread} (ht : t.node ∈ old) :
    Beside old base (alone.visit nodes t) shared where
  seen n := by
    rw [h.seen n]
    simp only [Active.visit, List.mem_cons]
    constructor
    · rintro (hn | hn)
      · exact .inl (.inr hn)
      · exact .inr hn
    · rintro ((rfl | hn) | hn)
      · exact .inr ht
      · exact .inl hn
      · exact .inr hn
  threads := by
    rw [h.threads]
    simp only [Active.visit]
    split
    · rw [List.filter_cons_of_neg (by simpa using ht)]
    · rfl

theorem Beside.visit_new (h : Beside old base alone shared) {t : Thread} (ht : t.node ∉ old) :
    Beside old base (alone.visit nodes t) (shared.visit nodes t) where
  seen n := by simp only [Active.visit, List.mem_cons, h.seen n, or_assoc]
  threads := by
    simp only [Active.visit, h.threads]
    split
    · rw [List.filter_cons_of_pos (by simpa using ht), List.cons_append]
    · rfl

theorem Explores.beside_old (h : Explores nodes place stack alone final)
    (hclosed : ∀ n ∈ old, ∀ m ∈ targets nodes place n, m ∈ old) (hstack : ∀ t ∈ stack, t.node ∈ old)
    (hbeside : Beside old base alone shared) : Beside old base final shared := by
  induction h with
  | done active => exact hbeside
  | again _ _ ih => exact ih (fun u hu => hstack u (List.mem_cons_of_mem _ hu)) hbeside
  | @visit t stack active between final _ _ _ ihbelow ihrest =>
      have ht := hstack t List.mem_cons_self
      exact ihrest (fun u hu => hstack u (List.mem_cons_of_mem _ hu))
        (ihbelow (fun u hu => hclosed _ ht _ (node_mem_targets hu)) (hbeside.visit_old ht))

theorem Explores.beside (h : Explores nodes place stack alone final)
    (hclosed : ∀ n ∈ old, ∀ m ∈ targets nodes place n, m ∈ old)
    (hbeside : Beside old base alone shared) :
    ∃ final', Explores nodes place stack shared final' ∧ Beside old base final final' := by
  induction h generalizing shared with
  | done active => exact ⟨shared, .done shared, hbeside⟩
  | again hseen _ ih =>
      obtain ⟨final', hrest, hfinal⟩ := ih hbeside
      exact ⟨final', .again ((hbeside.seen _).mpr (.inl hseen)) hrest, hfinal⟩
  | @visit t stack active between final hseen hbelow _ ihbelow ihrest =>
      by_cases ht : t.node ∈ old
      · -- The thread is dropped beside the old nodes, and alone it leads to nothing but them.
        have hbetween := hbelow.beside_old hclosed
          (fun u hu => hclosed _ ht _ (node_mem_targets hu)) (hbeside.visit_old ht)
        obtain ⟨final', hrest, hfinal⟩ := ihrest hbetween
        exact ⟨final', .again ((hbeside.seen _).mpr (.inr ht)) hrest, hfinal⟩
      · obtain ⟨between', hbelow', hbetween⟩ := ihbelow (hbeside.visit_new ht)
        obtain ⟨final', hrest, hfinal⟩ := ihrest hbetween
        have hnot : t.node ∉ shared.seen := by simp [hbeside.seen, hseen, ht]
        exact ⟨final', .visit hnot hbelow' hrest, hfinal⟩

/-! ## Ways to accept -/

/-- Some way from a node at a place accepts. -/
inductive Accepts (nodes : Nodes) : Place → Nat → Prop
  | here {place n} (h : nodes[n]? = some .accept) : Accepts nodes place n
  | move {place n m} (hm : m ∈ targets nodes place n) (h : Accepts nodes place m) :
      Accepts nodes place n
  | read {place next n chars target c rest} (hn : nodes[n]? = some (.read chars target))
      (hc : place.after = c :: rest) (hnext : place.next? = some next) (hhas : chars.has c = true)
      (h : Accepts nodes next target) : Accepts nodes place n

/-- A way from a node that waits accepts there or after the next character. -/
theorem Accepts.of_waits {n : Nat} (h : Accepts nodes place n) (hwaits : waits nodes n = true) :
    nodes[n]? = some .accept ∨
      ∃ chars target c rest next, nodes[n]? = some (.read chars target) ∧
        place.after = c :: rest ∧ place.next? = some next ∧ chars.has c = true ∧
        Accepts nodes next target := by
  cases h with
  | here hnode => exact .inl hnode
  | read hnode hc hnext hhas haccepts =>
      exact .inr ⟨_, _, _, _, _, hnode, hc, hnext, hhas, haccepts⟩
  | move hm _ =>
      unfold waits at hwaits
      unfold targets moves at hm
      split at hwaits
      case h_1 hnode => rw [hnode] at hm; exact absurd hm List.not_mem_nil
      case h_2 hnode => exact .inl hnode
      case h_3 => cases hwaits

theorem not_accepts_moves {t : Thread} (h : ¬ Accepts nodes place t.node) :
    ∀ u ∈ moves nodes place t, ¬ Accepts nodes place u.node :=
  fun _ hu haccepts => h (.move (node_mem_targets hu) haccepts)

end Program

/-- If some way from a node that is reached accepts, so does some way from a thread kept. -/
theorem Active.Full.accepts {nodes : Nodes} {place : Place} {active : Active}
    (hfull : active.Full nodes place) {n : Nat}
    (hn : n ∈ active.seen) (h : Program.Accepts nodes place n) :
    ∃ t ∈ active.threads, Program.Accepts nodes place t.node := by
  induction h with
  | @here place n hnode =>
      obtain ⟨t, ht, rfl⟩ := hfull.kept n hn (by rw [Program.waits, hnode])
      exact ⟨t, ht, .here hnode⟩
  | move hm _ ih => exact ih hfull (hfull.closed _ hn _ hm)
  | @read place next n chars target c rest hnode hc hnext hhas haccepts _ =>
      obtain ⟨t, ht, rfl⟩ := hfull.kept n hn (by rw [Program.waits, hnode])
      exact ⟨t, ht, .read hnode hc hnext hhas haccepts⟩

end NearNotes.Pattern
