import Mathlib
import NearNotes.Proofs.Pattern.Groups
import NearNotes.Pattern.Program

/-!
# The shape of a program

Where the nodes of a compiled pattern lead and which places they note.

* `Node.Leads` : a node inside a match, leading to nodes with a given property;
* `Grows` : a fragment leaves the nodes there as they are, and the new ones lead to each other or
  on; `Ast.compile_grows` : the fragment of every pattern does;
* `Program.Framed` : one node opens the match and one closes it, and nothing leads back to the
  opening or past the closing one; `framed_ofAst` : every program is of that form.
-/

namespace NearNotes.Pattern

/-- A node that stands inside a match and leads only to nodes with a property. -/
def Node.Leads (inside : Nat → Prop) : Node → Prop
  | read _ next | check _ next => inside next
  | mark slot next => 2 ≤ slot ∧ inside next
  | branch first second => inside first ∧ inside second
  | accept => False
  | stuck => True

theorem Node.Leads.mono {inside inside' : Nat → Prop} {node : Node} (h : node.Leads inside)
    (hmono : ∀ n, inside n → inside' n) : node.Leads inside' := by
  cases node with
  | read chars next => exact hmono _ h
  | check condition next => exact hmono _ h
  | mark slot next => exact ⟨h.1, hmono _ h.2⟩
  | branch first second => exact ⟨hmono _ h.1, hmono _ h.2⟩
  | accept => exact h
  | stuck => exact trivial

theorem leads_choice {inside : Nat → Prop} {body next : Nat} (hbody : inside body)
    (hnext : inside next) (greedy : Bool) : (choice greedy body next).Leads inside := by
  cases greedy
  · exact ⟨hnext, hbody⟩
  · exact ⟨hbody, hnext⟩

/-- The node to go on with, or one of those between two indices. -/
def Within (low high next n : Nat) : Prop := n = next ∨ low ≤ n ∧ n < high

/-- Nodes were added to those there; the new ones, and the node to start with, lead on or to each
other. -/
structure Grows (nodes : Nodes) (next : Nat) (result : Nodes × Nat) : Prop where
  size_le : nodes.size ≤ result.1.size
  old : ∀ n < nodes.size, result.1[n]? = nodes[n]?
  entry : Within nodes.size result.1.size next result.2
  leads : ∀ n node, nodes.size ≤ n → result.1[n]? = some node →
    node.Leads (Within nodes.size result.1.size next)

namespace Grows

variable {nodes : Nodes} {next : Nat} {result : Nodes × Nat}

theorem refl (nodes : Nodes) (next : Nat) : Grows nodes next (nodes, next) where
  size_le := Nat.le_refl _
  old _ _ := rfl
  entry := .inl rfl
  leads n node hn hnode := by
    rw [Array.getElem?_eq_none hn] at hnode
    cases hnode

theorem trans {mid : Nat} {result' : Nodes × Nat} (h : Grows nodes next result)
    (hmid : Within nodes.size result.1.size next mid) (h' : Grows result.1 mid result') :
    Grows nodes next result' := by
  have hsize := h.size_le
  have hsize' := h'.size_le
  have hold : ∀ n, Within nodes.size result.1.size next n →
      Within nodes.size result'.1.size next n := by
    rintro n (hn | ⟨hlow, hhigh⟩)
    · exact .inl hn
    · exact .inr ⟨hlow, by omega⟩
  have hnew : ∀ n, Within result.1.size result'.1.size mid n →
      Within nodes.size result'.1.size next n := by
    rintro n (rfl | ⟨hlow, hhigh⟩)
    · exact hold _ hmid
    · exact .inr ⟨by omega, hhigh⟩
  refine ⟨by omega, fun n hn => ?_, hnew _ h'.entry, fun n node hn hnode => ?_⟩
  · rw [h'.old n (by omega), h.old n hn]
  · rcases Nat.lt_or_ge n result.1.size with hlt | hge
    · rw [h'.old n hlt] at hnode
      exact (h.leads n node hn hnode).mono hold
    · exact (h'.leads n node hge hnode).mono hnew

/-- One more node in front, which leads on or to the nodes that were added before. -/
theorem push (h : Grows nodes next result) {node : Node}
    (hnode : node.Leads (Within nodes.size result.1.size next)) :
    Grows nodes next (addNode result.1 node) := by
  have hsize := h.size_le
  have hmono : ∀ n, Within nodes.size result.1.size next n →
      Within nodes.size (result.1.push node).size next n := by
    rintro n (hn | ⟨hlow, hhigh⟩)
    · exact .inl hn
    · exact .inr ⟨hlow, by rw [Array.size_push]; omega⟩
  refine ⟨by simp [addNode]; omega, fun n hn => ?_, .inr ⟨hsize, by simp [addNode]⟩,
    fun n m hn hm => ?_⟩
  · rw [← h.old n hn]
    simp only [addNode, Array.getElem?_push]
    rw [if_neg (by omega)]
  · simp only [addNode, Array.getElem?_push] at hm ⊢
    split at hm
    · cases hm
      exact hnode.mono hmono
    · exact (h.leads n m hn hm).mono hmono

theorem set (h : Grows nodes next result) {k : Nat} (hk : nodes.size ≤ k) {node : Node}
    (hnode : node.Leads (Within nodes.size result.1.size next)) :
    Grows nodes next (result.1.setIfInBounds k node, result.2) := by
  refine ⟨by simpa using h.size_le, fun n hn => ?_, by simpa using h.entry, fun n m hn hm => ?_⟩
  · rw [← h.old n hn]
    simp only [Array.getElem?_setIfInBounds]
    rw [if_neg (by omega)]
  · simp only [Array.getElem?_setIfInBounds, Array.size_setIfInBounds] at hm ⊢
    split at hm
    · split at hm
      · cases hm
        exact hnode
      · cases hm
    · exact h.leads n m hn hm

theorem start_at (h : Grows nodes next result) {n : Nat}
    (hn : Within nodes.size result.1.size next n) : Grows nodes next (result.1, n) :=
  ⟨h.size_le, h.old, hn, h.leads⟩

end Grows

namespace Fragment

variable {body : Fragment}

theorem times_grows (hbody : ∀ nodes next, Grows nodes next (body nodes next)) (n : Nat)
    (nodes : Nodes) (next : Nat) : Grows nodes next (times body n nodes next) := by
  induction n with
  | zero => exact .refl nodes next
  | succ n ih => exact ih.trans ih.entry (hbody _ _)

theorem upTo_grows (hbody : ∀ nodes next, Grows nodes next (body nodes next)) (greedy : Bool)
    (n : Nat) (nodes : Nodes) (next : Nat) :
    Grows nodes next (upTo body greedy n nodes next) := by
  induction n with
  | zero => exact .refl nodes next
  | succ n ih =>
      have hinner := ih.trans ih.entry (hbody _ _)
      exact hinner.push (leads_choice hinner.entry (.inl rfl) greedy)

/-- A loop can be started with its body or with the node that decides. -/
theorem loop_grows (hbody : ∀ nodes next, Grows nodes next (body nodes next)) (greedy : Bool)
    (nodes : Nodes) (next : Nat) :
    Grows nodes next ((loop body greedy nodes next).1, (loop body greedy nodes next).2.1) ∧
      Grows nodes next ((loop body greedy nodes next).1, (loop body greedy nodes next).2.2) := by
  have hdecide : Grows nodes next (addNode nodes .stuck) := (Grows.refl nodes next).push trivial
  have hinner := hdecide.trans hdecide.entry (hbody _ _)
  have hloop := hinner.set (k := nodes.size) (Nat.le_refl _)
    (leads_choice hinner.entry (.inl rfl) greedy)
  refine ⟨hloop, hloop.start_at (.inr ⟨Nat.le_refl _, ?_⟩)⟩
  have hsize := (hbody (nodes.push .stuck) nodes.size).size_le
  rw [Array.size_push] at hsize
  simpa [loop, addNode] using hsize

end Fragment

theorem Ast.compile_grows (ast : Ast) (h : ast.Numbered) (nodes : Nodes) (next : Nat) :
    Grows nodes next (ast.compile nodes next) := by
  induction ast generalizing nodes next with
  | empty => exact .refl nodes next
  | never => exact (Grows.refl nodes next).push trivial
  | set chars => exact (Grows.refl nodes next).push (.inl rfl)
  | look condition => exact (Grows.refl nodes next).push (.inl rfl)
  | seq a b iha ihb =>
      have hb := ihb h.2 nodes next
      exact hb.trans hb.entry (iha h.1 _ _)
  | either a b iha ihb =>
      have ha := iha h.1 nodes next
      have hb := ha.trans (.inl rfl) (ihb h.2 _ next)
      have hfirst : Within nodes.size (b.compile (a.compile nodes next).1 next).1.size next
          (a.compile nodes next).2 := by
        have hsize := (ihb h.2 (a.compile nodes next).1 next).size_le
        rcases ha.entry with heq | ⟨hlow, hhigh⟩
        · exact .inl heq
        · exact .inr ⟨hlow, by omega⟩
      exact hb.push ⟨hfirst, hb.entry⟩
  | group index body ih =>
      have hindex := h.1
      have hclose : Grows nodes next (addNode nodes (.mark (2 * index + 1) next)) :=
        (Grows.refl nodes next).push ⟨by omega, .inl rfl⟩
      have hbody := hclose.trans hclose.entry (ih h.2 _ _)
      exact hbody.push ⟨by omega, hbody.entry⟩
  | repeated least most greedy body ih =>
      have hbody := ih h
      cases most with
      | some most =>
          have hextra := Fragment.upTo_grows hbody greedy (most - least) nodes next
          exact hextra.trans hextra.entry (Fragment.times_grows hbody least _ _)
      | none =>
          obtain ⟨hentry, hdecide⟩ := Fragment.loop_grows hbody greedy nodes next
          cases least with
          | zero =>
              simp only [compile]
              split
              · exact hentry.push (leads_choice hentry.entry (.inl rfl) greedy)
              · exact hdecide
          | succ least => exact hentry.trans hentry.entry (Fragment.times_grows hbody least _ _)

namespace Program

/-- The node opens the match, and nothing leads to it. The node with index one closes the match
and leads to the one that accepts. All others stand inside. -/
structure Framed (program : Program) : Prop where
  accepting : program.nodes[0]? = some .accept
  closing : program.nodes[1]? = some (.mark 1 0)
  opening : ∃ entry, program.nodes[program.start]? = some (.mark 0 entry) ∧
    entry ≠ 0 ∧ entry ≠ program.start
  start_ne : 1 < program.start
  inside : ∀ n node, program.nodes[n]? = some node → 1 < n → n ≠ program.start →
    node.Leads fun m => m ≠ 0 ∧ m ≠ program.start

theorem framed_ofAst {ast : Ast} (h : ast.Numbered) : (ofAst ast).Framed := by
  -- The whole match is closed by the second node, and its body comes behind that one.
  have hbody := ast.compile_grows h #[.accept, .mark 1 0] 1
  generalize hresult : ast.compile #[.accept, .mark 1 0] 1 = result at hbody
  have hprogram : ofAst ast = ⟨result.1.push (.mark 0 result.2), result.1.size⟩ := by
    rw [← hresult]
    rfl
  have hsize : 2 ≤ result.1.size := hbody.size_le
  have hwithin : ∀ n, Within 2 result.1.size 1 n → n ≠ 0 ∧ n ≠ result.1.size := by
    rintro n (rfl | ⟨hlow, hhigh⟩) <;> omega
  rw [hprogram]
  refine ⟨?_, ?_, ⟨result.2, ?_, hwithin _ hbody.entry⟩, hsize, fun n node hnode hlow hne => ?_⟩
  · simp only [Array.getElem?_push]
    rw [if_neg (by omega), hbody.old 0 (by decide)]
    rfl
  · simp only [Array.getElem?_push]
    rw [if_neg (by omega), hbody.old 1 (by decide)]
    rfl
  · simp
  · simp only [Array.getElem?_push] at hnode hne
    rw [if_neg hne] at hnode
    exact (hbody.leads n node hlow hnode).mono hwithin

end Program

end NearNotes.Pattern
