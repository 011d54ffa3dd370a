import Mathlib

/-!
# Lists with distinct keys

* `find?_eq_some_of_nodup` : an element is found by its key;
* `nodup_map_append_singleton` : an element with a new key goes to the end;
* `split_of_nodup` : where an element stands, and what is left if it is taken out or replaced.
-/

namespace NearNotes

variable {α β : Type} (key : α → β) {l : List α} {a : α}

theorem find?_eq_some_of_nodup [BEq β] [LawfulBEq β] (h : (l.map key).Nodup) (ha : a ∈ l) :
    l.find? (fun x => key x == key a) = some a := by
  have hsome : (l.find? fun x => key x == key a).isSome :=
    List.find?_isSome.mpr ⟨a, ha, beq_self_eq_true _⟩
  obtain ⟨b, hb⟩ := Option.isSome_iff_exists.mp hsome
  have hkey : key b = key a := by simpa using List.find?_some hb
  rw [hb, List.inj_on_of_nodup_map h (List.mem_of_find?_eq_some hb) ha hkey]

theorem nodup_map_append_singleton (h : (l.map key).Nodup) (hnew : key a ∉ l.map key) :
    ((l ++ [a]).map key).Nodup := by
  rw [List.map_append, List.map_singleton, ← List.concat_eq_append]
  exact h.concat hnew

/-- The list before and after an element, which is taken out or replaced by its key. -/
theorem split_of_nodup [BEq β] [LawfulBEq β] (h : (l.map key).Nodup) (ha : a ∈ l) :
    ∃ before after, l = before ++ a :: after ∧
      l.filter (fun x => key x != key a) = before ++ after ∧
      ∀ g : α → α, l.map (fun x => if key x == key a then g x else x) =
        before ++ g a :: after := by
  obtain ⟨before, after, rfl⟩ := List.append_of_mem ha
  have hothers : ∀ x ∈ before ++ after, key x ≠ key a := by
    rw [List.map_append, List.map_cons, List.nodup_middle, List.nodup_cons, ← List.map_append] at h
    exact fun x hx heq => h.1 (heq ▸ List.mem_map_of_mem hx)
  refine ⟨before, after, rfl, ?_, fun g => ?_⟩
  · rw [List.filter_append, List.filter_cons_of_neg (by simp), ← List.filter_append]
    exact List.filter_eq_self.mpr fun x hx => bne_iff_ne.mpr (hothers x hx)
  · have hkept : ∀ part : List α, (∀ x ∈ part, x ∈ before ++ after) →
        part.map (fun x => if key x == key a then g x else x) = part := by
      intro part hpart
      refine (List.map_congr_left fun x hx => ?_).trans (List.map_id part)
      exact if_neg (by simpa using hothers x (hpart x hx))
    rw [List.map_append, List.map_cons, if_pos (by simp),
      hkept before fun x hx => List.mem_append_left _ hx,
      hkept after fun x hx => List.mem_append_right _ hx]

end NearNotes
