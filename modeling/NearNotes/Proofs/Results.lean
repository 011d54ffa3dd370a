import Mathlib

/-!
# Results one after the other

* `bind_eq_ok_iff` : a computation in two parts succeeds if both do;
* `mapM_eq_ok_iff`, `mapM_eq_ok_iff_map` : a function succeeds along a list if it does on each of its
  elements;
* `mapM_eq_error_iff` : it fails as it does on the first element on which it fails;
* `mapM_congr` : only the function's values on the elements count;
* `mapM_bind_mapM` : two passes over a list as one.
-/

namespace NearNotes

variable {α β ε : Type}

theorem bind_eq_ok_iff {x : Except ε α} {f : α → Except ε β} {b : β} :
    x >>= f = .ok b ↔ ∃ a, x = .ok a ∧ f a = .ok b := by
  cases x with
  | error e => simp [bind, Except.bind]
  | ok a => simp [bind, Except.bind]

theorem mapM_eq_ok_iff {f : α → Except ε β} {l : List α} {bs : List β} :
    l.mapM f = .ok bs ↔ List.Forall₂ (fun a b => f a = .ok b) l bs := by
  induction l generalizing bs with
  | nil => simp [pure, Except.pure, eq_comm]
  | cons a l ih =>
      simp only [List.mapM_cons, bind_eq_ok_iff, ih, List.forall₂_cons_left_iff]
      constructor
      · rintro ⟨b, hb, rest, hrest, heq⟩
        exact ⟨b, rest, hb, hrest, (Except.ok.inj heq).symm⟩
      · rintro ⟨b, rest, hb, hrest, rfl⟩
        exact ⟨b, hb, rest, hrest, rfl⟩

theorem mapM_eq_ok_iff_map {f : α → Except ε β} {l : List α} {bs : List β} :
    l.mapM f = .ok bs ↔ bs.map Except.ok = l.map f := by
  have hpairs : List.Forall₂ (fun a b => f a = .ok b) l bs ↔
      List.Forall₂ (· = ·) (l.map f) (bs.map Except.ok) := by
    rw [List.forall₂_map_left_iff, List.forall₂_map_right_iff]
  rw [mapM_eq_ok_iff, hpairs, List.forall₂_eq_eq_eq, eq_comm]

theorem isOk_of_map_eq {f : α → Except ε β} {l : List α} {bs : List β}
    (h : bs.map Except.ok = l.map f) : ∀ a ∈ l, (f a).isOk := by
  intro a ha
  have hmem : f a ∈ l.map f := List.mem_map_of_mem ha
  rw [← h, List.mem_map] at hmem
  obtain ⟨b, -, hb⟩ := hmem
  rw [← hb]
  rfl

theorem mapM_eq_ok_map {f : α → Except ε β} {g : α → β} {l : List α}
    (h : ∀ a ∈ l, f a = .ok (g a)) : l.mapM f = .ok (l.map g) := by
  rw [mapM_eq_ok_iff, List.forall₂_map_right_iff, List.forall₂_same]
  exact h

theorem mapM_congr {f g : α → Except ε β} {l : List α} (h : ∀ a ∈ l, f a = g a) :
    l.mapM f = l.mapM g := by
  induction l with
  | nil => rfl
  | cons a l ih =>
      rw [List.mapM_cons, List.mapM_cons, h a List.mem_cons_self,
        ih fun b hb => h b (List.mem_cons_of_mem a hb)]

theorem mapM_eq_error_iff {f : α → Except ε β} {l : List α} {e : ε} :
    l.mapM f = .error e ↔ ∃ before a after, l = before ++ a :: after ∧ f a = .error e ∧
      ∀ b ∈ before, (f b).isOk := by
  induction l with
  | nil => simp [pure, Except.pure]
  | cons a l ih =>
      rw [List.mapM_cons]
      cases ha : f a with
      | error e' =>
          constructor
          · intro h
            cases h
            exact ⟨[], a, l, rfl, ha, by simp⟩
          · rintro ⟨before, b, after, heq, hb, hbefore⟩
            cases before with
            | nil =>
                cases heq
                rw [ha] at hb
                cases hb
                rfl
            | cons first before =>
                cases heq
                have := hbefore a List.mem_cons_self
                rw [ha] at this
                cases this
      | ok v =>
          have hrest : (do let v ← Except.ok v; let vs ← l.mapM f; pure (v :: vs)) = .error e ↔
              l.mapM f = .error e := by
            cases l.mapM f with
            | error e' => simp [bind, Except.bind]
            | ok vs => simp [bind, Except.bind, pure, Except.pure]
          rw [hrest, ih]
          constructor
          · rintro ⟨before, b, after, rfl, hb, hbefore⟩
            refine ⟨a :: before, b, after, rfl, hb, ?_⟩
            simpa [ha, Except.isOk, Except.toBool] using hbefore
          · rintro ⟨before, b, after, heq, hb, hbefore⟩
            cases before with
            | nil =>
                cases heq
                rw [ha] at hb
                cases hb
            | cons first before =>
                cases heq
                exact ⟨before, b, after, rfl, hb, fun c hc =>
                  hbefore c (List.mem_cons_of_mem _ hc)⟩

theorem mapM_bind_mapM {γ : Type} {f : α → Except ε β} {g : β → Except ε γ} {l : List α}
    (h : ∀ a ∈ l, (f a).isOk) : l.mapM f >>= List.mapM g = l.mapM fun a => f a >>= g := by
  induction l with
  | nil => rfl
  | cons a l ih =>
      have ih := ih fun b hb => h b (List.mem_cons_of_mem a hb)
      have ha := h a List.mem_cons_self
      cases hfirst : f a with
      | error e =>
          rw [hfirst] at ha
          cases ha
      | ok b =>
          rw [List.mapM_cons, List.mapM_cons, ← ih, hfirst]
          cases hrest : l.mapM f with
          | error e =>
              obtain ⟨before, c, after, heq, hc, -⟩ := mapM_eq_error_iff.mp hrest
              have hok := h c (by simp [heq])
              rw [hc] at hok
              cases hok
          | ok bs => simp [bind, Except.bind, pure, Except.pure]

end NearNotes
