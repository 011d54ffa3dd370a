import NearNotes.Text.Lines

/-!
# Slices by byte offset

Parts of a text between two byte offsets, which must fall between characters.

* `splitAtByte?`: a text cut at an offset; `splitAtByte?_eq_some` says what the two parts are;
* `slice?`: the part between two offsets.
-/

namespace NearNotes.Text

/-- A text cut after a number of bytes, if that is a place between two characters. -/
def splitAtByte? : Nat → List Char → Option (List Char × List Char)
  | 0, cs => some ([], cs)
  | _ + 1, [] => none
  | n + 1, c :: cs =>
    if c.utf8Size ≤ n + 1 then
      (splitAtByte? (n + 1 - c.utf8Size) cs).map fun (front, back) => (c :: front, back)
    else none

theorem splitAtByte?_eq_some {n : Nat} {cs front back : List Char}
    (h : splitAtByte? n cs = some (front, back)) : front ++ back = cs ∧ byteLength front = n := by
  induction cs generalizing n front with
  | nil =>
    cases n with
    | zero =>
      simp only [splitAtByte?, Option.some.injEq, Prod.mk.injEq] at h
      obtain ⟨rfl, rfl⟩ := h
      simp
    | succ n => simp [splitAtByte?] at h
  | cons c cs ih =>
    cases n with
    | zero =>
      simp only [splitAtByte?, Option.some.injEq, Prod.mk.injEq] at h
      obtain ⟨rfl, rfl⟩ := h
      simp
    | succ n =>
      unfold splitAtByte? at h
      split at h
      · obtain ⟨⟨front', back'⟩, hcut, heq⟩ := Option.map_eq_some_iff.mp h
        simp only [Prod.mk.injEq] at heq
        obtain ⟨rfl, rfl⟩ := heq
        obtain ⟨happ, hlen⟩ := ih hcut
        refine ⟨by simp [happ], ?_⟩
        simp [hlen]
        omega
      · simp at h

/-- The part of a text from one byte offset to another, if both are places in it. -/
def slice? (cs : List Char) (start stop : Nat) : Option (List Char) :=
  if start ≤ stop then
    match splitAtByte? start cs with
    | none => none
    | some (_, back) => (splitAtByte? (stop - start) back).map Prod.fst
  else none

end NearNotes.Text
