import Mathlib
import NearNotes.Text.Lines

/-!
# Lines and headings

A text line by line, and which of its lines are headings.

* `lines_induction` : a text is its last line or a line and the text after it;
* `splitLines_last`, `splitLines_line` : so it is cut by `splitLines`; `mem_splitLines` : a line
  holds no newline but at its end;
* `heading?` : the title of a line that is a heading; `heading?_append_newline`,
  `heading?_eq_some` : what of the line it is.
-/

namespace NearNotes.Text

/-- What is said of every text without newlines, and of a line before a text if it is said of that
text, is said of every text. -/
@[elab_as_elim]
theorem lines_induction {motive : List Char → Prop} (last : ∀ body, '\n' ∉ body → motive body)
    (line : ∀ body rest, '\n' ∉ body → motive rest → motive (body ++ '\n' :: rest))
    (cs : List Char) : motive cs := by
  -- The induction keeps the characters that were read of the line.
  suffices h : ∀ body, '\n' ∉ body → motive (body ++ cs) from h [] List.not_mem_nil
  induction cs with
  | nil =>
      intro body hbody
      rw [List.append_nil]
      exact last body hbody
  | cons c cs ih =>
      intro body hbody
      by_cases hc : c = '\n'
      · subst hc
        exact line body cs hbody (ih [] List.not_mem_nil)
      · have hmore : '\n' ∉ body ++ [c] := by
          simp only [List.mem_append, List.mem_singleton, not_or]
          exact ⟨hbody, fun h => hc h.symm⟩
        simpa using ih (body ++ [c]) hmore

theorem splitLines_line {body : List Char} (h : '\n' ∉ body) (rest : List Char) :
    splitLines (body ++ '\n' :: rest) = (body ++ ['\n']) :: splitLines rest := by
  induction body with
  | nil => rw [List.nil_append, splitLines, if_pos rfl]; rfl
  | cons c body ih =>
      obtain ⟨hc, hbody⟩ := List.ne_and_not_mem_of_not_mem_cons h
      rw [List.cons_append, splitLines, if_neg hc.symm, ih hbody]
      rfl

theorem splitLines_last {body : List Char} (h : '\n' ∉ body) (hne : body ≠ []) :
    splitLines body = [body] := by
  induction body with
  | nil => exact absurd rfl hne
  | cons c body ih =>
      obtain ⟨hc, hbody⟩ := List.ne_and_not_mem_of_not_mem_cons h
      rw [splitLines, if_neg hc.symm]
      cases body with
      | nil => rfl
      | cons d body => rw [ih hbody (List.cons_ne_nil d body)]

/-- A line has characters and holds no newline but at its end, where only the last line may have
none. -/
theorem mem_splitLines {cs line : List Char} (h : line ∈ splitLines cs) :
    ∃ body, '\n' ∉ body ∧ (line = body ++ ['\n'] ∨
      line = body ∧ body ≠ [] ∧ (splitLines cs).getLast? = some line) := by
  induction cs using lines_induction with
  | last body hbody =>
      cases body with
      | nil => exact absurd h List.not_mem_nil
      | cons c body =>
          rw [splitLines_last hbody (List.cons_ne_nil c body)] at h ⊢
          obtain rfl := List.mem_singleton.mp h
          exact ⟨_, hbody, .inr ⟨rfl, List.cons_ne_nil c body, rfl⟩⟩
  | line body rest hbody ih =>
      rw [splitLines_line hbody] at h ⊢
      rcases List.mem_cons.mp h with rfl | h
      · exact ⟨body, hbody, .inl rfl⟩
      · obtain ⟨body', hbody', heq | ⟨heq, hne, hlast⟩⟩ := ih h
        · exact ⟨body', hbody', .inl heq⟩
        · refine ⟨body', hbody', .inr ⟨heq, hne, ?_⟩⟩
          rw [List.getLast?_cons, hlast]
          rfl

/-! ## Headings -/

/-- What follows a hash and a blank, if anything does. -/
def title? : List Char → Option (List Char)
  | '#' :: ' ' :: c :: title => some (c :: title)
  | _ => none

theorem title?_eq_some {body title : List Char} (h : title? body = some title) :
    body = '#' :: ' ' :: title ∧ title ≠ [] := by
  unfold title? at h
  split at h
  · cases h
    exact ⟨rfl, List.cons_ne_nil _ _⟩
  · cases h

theorem title?_of_ne_hash {c : Char} (h : c ≠ '#') (body : List Char) :
    title? (c :: body) = none := by
  unfold title?
  split
  · simp_all
  · rfl

theorem title?_of_ne_blank {c : Char} (h : c ≠ ' ') (body : List Char) :
    title? ('#' :: c :: body) = none := by
  unfold title?
  split
  · simp_all
  · rfl

/-- The title of a line that is a heading. The newline of the line does not count. -/
def heading? (line : List Char) : Option (List Char) := title? (line.takeWhile (· ≠ '\n'))

theorem takeWhile_of_not_mem {body : List Char} (h : '\n' ∉ body) (tail : List Char) :
    (body ++ tail).takeWhile (· ≠ '\n') = body ++ tail.takeWhile (· ≠ '\n') :=
  List.takeWhile_append_of_pos fun _ hc => decide_eq_true fun heq => h (heq ▸ hc)

theorem heading?_of_not_mem {body : List Char} (h : '\n' ∉ body) :
    heading? body = title? body := by
  have hbody := takeWhile_of_not_mem h []
  rw [List.append_nil, List.takeWhile_nil, List.append_nil] at hbody
  rw [heading?, hbody]

theorem heading?_append_newline {body : List Char} (h : '\n' ∉ body) :
    heading? (body ++ ['\n']) = heading? body := by
  have hline := takeWhile_of_not_mem h ['\n']
  rw [List.takeWhile_cons_of_neg (by decide), List.append_nil] at hline
  rw [heading?, hline, ← heading?_of_not_mem h]

theorem heading?_eq_some {line title : List Char} (h : heading? line = some title) :
    title ≠ [] ∧ ∃ tail, line = '#' :: ' ' :: (title ++ tail) := by
  obtain ⟨hbody, hne⟩ := title?_eq_some h
  refine ⟨hne, line.dropWhile (· ≠ '\n'), ?_⟩
  rw [← List.cons_append, ← List.cons_append, ← hbody, List.takeWhile_append_dropWhile]

end NearNotes.Text
