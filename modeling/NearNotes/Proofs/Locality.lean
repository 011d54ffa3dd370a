import Mathlib
import NearNotes.Proofs.Note.Outline
import NearNotes.Proofs.Population.Sequential
import NearNotes.Proofs.Population.Spared

/-!
# Edits elsewhere

A section depends on its own lines only. So a note that goes on after some lines keeps the sections of
these lines with their texts, and once they have rows only what came later is asked for.

* `Splitter.sections_append`, `Splitter.sections_of_section` : the sections of a note after another
  one, and of one section's text;
* `Pipeline.run_is_course` : a run is a course of its job;
* `Pipeline.course_asks_for_new` : what a run asks for where the first texts have rows;
* `Pipeline.edits_keep_sections` : all of this for a run after a run.
-/

namespace NearNotes

open Text

namespace Splitter

variable {splitter : Splitter}

/-- The sections of lines and of a note after them that starts with a heading. -/
theorem sections_append (h : ofPattern headingPattern = .ok splitter) {front back : String}
    (hfront : ∀ last ∈ front.toList.getLast?, last = '\n')
    (hback : ∀ first ∈ (splitLines back.toList).head?, (heading? first).isSome) :
    splitter.sections (front ++ back) = splitter.sections front ++
      (splitter.sections back).map (.shift (byteLength front.toList)) := by
  have hheads : ∀ first ∈ (splitLines back.toList).head?, isBody first = false :=
    fun first hfirst => isBody_eq_false_iff.mpr (hback first hfirst)
  rw [sections_eq_ofLines h, sections_eq_ofLines h, sections_eq_ofLines h, String.toList_append,
    splitLines_append hfront, sectionsOfLines_append hheads, splitLines_flatten, Nat.zero_add,
    ← sectionsOfLines_shift, Nat.add_zero]

theorem sections_of_section (h : ofPattern headingPattern = .ok splitter) {document : String}
    {part : Section} (hpart : part ∈ splitter.sections document) :
    splitter.sections part.text = [⟨0, part.text⟩] := by
  rw [sections_eq_ofLines h] at hpart
  obtain ⟨before, line, after, hlines, hline, -, htext⟩ := mem_sectionsOfLines.mp hpart
  have hown : splitLines part.text.toList = line :: after.takeWhile isBody := by
    have hinfix : line :: after.takeWhile isBody <:+: splitLines document.toList := by
      rw [hlines]
      exact List.infix_iff_prefix_suffix.mpr ⟨line :: after,
        List.cons_prefix_cons.mpr ⟨rfl, List.takeWhile_prefix _⟩, List.suffix_append _ _⟩
    rw [htext, splitLines_flatten_of_infix hinfix]
  have hbody : ∀ other ∈ after.takeWhile isBody, isBody other := fun _ => List.mem_takeWhile_imp
  rw [sections_eq_ofLines h, hown, sectionsOfLines,
    if_neg (by rw [hline]; exact Bool.false_ne_true), sectionsOfLines_of_body hbody,
    List.takeWhile_eq_self_iff.mpr hbody, ← List.flatten_cons, ← htext, String.ofList_toList]

end Splitter

namespace Pipeline

variable {p : Pipeline} {front back document : String} {s s₁ later : Session} {report : Report}

theorem run_is_course (p : Pipeline) (document : String) (s : Session) :
    ∃ m called jobs, Job.Course m called [p.runJob document] s jobs (p.run document s).1 ∧
      jobs.map Job.result = [(p.run document s).2] := by
  obtain ⟨m, called, hcourse⟩ :=
    Job.passes_are_course (2 * ((p.runJob document).window.steps + 1) + 1) [p.runJob document] s
  obtain ⟨job, hjob, -⟩ := List.map_eq_singleton_iff.mp hcourse.plan_eq
  refine ⟨m, called, _, hcourse, ?_⟩
  rw [run, runAll, List.map_singleton, Job.finish_singleton, hjob]
  rfl

/-- Where the texts of the first sections have rows, a run asks for those of the others only. -/
theorem course_asks_for_new
    (hcut : p.sectionTexts document = p.sectionTexts front ++ p.sectionTexts back)
    (hrows : ∀ text ∈ p.sectionTexts front, ∃ v, s.cache.read text = .ok (some v))
    {m : Nat} {called : List String} {jobs : List (Job Report)} {s' : Session}
    (h : Job.Course m called [p.runJob document] s jobs s') :
    called ⊆ p.sectionTexts back ∧ AsksOnly (· ∈ p.sectionTexts back) s.log s'.log := by
  have hnew : ∀ text, Job.Want s.cache [p.runJob document] text → text ∈ p.sectionTexts back := by
    rintro text ⟨⟨about, habout, htext⟩, hnone⟩
    rw [List.mem_singleton.mp habout] at htext
    have htext : text ∈ p.sectionTexts document := htext
    rw [hcut] at htext
    refine (List.mem_append.mp htext).resolve_left fun hold => ?_
    obtain ⟨v, hread⟩ := hrows text hold
    obtain ⟨-, row, rest, hrow, -⟩ := Cache.read_eq_some_iff.mp hread
    rw [hnone] at hrow
    cases hrow
  have hspares : ∀ job ∈ [p.runJob document], job.window.Spares s.cache := fun job hjob =>
    Window.spares_of_new (by rw [List.mem_singleton.mp hjob]; rfl)
  obtain ⟨hasks, hcalled⟩ := h.spares hspares (.refl _)
  exact ⟨fun text htext => hnew text (hcalled text htext), hasks.mono hnew⟩

/-- The texts of a note's sections have rows after a run over it that succeeds, and later. -/
theorem read_of_run (hsound : Cache.Sound s.cache)
    (hrun : p.run document s = (s₁, some (.ok report)))
    (hgrows : s₁.cache.database.Grows later.cache.database) :
    ∀ text ∈ p.sectionTexts document, ∃ v, later.cache.read text = .ok (some v) := by
  obtain ⟨found, hpopulate, -⟩ := populate_of_run hrun
  intro text htext
  obtain ⟨v, hv⟩ :=
    Window.stored_of_populate rfl rfl rfl hsound.orderly.idBound hpopulate text htext
  exact ⟨v, Cache.read_grows hgrows hv⟩

/-- **Edits elsewhere keep sections.** With the splitter of the heading pattern: the sections of lines
and a note after them that starts with a heading are those of the lines, and then those of the note,
each as many bytes later as the lines have. The text of one section has this one section, at its
start. So after a run over the lines that has succeeded, and whatever else was stored since, a run
over both calls its provider on texts of sections of the added note only, in whatever order its parts
go on, and no source is asked for any other text. -/
theorem edits_keep_sections
    (hsplitter : Splitter.ofPattern Splitter.headingPattern = .ok p.splitter) :
    (∀ front back : String, (∀ last ∈ front.toList.getLast?, last = '\n') →
      (∀ first ∈ (splitLines back.toList).head?, (heading? first).isSome) →
      p.splitter.sections (front ++ back) = p.splitter.sections front ++
        (p.splitter.sections back).map (.shift (byteLength front.toList)) ∧
      ∀ s s₁ report, Cache.Sound s.cache → p.run front s = (s₁, some (.ok report)) →
        ∀ later : Session, s₁.cache.database.Grows later.cache.database →
          (∀ m called jobs s', Job.Course m called [p.runJob (front ++ back)] later jobs s' →
            called ⊆ p.sectionTexts back ∧
              AsksOnly (· ∈ p.sectionTexts back) later.log s'.log) ∧
          ∃ m called jobs, Job.Course m called [p.runJob (front ++ back)] later jobs
              (p.run (front ++ back) later).1 ∧
            jobs.map Job.result = [(p.run (front ++ back) later).2]) ∧
    ∀ document, ∀ part ∈ p.splitter.sections document,
      p.splitter.sections part.text = [⟨0, part.text⟩] := by
  refine ⟨fun front back hfront hback => ?_, fun document part =>
    Splitter.sections_of_section hsplitter⟩
  have hsections := Splitter.sections_append hsplitter hfront hback
  refine ⟨hsections, fun s s₁ report hsound hrun later hgrows =>
    ⟨fun m called jobs s' hcourse => ?_, p.run_is_course (front ++ back) later⟩⟩
  have hcut : p.sectionTexts (front ++ back) = p.sectionTexts front ++ p.sectionTexts back := by
    rw [sectionTexts, hsections, List.map_append, List.map_map]
    rfl
  exact course_asks_for_new hcut (read_of_run hsound hrun hgrows) hcourse

/-- Top-level headings are the boundaries, and every text has a vector after a millisecond. -/
def headed : Pipeline :=
  { letters with
    provider := .source {
      name := "headed"
      model := "one"
      dimension := 1
      reply := fun _ _ => { delay := .ofMillis 1, outcome := .ok [⟨1⟩] } }
    splitter := .ofProgram Pattern.Program.headingProgram }

def blank : Session where
  cache := { database := { table := some {} } }

/-- The text of the second section is new, and that of the third one is the first one's again. -/
theorem edits_keep_sections_repeated :
    headed.splitter.sections "é\n# a\n" = [⟨3, "# a\n"⟩] ∧
    headed.splitter.sections "# b\nx\n# a\n" = [⟨0, "# b\nx\n"⟩, ⟨6, "# a\n"⟩] ∧
    headed.splitter.sections "é\n# a\n# b\nx\n# a\n" =
      [⟨3, "# a\n"⟩, ⟨7, "# b\nx\n"⟩, ⟨13, "# a\n"⟩] ∧
    headed.splitter.sections "# b\nx\n" = [⟨0, "# b\nx\n"⟩] ∧
    (headed.run "é\n# a\n" blank).2 = some (.ok ⟨[⟨3, "# a\n"⟩], 1, 1, []⟩) ∧
    AsksOnly (· ∈ ["# b\nx\n", "# a\n"]) (headed.run "é\n# a\n" blank).1.log
      (headed.run "é\n# a\n# b\nx\n# a\n" (headed.run "é\n# a\n" blank).1).1.log := by
  have hfront : headed.splitter.sections "é\n# a\n" = [⟨3, "# a\n"⟩] := by decide +kernel
  have hback : headed.splitter.sections "# b\nx\n# a\n" = [⟨0, "# b\nx\n"⟩, ⟨6, "# a\n"⟩] := by
    decide +kernel
  have hrun : (headed.run "é\n# a\n" blank).2 = some (.ok ⟨[⟨3, "# a\n"⟩], 1, 1, []⟩) := by
    decide +kernel
  have hsound : Cache.Sound blank.cache := ⟨Cache.orderly_of_no_calls _ none, List.nodup_nil⟩
  have htext : "é\n# a\n" ++ "# b\nx\n# a\n" = "é\n# a\n# b\nx\n# a\n" := by decide
  obtain ⟨happend, hown⟩ := edits_keep_sections (p := headed) Splitter.ofPattern_heading
  obtain ⟨hsections, hafter⟩ :=
    happend "é\n# a\n" "# b\nx\n# a\n" (fun last hlast => by simpa using hlast.symm)
      (by decide +kernel)
  have hfirst : headed.run "é\n# a\n" blank = ((headed.run "é\n# a\n" blank).1, _) :=
    (Prod.mk.eta (p := headed.run "é\n# a\n" blank)).symm.trans (congrArg _ hrun)
  obtain ⟨hasks, m, called, jobs, hcourse, -⟩ := hafter blank _ _ hsound hfirst _ (.refl _)
  have hlog := (hasks m called jobs _ hcourse).2
  rw [sectionTexts, hback, htext] at hlog
  rw [htext, hfront, hback] at hsections
  refine ⟨hfront, hback, hsections,
    hown "# b\nx\n# a\n" ⟨0, "# b\nx\n"⟩ ?_, hrun, hlog⟩
  rw [hback]
  exact List.mem_cons_self

end Pipeline

end NearNotes
