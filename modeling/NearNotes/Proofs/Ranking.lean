import Mathlib
import NearNotes.Proofs.Neighbors
import NearNotes.Proofs.Population.Dimension

/-!
# The ranking of a note's sections

The section that contains a byte is left out by its position, after all sections were ranked and
before the first ones are taken.

* `Section.Apart`, `Pipeline.sectionAt?_of_contains` : of sections that are apart only one contains a
  byte, and it is the chosen one;
* `Window.length_of_populate` : populating hands over one vector for each text;
* `Pipeline.othersBy`, `Pipeline.OrdersOthers` : the other positions in their order from a chosen one;
* `Pipeline.rank_eq`, `Pipeline.Places` : a ranking takes the first of them and names their sections;
* `Pipeline.ranking_orders_others` : the ranking of a note.
-/

namespace NearNotes

/-! ## The chosen section -/

def Section.Apart (a b : Section) : Prop := a.endOffset ≤ b.startOffset ∨ b.endOffset ≤ a.startOffset

instance (a b : Section) : Decidable (a.Apart b) := inferInstanceAs (Decidable (_ ∨ _))

theorem Section.not_apart_of_contains {a b : Section} {offset : Nat} (ha : a.contains offset = true)
    (hb : b.contains offset = true) : ¬ a.Apart b := by
  simp only [contains, Bool.and_eq_true, decide_eq_true_eq] at ha hb
  unfold Apart
  omega

namespace Pipeline

section Chosen

variable {sections : List Section} {offset chosen : Nat} {part : Section}

theorem contains_of_sectionAt? (h : sectionAt? sections offset = some chosen) :
    ∃ part, sections[chosen]? = some part ∧ part.contains offset = true := by
  obtain ⟨found, hfound, rfl⟩ := Option.map_eq_some_iff.mp h
  have hmem := List.mem_reverse.mp (List.mem_of_find?_eq_some hfound)
  have hcontains := List.find?_some hfound
  exact ⟨found.1, List.mem_zipIdx_iff_getElem?.mp hmem, hcontains⟩

/-- The section that contains a byte is chosen, whichever end the search starts from. -/
theorem sectionAt?_of_contains (hapart : sections.Pairwise Section.Apart)
    (hpart : sections[chosen]? = some part) (hcontains : part.contains offset = true) :
    sectionAt? sections offset = some chosen := by
  have hany : sectionAt? sections offset ≠ none := by
    rw [Ne, sectionAt?_eq_none_iff, Bool.not_eq_false, List.any_eq_true]
    exact ⟨part, List.mem_of_getElem? hpart, hcontains⟩
  obtain ⟨i, hi⟩ := Option.ne_none_iff_exists'.mp hany
  obtain ⟨other, hother, hboth⟩ := contains_of_sectionAt? hi
  have hsame : i = chosen := by
    obtain ⟨hi, rfl⟩ := List.getElem?_eq_some_iff.mp hother
    obtain ⟨hchosen, rfl⟩ := List.getElem?_eq_some_iff.mp hpart
    rcases Nat.lt_trichotomy i chosen with hlt | heq | hlt
    · exact absurd (List.pairwise_iff_getElem.mp hapart i chosen hi hchosen hlt)
        (Section.not_apart_of_contains hboth hcontains)
    · exact heq
    · exact absurd (List.pairwise_iff_getElem.mp hapart chosen i hchosen hi hlt)
        (Section.not_apart_of_contains hcontains hboth)
  rw [hi, hsame]

end Chosen

end Pipeline

theorem Window.length_of_populate {w : Window} {s s' : Session} {found : List Embedding × Nat}
    (h : w.populate s = (s', some (.ok found))) : found.1.length = w.texts.length := by
  obtain ⟨m, w', hpath, hresult⟩ := w.populate_path s
  rw [h] at hresult
  obtain hresult | hresult := hresult
  · cases hresult
  unfold Job.resultOf at hresult
  split at hresult
  · cases hresult
  · rename_i hfailure
    split at hresult
    · rename_i hover
      cases hresult
      have hall : w'.next = w'.texts.length := by simpa [isOver, hfailure] using hover
      rw [← hpath.keeps.1]
      exact hall
    · cases hresult

/-! ## The other positions -/

namespace Pipeline

/-- All vectors but the chosen one in their order from it, with their distances. -/
def othersBy (corpus : Corpus) (query : Embedding) (chosen : Nat) : List Scored :=
  (corpus.ranked query).filter (·.id != chosen)

/-- The positions are all but the chosen one, and each comes before those after it: it is nearer to the
chosen one, or at one distance and earlier in the note. -/
structure OrdersOthers (vectors : List Embedding) (chosen : Nat) (order : List Nat) : Prop where
  others : ∀ i, i ∈ order ↔ i < vectors.length ∧ i ≠ chosen
  ordered : order.Pairwise (Precedes vectors chosen)

section Order

variable {corpus : Corpus} {query : Embedding} {chosen : Nat}

theorem mem_othersBy {hit : Scored} : hit ∈ othersBy corpus query chosen ↔
    (∃ v, corpus.vectors[hit.id]? = some v ∧ hit.distance = sumSquares query v) ∧
      hit.id ≠ chosen := by
  rw [othersBy, List.mem_filter, Corpus.mem_ranked, bne_iff_ne]

theorem ordersOthers_othersBy (hquery : corpus.vectors[chosen]? = some query) :
    OrdersOthers corpus.vectors chosen ((othersBy corpus query chosen).map Scored.id) where
  others i := by
    rw [List.mem_map]
    constructor
    · rintro ⟨hit, hmem, rfl⟩
      obtain ⟨⟨v, hv, -⟩, hother⟩ := mem_othersBy.mp hmem
      exact ⟨(List.getElem?_eq_some_iff.mp hv).1, hother⟩
    · rintro ⟨hi, hother⟩
      exact ⟨⟨i, sumSquares query corpus.vectors[i]⟩,
        mem_othersBy.mpr ⟨⟨_, List.getElem?_eq_getElem hi, rfl⟩, hother⟩, rfl⟩
  ordered := by
    rw [List.pairwise_map]
    have hids : (corpus.ranked query).Pairwise fun x y => x.id ≠ y.id :=
      List.pairwise_map.mp (corpus.nodup_id_ranked query)
    have hboth := ((corpus.pairwise_ranked query).and hids).filter (·.id != chosen)
    refine hboth.imp_of_mem fun {x y} hx hy hxy => ?_
    obtain ⟨⟨v, hv, hdv⟩, -⟩ := mem_othersBy.mp hx
    obtain ⟨⟨w, hw, hdw⟩, -⟩ := mem_othersBy.mp hy
    refine ⟨query, v, w, x.distance, y.distance, hquery, hv, hw, ?_, ?_, ?_⟩
    · rw [Corpus.squaredL2_of_getElem? hquery hv, hdv]
    · rw [Corpus.squaredL2_of_getElem? hquery hw, hdw]
    · have hbefore := Scored.before_iff.mp hxy.1
      exact hbefore.imp_right fun h => ⟨h.1, lt_of_le_of_ne h.2 hxy.2⟩

theorem length_othersBy (hchosen : chosen < corpus.size) :
    (othersBy corpus query chosen).length = corpus.size - 1 := by
  have hids : ((corpus.ranked query).map Scored.id).Perm (List.range' 0 corpus.size) :=
    map_id_scores query 0 corpus.vectors ▸ (corpus.ranked_perm query).map Scored.id
  have hmem : chosen ∈ List.range' 0 corpus.size := by simpa using hchosen
  calc (othersBy corpus query chosen).length
      = (((corpus.ranked query).map Scored.id).filter (· != chosen)).length := by
        rw [List.filter_map, List.length_map]
        rfl
    _ = ((List.range' 0 corpus.size).filter (· != chosen)).length :=
        (hids.filter _).length_eq
    _ = ((List.range' 0 corpus.size).erase chosen).length := by
        rw [List.Nodup.erase_eq_filter List.nodup_range']
    _ = corpus.size - 1 := by
        rw [List.length_erase_of_mem hmem, List.length_range']

end Order

/-! ## Rankings -/

/-- An entry of a ranking is the section at a position, with its distance from the chosen one. -/
structure Places (sections : List Section) (vectors : List Embedding) (chosen i : Nat)
    (r : RankedSection) : Prop where
  part : sections[i]? = some r.part
  distance : ∃ v w, vectors[chosen]? = some v ∧ vectors[i]? = some w ∧ squaredL2 v w = .ok r.distance

section Rank

variable {sections : List Section} {vectors : List Embedding} {corpus : Corpus} {query : Embedding}
  {chosen : Nat}

def sectionsOf (sections : List Section) (hits : List Scored) : List RankedSection :=
  hits.filterMap fun hit => (sections[hit.id]?).map (⟨hit.distance, ·⟩)

theorem rank_eq (hcorpus : Corpus.ofList vectors = .ok corpus)
    (hquery : vectors[chosen]? = some query) (sections : List Section) (k : Nat) :
    rank sections vectors chosen k =
      .ok (sectionsOf sections ((othersBy corpus query chosen).take k)) := by
  obtain rfl := Corpus.vectors_of_ofList hcorpus
  have hgetD : corpus.vectors.getD chosen [] = query := by
    rw [List.getD_eq_getElem?_getD, hquery, Option.getD_some]
  have hlength : query.length = corpus.dimension :=
    corpus.uniform query (List.mem_of_getElem? hquery)
  have hall : (corpus.ranked query).take corpus.size = corpus.ranked query := by
    rw [← corpus.length_ranked query, List.take_length]
  unfold rank
  simp only [hcorpus, bind, Except.bind, hgetD, Corpus.nearest_eq hlength, hall]
  rfl

/-- Where there is a section for each vector, no hit is lost. -/
theorem places_sectionsOf (hquery : corpus.vectors[chosen]? = some query)
    (hlengths : corpus.vectors.length = sections.length) {hits : List Scored}
    (hhits : ∀ hit ∈ hits, hit ∈ othersBy corpus query chosen) :
    List.Forall₂ (Places sections corpus.vectors chosen) (hits.map Scored.id)
      (sectionsOf sections hits) := by
  induction hits with
  | nil => exact .nil
  | cons hit hits ih =>
      obtain ⟨⟨v, hv, hdistance⟩, -⟩ := mem_othersBy.mp (hhits hit List.mem_cons_self)
      have hlt : hit.id < sections.length := hlengths ▸ (List.getElem?_eq_some_iff.mp hv).1
      have hpart := List.getElem?_eq_getElem hlt
      rw [sectionsOf, List.filterMap_cons_some (by rw [hpart]; rfl), List.map_cons]
      refine .cons ⟨hpart, query, v, hquery, hv, ?_⟩
        (ih fun h hmem => hhits h (List.mem_cons_of_mem hit hmem))
      rw [Corpus.squaredL2_of_getElem? hquery hv, hdistance]

end Rank

variable {p : Pipeline} {document : String} {offset k chosen : Nat} {s s' : Session}

/-- What the ranking from a chosen section makes of what was populated. -/
theorem ranking_of_populate (hchosen : sectionAt? (p.splitter.sections document) offset = some chosen)
    {vectors : List Embedding} {computed : Nat}
    (hpopulate : p.populate document s = (s', some (.ok (vectors, computed))))
    {result : List RankedSection}
    (hrank : rank (p.splitter.sections document) vectors chosen k = .ok result) :
    p.ranking document offset k s = (s', some (.ok result)) := by
  have hsecond := ranking_eq p document offset k s
  simp only [hchosen, hpopulate, Option.map_some, Except.bind, hrank] at hsecond
  refine Prod.ext ?_ hsecond
  have hpopulate : (p.window (p.splitter.sections document)).populate s =
    (s', some (.ok (vectors, computed))) := hpopulate
  simp only [ranking, hchosen, Job.finish_eq_populate, hpopulate]

/-- **A ranking orders the other sections.** If no section contains the byte, a ranking fails with this
offset and leaves the session as it is. Let the sections be apart, one of them contain the byte, and all
of them be given vectors of one length. Then there is a vector for each section, the other positions
have one order by their distance from the chosen one, and every ranking names the first of them, with
their sections and distances; so that one with more entries begins with one with fewer. -/
theorem ranking_orders_others (p : Pipeline) (document : String) (offset : Nat) (s : Session) :
    let sections := p.splitter.sections document
    ((∀ part ∈ sections, part.contains offset = false) → ∀ k,
      p.ranking document offset k s = (s, some (.error (.noSection offset)))) ∧
    ∀ (chosen : Nat) part, sections.Pairwise Section.Apart → sections[chosen]? = some part →
      part.contains offset = true → ∀ s' vectors computed length,
      p.populate document s = (s', some (.ok (vectors, computed))) →
      (∀ v ∈ vectors, v.length = length) →
      vectors.length = sections.length ∧
      ∃ order, OrdersOthers vectors chosen order ∧ order.length = sections.length - 1 ∧
      ∃ result : Nat → List RankedSection,
        (∀ k, p.ranking document offset k s = (s', some (.ok (result k))) ∧
          (result k).length = min k (sections.length - 1) ∧
          List.Forall₂ (Places sections vectors chosen) (order.take k) (result k)) ∧
        ∀ k k', k ≤ k' → result k <+: result k' := by
  intro sections
  refine ⟨fun hnone k => ?_, ?_⟩
  · have hchosen : sectionAt? sections offset = none := by
      rw [sectionAt?_eq_none_iff, List.any_eq_false]
      exact fun part hpart => by rw [hnone part hpart]; exact Bool.false_ne_true
    rw [ranking, hchosen]
  intro chosen part hapart hpart hcontains s' vectors computed length hpopulate huniform
  have hlengths : vectors.length = sections.length := by
    rw [Window.length_of_populate hpopulate]
    exact List.length_map _
  obtain ⟨corpus, hcorpus⟩ := Corpus.ofList_of_uniform huniform
  obtain rfl := Corpus.vectors_of_ofList hcorpus
  have hlt : chosen < corpus.vectors.length := hlengths ▸ (List.getElem?_eq_some_iff.mp hpart).1
  have hquery := List.getElem?_eq_getElem hlt
  have hothers : (othersBy corpus corpus.vectors[chosen] chosen).length = sections.length - 1 :=
    hlengths ▸ length_othersBy hlt
  refine ⟨hlengths, _, ordersOthers_othersBy hquery, by rw [List.length_map, hothers],
    fun k => sectionsOf sections ((othersBy corpus corpus.vectors[chosen] chosen).take k),
    fun k => ?_, fun k k' hk => ?_⟩
  · have hplaces : List.Forall₂ (Places sections corpus.vectors chosen)
        (((othersBy corpus corpus.vectors[chosen] chosen).take k).map Scored.id)
        (sectionsOf sections ((othersBy corpus corpus.vectors[chosen] chosen).take k)) :=
      places_sectionsOf hquery hlengths fun _ hmem => List.mem_of_mem_take hmem
    refine ⟨ranking_of_populate (sectionAt?_of_contains hapart hpart hcontains) hpopulate
      (rank_eq hcorpus hquery sections k), ?_, by rw [← List.map_take]; exact hplaces⟩
    rw [← hplaces.length_eq, List.length_map, List.length_take, hothers]
  · exact (List.take_prefix_take_left hk).filterMap _

/-- Notes are cut into letters, three of which are fetched at once. One letter's vector is no number. -/
def lettered : Pipeline :=
  { letters with
    provider := .source {
      name := "lettered"
      model := "lettered"
      dimension := 1
      reply := fun earlier text =>
        { delay := .ofMillis earlier
          outcome := .ok [if text = "a" then ⟨0x3FF0000000000000⟩
            else if text = "b" then ⟨0x4008000000000000⟩ else ⟨0x7FF8000000000000⟩] } }
    concurrency := 3
    concurrency_pos := Nat.succ_pos 2 }

def noRows : Session where
  cache := { database := { table := some {} } }

def sharedVectors : List Embedding :=
  [[⟨0x3FF0000000000000⟩], [⟨0x4008000000000000⟩], [⟨0x7FF8000000000000⟩], [⟨0x3FF0000000000000⟩],
    [⟨0x4008000000000000⟩]]

/-- The second `a` is chosen. The first one, whose row it shares, is named at distance zero, the two `b`
come in the order of the note, and the `c` would come last. -/
theorem ranking_orders_others_shared :
    (lettered.splitter.sections "abcab").Pairwise Section.Apart ∧
    (lettered.splitter.sections "abcab")[3]? = some ⟨3, "a"⟩ ∧
    (lettered.populate "abcab" noRows).2 = some (.ok (sharedVectors, 3)) ∧
    (∀ v ∈ sharedVectors, v.length = 1) ∧
    (lettered.ranking "abcab" 5 3 noRows).2 = some (.error (.noSection 5)) ∧
    ∃ order, OrdersOthers sharedVectors 3 order ∧ order.length = 4 ∧
      ∃ result, (lettered.ranking "abcab" 3 3 noRows).2 = some (.ok result) ∧
        List.Forall₂ (Places (lettered.splitter.sections "abcab") sharedVectors 3) (order.take 3)
          result := by
  have hsections : lettered.splitter.sections "abcab" =
      [⟨0, "a"⟩, ⟨1, "b"⟩, ⟨2, "c"⟩, ⟨3, "a"⟩, ⟨4, "b"⟩] := by decide
  have hapart : (lettered.splitter.sections "abcab").Pairwise Section.Apart := by
    rw [hsections]
    decide
  have hpart : (lettered.splitter.sections "abcab")[3]? = some ⟨3, "a"⟩ := by rw [hsections]; rfl
  have hpopulate : (lettered.populate "abcab" noRows).2 = some (.ok (sharedVectors, 3)) := by
    decide +kernel
  have hlength : ∀ v ∈ sharedVectors, v.length = 1 := by decide
  have hnone : ∀ part ∈ lettered.splitter.sections "abcab", part.contains 5 = false := by
    rw [hsections]
    decide
  obtain ⟨-, order, horder, hcount, result, hresult, -⟩ :=
    (ranking_orders_others lettered "abcab" 3 noRows).2 3 ⟨3, "a"⟩ hapart hpart (by decide)
      (lettered.populate "abcab" noRows).1 sharedVectors 3 1 (Prod.ext rfl hpopulate) hlength
  obtain ⟨hranking, -, hplaces⟩ := hresult 3
  rw [hsections] at hcount
  refine ⟨hapart, hpart, hpopulate, hlength, ?_, order, horder, hcount, result 3,
    by rw [hranking], hplaces⟩
  rw [(ranking_orders_others lettered "abcab" 5 noRows).1 hnone]

end Pipeline

end NearNotes
