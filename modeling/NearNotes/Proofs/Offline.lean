import Mathlib
import NearNotes.Config.File
import NearNotes.Proofs.Digest
import NearNotes.Proofs.Population.Dimension
import NearNotes.Proofs.Population.Own
import NearNotes.Proofs.Population.Shared
import NearNotes.Proofs.Provider.Layers

/-!
# A pipeline that cannot fail

Where the provider never fails and gives vectors of one length, which the cache accepts, every run
gives a report and every ranking a list, as long as the database takes the rows. Digests are such
vectors.

* `Cache.Stocked` : all rows can be read as vectors of one length, which the cache accepts;
  `Since.stocked` : so they can when new ones have come;
* `Pipeline.populate_of_stocked` : populating from such a cache succeeds and leaves such a cache;
* `Pipeline.Request`, `Pipeline.serve`, `Pipeline.Fulfills` : runs and rankings, one after the other;
  `serve_of_stocked`, `serveAll_of_stocked` : one request, and all of them;
* `Config.pipeline_of_hash` : the pipeline that settings with digests ask for;
* `Config.offline_never_fails` : from the settings on.
-/

namespace NearNotes

open Cache

/-! ## Caches -/

namespace Cache

/-- No call is in progress, every row can be read as a vector of a length, and the cache accepts such
vectors. -/
structure Stocked (length : Nat) (c : Cache) : Prop where
  rest : c.AtRest
  entries : ∃ entries, c.contents = .ok entries ∧ ∀ e ∈ entries, e.embedding.length = length
  accepts : ∀ v, v.length = length → c.requireLength v = .ok ()

variable {length : Nat} {c start : Cache} {text : String} {v : Embedding}

theorem Stocked.length_of_read (h : c.Stocked length) (hread : c.read text = .ok (some v)) :
    v.length = length := by
  obtain ⟨entries, hentries, hlength⟩ := h.entries
  rw [(h.rest.represents hentries).stores.read (searchable_of_read hread).size] at hread
  obtain ⟨e, he, rfl⟩ := Option.map_eq_some_iff.mp (Except.ok.inj hread)
  exact hlength e (List.mem_of_find?_eq_some he)

theorem Since.stocked {f : String → Embedding} {texts : List String}
    (h : Since start (fun text => .ok (f text)) texts c) (hstart : start.Stocked length)
    (hlengths : ∀ text, (f text).length = length) (hidle : Idle c)
    (hgrows : start.database.Grows c.database)
    (hstored : ∀ text ∈ texts, ∃ v, c.read text = .ok (some v)) : c.Stocked length := by
  obtain ⟨entries, hentries, hlength⟩ := hstart.entries
  obtain ⟨new, added, -, -, -, hrows⟩ := h.holds hstart.rest hentries hstored
  have htable := hgrows.table (hstart.rest.represents hentries).stores.table
  refine ⟨⟨hidle, hgrows.distinct hstart.rest.distinct, h.blocked.trans hstart.rest.takes⟩,
    ⟨_, Stores.contents_of_rows htable hrows, fun e he => ?_⟩, fun v hv => ?_⟩
  · rcases List.mem_append.mp he with hold | hnew
    · exact hlength e hold
    · obtain ⟨text, -, rfl⟩ := List.mem_map.mp hnew
      exact hlengths text
  · rw [h.requireLength]
    exact hstart.accepts v hv

end Cache

/-! ## Pipelines -/

/-- No call is in progress when all vectors were handed over. -/
theorem Window.Underway.idle {start s : Session} {g : String → Answer} {w : Window}
    (h : w.Underway start g s) (hend : w.next = w.texts.length) : Idle s.cache := by
  refine h.crew.orderly.idle (List.eq_nil_iff_forall_not_mem.mpr fun call hcall => ?_)
  obtain ⟨a, ha, -⟩ := h.owned call hcall
  rw [h.active_nil hend] at ha
  cases ha

namespace Pipeline

inductive Request
  | run (document : String)
  | ranking (document : String) (offset k : Nat)

def Request.document : Request → String
  | .run document => document
  | .ranking document _ _ => document

/-- The texts of all sections that are asked about. -/
def textsAsked (p : Pipeline) (requests : List Request) : List String :=
  requests.flatMap fun request => p.sectionTexts request.document

def serve (p : Pipeline) (s : Session) : Request → Session
  | .run document => (p.run document s).1
  | .ranking document offset k => (p.ranking document offset k s).1

def serveAll (p : Pipeline) (s : Session) (requests : List Request) : Session :=
  requests.foldl p.serve s

/-- A run gives a report, and a ranking gives a list unless no section contains the byte. -/
def Fulfills (p : Pipeline) (s : Session) : Request → Prop
  | .run document => ∃ report, (p.run document s).2 = some (.ok report)
  | .ranking document offset k =>
    if (p.splitter.sections document).any (·.contains offset) then
      ∃ ranked, (p.ranking document offset k s).2 = some (.ok ranked)
    else (p.ranking document offset k s).2 = some (.error (.noSection offset))

variable {p : Pipeline} {f : String → Embedding} {length : Nat} {document : String} {s : Session}

/-- Populating hands a vector over for each section, where no row is too big and there is a number
for each that is missing. Room for further texts is left. -/
theorem populate_of_stocked (hcomputes : p.provider.Computes fun text => .ok (f text))
    (hlengths : ∀ text, (f text).length = length) (hcache : s.cache.Stocked length)
    (hfits : ∀ text ∈ p.sectionTexts document, FitsRow text (f text))
    (hroom : s.cache.Room (p.sectionTexts document)) :
    (p.populate document s).1.cache.Stocked length ∧
      (∀ others, p.sectionTexts document ⊆ others → s.cache.Room others →
        (p.populate document s).1.cache.Room others) ∧
      ∃ vectors computed, (p.populate document s).2 = some (.ok (vectors, computed)) ∧
        vectors.length = (p.splitter.sections document).length ∧
        ∀ v ∈ vectors, v.length = length := by
  obtain ⟨entries, hentries, -⟩ := hcache.entries
  rcases @populate_cases p (fun text => .ok (f text)) document s hcomputes hcache.rest.idle with
    ⟨w', htexts, hunderway, hstored, hend, hresult⟩ |
    ⟨_, _, _, w', e, _, _, _, _, htexts, hfailed, _, hfailure, hresult⟩
  · have honward : s.cache.Onward (p.populate document s).1.cache :=
      Window.onward_populate rfl rfl rfl hcache.rest.idle.orderly.idBound
    have hafter := hunderway.crew.since.stocked hcache hlengths (hunderway.idle hend)
      honward.grows fun text htext => hstored.read_of_mem_take (by rwa [hend, List.take_length])
    refine ⟨hafter, fun others hsub => hunderway.crew.since.room (htexts ▸ hsub), w'.handedOver,
      w'.computed, hresult, ?_, fun v hv => ?_⟩
    · exact hend.trans (by rw [htexts, sectionTexts, List.length_map])
    · obtain ⟨position, hposition⟩ := List.mem_iff_getElem?.mp hv
      exact hafter.length_of_read (hstored.handedOver position v hposition)
  · obtain ⟨text, after, hsplit, hanswer, -⟩ := hfailed.split hfailure
    rw [htexts] at hanswer hsplit
    have htext : text ∈ p.sectionTexts document := by
      rw [hsplit]
      simp
    have hok := answerFor_isOk hcache.rest hentries (hfits text htext).text_le
      (hcache.accepts _ (hlengths text)) fun hread =>
        ⟨hfits text htext, Nat.ne_of_gt (hroom.idsLeft_pos htext hread)⟩
    rw [← hanswer.eq_of_room hroom] at hok
    cases hok

theorem serve_of_stocked (hcomputes : p.provider.Computes fun text => .ok (f text))
    (hlengths : ∀ text, (f text).length = length) (hcache : s.cache.Stocked length)
    (request : Request) (hfits : ∀ text ∈ p.sectionTexts request.document, FitsRow text (f text))
    (hroom : s.cache.Room (p.sectionTexts request.document)) :
    p.Fulfills s request ∧ (p.serve s request).cache.Stocked length ∧
      ∀ others, p.sectionTexts request.document ⊆ others → s.cache.Room others →
        (p.serve s request).cache.Room others := by
  cases request with
  | run document =>
      obtain ⟨hafter, hleft, vectors, computed, hpopulated, -, -⟩ :=
        @populate_of_stocked p f length document s hcomputes hlengths hcache hfits hroom
      obtain ⟨entries, hentries, hlength⟩ := hafter.entries
      obtain ⟨report, hreport, -⟩ :=
        p.report_of_uniform hentries hlength (p.splitter.sections document) computed
      have hrun : p.run document s = ((p.populate document s).1,
          (p.runJob document).outcome (p.populate document s).1.cache (p.populate document s).2) :=
        p.run_eq document s
      simp only [Fulfills, serve, hrun, hpopulated]
      refine ⟨⟨report, ?_⟩, hafter, hleft⟩
      show some ((p.report (p.splitter.sections document) computed _).mapError RunError.embedding) = _
      rw [hreport]
      rfl
  | ranking document offset k =>
      obtain ⟨hafter, hleft, vectors, computed, hpopulated, hall, hlength⟩ :=
        @populate_of_stocked p f length document s hcomputes hlengths hcache hfits hroom
      refine ⟨?_, ?_⟩
      · rw [Fulfills, ranking_eq]
        cases hchosen : sectionAt? (p.splitter.sections document) offset with
        | none =>
            rw [if_neg (by simp [sectionAt?_eq_none_iff.mp hchosen])]
        | some chosen =>
            have hcontains : (p.splitter.sections document).any (·.contains offset) = true := by
              by_contra hnone
              rw [sectionAt?_eq_none_iff.mpr (Bool.eq_false_of_not_eq_true hnone)] at hchosen
              cases hchosen
            obtain ⟨ranked, hranked⟩ := rank_of_uniform hlength (hall.symm ▸ sectionAt?_lt hchosen)
              (p.splitter.sections document) k
            rw [if_pos hcontains, hpopulated]
            refine ⟨ranked, ?_⟩
            show some ((rank (p.splitter.sections document) vectors chosen k).mapError
              RunError.embedding) = _
            rw [hranked]
            rfl
      · rcases session_ranking p document offset k s with hstay | hpopulate
        · rw [serve, hstay]
          exact ⟨hcache, fun _ _ hroom => hroom⟩
        · rw [serve, hpopulate]
          exact ⟨hafter, hleft⟩

theorem serveAll_of_stocked (hcomputes : p.provider.Computes fun text => .ok (f text))
    (hlengths : ∀ text, (f text).length = length) (hcache : s.cache.Stocked length)
    {requests : List Request} (hfits : ∀ text ∈ p.textsAsked requests, FitsRow text (f text))
    (hroom : s.cache.Room (p.textsAsked requests)) :
    (p.serveAll s requests).cache.Stocked length ∧
      ∀ earlier request, earlier ++ [request] <+: requests →
        p.Fulfills (p.serveAll s earlier) request := by
  induction requests generalizing s with
  | nil => exact ⟨hcache, fun earlier request hprefix => by simp at hprefix⟩
  | cons first rest ih =>
      rw [textsAsked, List.flatMap_cons] at hfits hroom
      have hfirst := List.subset_append_left (p.sectionTexts first.document) (p.textsAsked rest)
      obtain ⟨hfulfilled, hafter, hleft⟩ := serve_of_stocked hcomputes hlengths hcache first
        (fun text htext => hfits text (List.mem_append_left _ htext)) (hroom.mono hfirst)
      obtain ⟨hend, hall⟩ := ih hafter (fun text htext => hfits text (List.mem_append_right _ htext))
        ((hleft _ hfirst hroom).mono (List.subset_append_right _ _))
      refine ⟨hend, fun earlier request hprefix => ?_⟩
      cases earlier with
      | nil =>
          obtain ⟨rfl, -⟩ := List.cons_prefix_cons.mp hprefix
          exact hfulfilled
      | cons before between =>
          rw [List.cons_append] at hprefix
          obtain ⟨rfl, hrest⟩ := List.cons_prefix_cons.mp hprefix
          exact hall between request hrest

end Pipeline

/-! ## Settings -/

namespace Cache

/-- A cache that was just opened on a database without rows, and may enforce the length. -/
theorem stocked_of_openOn {db : Database} {opened : Cache} (h : openOn db = .ok opened)
    (hrows : opened.database.rows = []) (htakes : opened.database.blocked = false)
    {dimension : Option Nat} {length : Nat} (hdimension : ∀ d, dimension = some d → d = length) :
    (dimension.elim opened opened.enforcing).Stocked length := by
  obtain ⟨db', hprepare, heq⟩ := bind_eq_ok_iff.mp h
  cases heq
  have htable := (Database.rows_of_prepare hprepare).1
  have hcontents : ∀ c : Cache, c.database = db' → c.contents = .ok [] := by
    intro c hc
    refine Stores.contents_of_rows (hc ▸ htable) ?_
    rw [hc, show db'.rows = [] from hrows]
    exact .nil
  have hdistinct : (db'.rows.map Row.key).Nodup := by
    rw [show db'.rows = [] from hrows]
    exact List.nodup_nil
  cases dimension with
  | none =>
      exact ⟨⟨⟨rfl, rfl, rfl, rfl⟩, hdistinct, htakes⟩, ⟨[], hcontents _ rfl, by simp⟩,
        fun _ _ => rfl⟩
  | some d =>
      refine ⟨⟨⟨rfl, rfl, rfl, rfl⟩, hdistinct, htakes⟩, ⟨[], hcontents _ rfl, by simp⟩,
        fun v hv => ?_⟩
      have hlength : d = v.length := (hdimension d rfl).trans hv.symm
      simp [requireLength, enforcing, hlength]

end Cache

theorem Disk.openOn_of_openCache {disk disk' : Disk} {path : String} {place : Option DiskPlace}
    {opened : Cache} (h : disk.openCache path = (disk', .ok (place, opened))) :
    ∃ db, Cache.openOn db = .ok opened := by
  unfold openCache at h
  split at h
  · cases h
  · simp only at h
    split at h
    · cases h
    · rename_i cache hcache
      obtain ⟨db, -, hopen⟩ := bind_eq_ok_iff.mp hcache
      cases h
      exact ⟨db, hopen⟩

theorem Splitter.headingPattern_isOk :
    ∃ splitter, Splitter.ofPattern Splitter.headingPattern = .ok splitter := by
  have hparse : (Pattern.parse headingPattern).isOk = true := by decide +kernel
  unfold ofPattern
  cases hpattern : Pattern.parse headingPattern with
  | ok ast => exact ⟨_, rfl⟩
  | error fault =>
      rw [hpattern] at hparse
      cases hparse

namespace Config

variable {c : Config}

/-- The length of the vectors that digests have under the settings. -/
def digestLength (c : Config) : Nat := c.dimension.getD c.provider.hashDimension

/-- Settings that are not refused ask for a pipeline if they ask for digests. -/
theorem pipeline_of_hash (hvalid : c.validate = .ok ()) (hkind : c.provider.kind = .hash)
    (env : Environment) (network : Network) :
    ∃ p, c.pipeline env network = .ok p ∧
      p.provider = .resilient (.source (hashSource c.digestLength)) c.provider.retryPlan := by
  have hpositive : 1 ≤ c.query.neighbors ∧ 1 ≤ c.concurrency := by
    unfold validate at hvalid
    split at hvalid
    · cases hvalid
    · split at hvalid
      · cases hvalid
      · omega
  obtain ⟨splitter, hsplitter⟩ := Splitter.headingPattern_isOk
  have hbuild : c.provider.build env network c.dimension =
      .ok (.resilient (.source (hashSource c.digestLength)) c.provider.retryPlan) := by
    rw [ProviderSettings.build, hkind, digestLength]
  unfold pipeline
  rw [hbuild]
  simp only [bind, Except.bind, Blueprint.build, hpositive, and_self, dif_pos, Option.elim_none,
    hsplitter]
  exact ⟨_, rfl, rfl⟩

/-- **The pipeline cannot fail offline.** Let settings ask for digests and not be refused, whatever
else they say, and let the database be opened and have no rows yet. Then the pipeline is made. Whatever
is asked of it, in whatever order and about whatever notes, every run gives a report, and every ranking
gives a list unless no section contains the byte, as long as no section's row is too big and there is
a number for each text. The rows are vectors of the length that is enforced or else of that set for
digests. -/
theorem offline_never_fails (hvalid : c.validate = .ok ()) (hkind : c.provider.kind = .hash)
    {disk disk' : Disk} {place : Option DiskPlace} {cache : Cache}
    (hopen : disk.openCache c.databasePath = (disk', .ok (place, cache)))
    (hrows : cache.database.rows = []) (htakes : cache.database.blocked = false)
    (env : Environment) (network : Network) :
    ∃ opened, c.openWith env network disk = (disk', .ok opened) ∧
      ∀ (now : Moment) (log : List CallRecord) (requests : List Pipeline.Request),
        (∀ text ∈ opened.pipeline.textsAsked requests,
          FitsRow text (hashEmbedding c.digestLength text)) →
        cache.Room (opened.pipeline.textsAsked requests) →
        let start : Session := ⟨now, opened.cache, log⟩
        (∀ earlier request, earlier ++ [request] <+: requests →
          opened.pipeline.Fulfills (opened.pipeline.serveAll start earlier) request) ∧
        ∃ entries, (opened.pipeline.serveAll start requests).cache.contents = .ok entries ∧
          ∀ e ∈ entries, e.embedding.length = c.digestLength := by
  obtain ⟨p, hpipeline, hprovider⟩ := c.pipeline_of_hash hvalid hkind env network
  obtain ⟨db, hdb⟩ := Disk.openOn_of_openCache hopen
  have hcomputes : p.provider.Computes fun text => .ok (hashEmbedding c.digestLength text) := by
    rw [hprovider]
    exact Provider.computes_of_prompt (prompt_hashSource _) rfl
  have hcache : (c.dimension.elim cache cache.enforcing).Stocked c.digestLength :=
    stocked_of_openOn hdb hrows htakes fun d hd => by rw [digestLength, hd, Option.getD_some]
  have hsame : ∀ texts, cache.Room texts → (c.dimension.elim cache cache.enforcing).Room texts := by
    cases c.dimension with
    | none => exact fun _ hroom => hroom
    | some d => exact fun _ hroom => hroom
  refine ⟨⟨place, c.dimension.elim cache cache.enforcing, p⟩, ?_,
    fun now log requests hfits hroom => ?_⟩
  · rw [openWith, hvalid, hopen]
    simp only [hpipeline]
    rfl
  · obtain ⟨hafter, hall⟩ := Pipeline.serveAll_of_stocked (s := ⟨now, _, log⟩) hcomputes
      (length_hashEmbedding _) hcache hfits (hsame _ hroom)
    exact ⟨hall, hafter.entries⟩

/-- No time for an attempt and no second one, more sections at once than there are, one neighbour only,
which counts as the text itself at no distance, and vectors without elements. -/
def spare : Config where
  databasePath := ":memory:"
  provider := { kind := .hash, hashDimension := 0, timeoutSecs := 0, maxRetries := 0 }
  concurrency := 7
  query := { neighbors := 1, selfMatch := .zeroDistance }

/-- Two sections with one text, then a ranking that keeps no section, then another run. -/
theorem offline_never_fails_spare :
    spare.validate = .ok () ∧ spare.provider.kind = .hash ∧ spare.digestLength = 0 ∧
    ({} : Disk).openCache spare.databasePath =
      ({}, .ok (none, { database := { table := some {} } })) ∧
    ∃ opened, spare.openWith (fun _ => none) (fun _ _ => .refused) {} = ({}, .ok opened) ∧
      opened.pipeline.textsAsked [.run "# A\n# A\n", .ranking "# A\n# B\n" 4 0, .run "# C\n"] =
        ["# A\n", "# A\n", "# A\n", "# B\n", "# C\n"] ∧
      let s := opened.pipeline.serveAll { cache := opened.cache }
        [.run "# A\n# A\n", .ranking "# A\n# B\n" 4 0]
      (∃ report, (opened.pipeline.run "# C\n" s).2 = some (.ok report)) ∧
      ∃ entries, (opened.pipeline.run "# C\n" s).1.cache.contents = .ok entries ∧
        ∀ e ∈ entries, e.embedding = [] := by
  have hopen : ({} : Disk).openCache spare.databasePath =
      ({}, .ok (none, { database := { table := some {} } })) := rfl
  obtain ⟨opened, hopened, hserves⟩ := offline_never_fails (c := spare) rfl rfl hopen rfl rfl
    (fun _ => none) fun _ _ => .refused
  have htexts : opened.pipeline.textsAsked
      [.run "# A\n# A\n", .ranking "# A\n# B\n" 4 0, .run "# C\n"] =
        ["# A\n", "# A\n", "# A\n", "# B\n", "# C\n"] := by
    have hasked : (spare.openWith (fun _ => none) (fun _ _ => .refused) {}).2.toOption.map
        (·.pipeline.textsAsked [.run "# A\n# A\n", .ranking "# A\n# B\n" 4 0, .run "# C\n"]) =
          some ["# A\n", "# A\n", "# A\n", "# B\n", "# C\n"] := by decide +kernel
    rw [hopened] at hasked
    exact Option.some.inj hasked
  obtain ⟨hfulfills, entries, hentries, hlength⟩ := hserves 0 []
    [.run "# A\n# A\n", .ranking "# A\n# B\n" 4 0, .run "# C\n"] (by rw [htexts]; decide)
    (by rw [htexts]; decide)
  exact ⟨rfl, rfl, rfl, hopen, opened, hopened, htexts, hfulfills _ (.run "# C\n") (List.prefix_refl _),
    entries, hentries, fun e he => List.eq_nil_of_length_eq_zero (hlength e he)⟩

end Config

end NearNotes
