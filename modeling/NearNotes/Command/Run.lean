import NearNotes.Command.Arguments
import NearNotes.Vector.Fixed

/-!
# The command line

A run of the program from its arguments to what it prints.

* `World`: what a run finds: files, variables, the network and where data are kept;
* `Outcome`: the exit code, what is printed and what is reported as an error;
* `Arguments.settings`: the settings of a run: those of a file, with what the arguments say
  instead;
* `Command.run`: a run. It stops at the first of these that fails: the arguments, the settings'
  file, the document, the settings, the cache, the provider, the search.
-/

namespace NearNotes

structure World where
  disk : Disk := {}
  env : Environment := fun _ => none
  network : Network := fun _ _ => .refused
  dataDirectory : String := ""

structure Outcome where
  code : Nat
  stdout : String := ""
  error : Option String := none
deriving DecidableEq, Repr

namespace Outcome

def ok (stdout : String) : Outcome := { code := 0, stdout }

def failed (report : String) : Outcome := { code := 1, error := some ("Error: " ++ report) }

def ofError (e : RunError) : Outcome := failed e.message

end Outcome

namespace Report

def places : Nat := 6

/-- The lines of one row: first lines only, or whole texts. -/
def rowLines (full : Bool) (row : SimilarRow) : List String :=
  let texts :=
    if full then [row.text, "~~~", row.neighborText]
    else [Text.openingLine row.text, "  ~ " ++ Text.openingLine row.neighborText]
  "-------------------" :: texts ++ ["  distance: " ++ row.nearest.distance.fixed places]

def lines (r : Report) (full : Bool) : List String := r.rows.flatMap (rowLines full)

end Report

def RankedSection.lines (full : Bool) (r : RankedSection) : List String :=
  (r.distance.fixed Report.places ++ "  " ++ r.part.title) :: if full then [r.part.text] else []

def printed (lines : List String) : String := String.join (lines.map (· ++ "\n"))

namespace Arguments

def settings (a : Arguments) (w : World) : Except RunError Config := do
  let config ← match a.config with
    | some path => Config.load w.dataDirectory w.disk path
    | none => .ok (Config.default w.dataDirectory)
  return { config with
    databasePath := a.database.getD config.databasePath
    query := { config.query with neighbors := a.neighbors.getD config.query.neighbors }
    provider := { config.provider with kind := a.provider.getD config.provider.kind } }

end Arguments

namespace Command

def version : String := "similar-notes 0.0.0"

def usage : String := "Usage: similar-notes [OPTIONS] <DOCUMENT>"

/-- The search that the arguments ask for, and what it prints. -/
def search (a : Arguments) (pipeline : Pipeline) (document : String) (s : Session) :
    Session × Option (Except RunError (List String)) :=
  match a.line with
  | some line =>
    let offset := Text.startOfLine document line
    let (s, ranked) := pipeline.ranking document offset pipeline.query.neighbors s
    (s, ranked.map (·.map (·.flatMap (RankedSection.lines a.full))))
  | none =>
    let (s, report) := pipeline.run document s
    (s, report.map (·.map (·.lines a.full)))

def outcome : Option (Except RunError (List String)) → Outcome
  | some (.ok lines) => .ok (printed lines)
  | some (.error e) => .ofError e
  | none => .failed "the search does not end"

/-- The search of a document with some settings. Whatever comes of it, the cache is kept. -/
def searchWith (a : Arguments) (config : Config) (document : String) (w : World) :
    Disk × Outcome :=
  match config.openWith w.env w.network w.disk with
  | (disk, .error e) => (disk, .ofError e)
  | (disk, .ok opened) =>
    let (s, result) := search a opened.pipeline document { cache := opened.cache }
    (disk.save opened.place s.cache.database, outcome result)

def runWith (a : Arguments) (w : World) : Disk × Outcome :=
  match a.settings w with
  | .error _ => (w.disk, .failed ("loading " ++ a.config.getD ""))
  | .ok config =>
    match w.disk.readText a.document with
    | .error _ => (w.disk, .failed ("reading " ++ a.document))
    | .ok document => searchWith a config document w

def run (args : List String) (w : World) : Disk × Outcome :=
  match Arguments.parse w.env args with
  | .error .usage => (w.disk, { code := 2 })
  | .error .version => (w.disk, .ok (version ++ "\n"))
  | .error .help => (w.disk, .ok (usage ++ "\n"))
  | .ok a => runWith a w

end Command

end NearNotes
