import NearNotes.Pipeline.Basic
import NearNotes.Remote.Basic

/-!
# Settings

What can be set about the program, what holds when it is not set, and what is refused.

* `Config`: all settings; `Config.default` for a data directory;
* `Config.validate`: neighbours first, then sections at once, then the length of vectors;
* `ProviderSettings.retryPlan`, `ProviderSettings.build`: the provider that is asked for. A
  remote one needs a key in the environment.
-/

namespace NearNotes

inductive SourceKind
  | remote
  | hash
deriving DecidableEq, Repr

structure ProviderSettings where
  kind : SourceKind := .remote
  model : Option String := none
  baseUrl : Option String := none
  /-- The variable that holds the key. -/
  keyVariable : String := "OPENAI_API_KEY"
  /-- The length of digests where no other length is set. -/
  hashDimension : Nat := 256
  timeoutSecs : Nat := 30
  maxRetries : Nat := 3
  initialBackoffMs : Nat := 500
  maxBackoffMs : Nat := 30000
deriving DecidableEq, Repr

structure Config where
  databasePath : String
  /-- The length that every vector must have. -/
  dimension : Option Nat := none
  provider : ProviderSettings := {}
  /-- Sections fetched at once. -/
  concurrency : Nat := 1
  query : QuerySettings := {}
deriving DecidableEq, Repr

abbrev Environment := String → Option String

namespace ProviderSettings

def retryPlan (p : ProviderSettings) : RetryPlan where
  timeout := .ofSecs p.timeoutSecs
  maxRetries := p.maxRetries
  firstPause := .ofMillis p.initialBackoffMs
  longestPause := .ofMillis p.maxBackoffMs

def remote (p : ProviderSettings) (env : Environment) (dimension : Option Nat) : Remote :=
  let standard : Remote := { key := env p.keyVariable }
  { standard with
    model := p.model.getD standard.model
    baseUrl := p.baseUrl.getD standard.baseUrl
    dimensions := dimension }

/-- The provider that is asked for: a source with a layer that limits and repeats calls. -/
def build (p : ProviderSettings) (env : Environment) (network : Network)
    (dimension : Option Nat) : Except RunError Provider :=
  match p.kind with
  | .hash => .ok (.resilient (.source (hashSource (dimension.getD p.hashDimension))) p.retryPlan)
  | .remote =>
    let remote := p.remote env dimension
    if remote.key.isSome then .ok (.resilient (.source (remote.source network)) p.retryPlan)
    else .error (.config ("OpenAI provider needs an API key in $" ++ p.keyVariable))

end ProviderSettings

namespace Config

def pathIn (directory path : String) : String :=
  if directory.isEmpty || directory.toList.getLast? == some '/' then directory ++ path
  else directory ++ "/" ++ path

def default (dataDirectory : String) : Config :=
  { databasePath := pathIn dataDirectory "notes/embeddings.db" }

def validate (c : Config) : Except RunError Unit :=
  if c.query.neighbors = 0 then .error (.config "query.neighbors must be at least 1")
  else if c.concurrency = 0 then .error (.config "populate.concurrency must be at least 1")
  else if c.dimension = some 0 then .error (.config "dimension must be positive")
  else .ok ()

end Config

end NearNotes
