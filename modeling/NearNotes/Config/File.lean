import NearNotes.Config.Basic
import NearNotes.Storage.Disk
import NearNotes.Toml.Parser

/-!
# Settings from files

Settings written in the TOML notation. What is missing keeps its default, and names that mean
nothing are ignored.

* `Fields`: the fields of a group of settings, given as a table by name or as an array by place;
* `Config.ofToml`: the settings of a file's tree;
* `Config.load`, `Config.loadIfPresent`: the settings of a file, which are refused if they cannot
  work;
* `Config.openWith`: the cache and the pipeline that settings ask for.
-/

namespace NearNotes

inductive SettingFault
  | wrongKind
  | outOfRange
  | unknownName
deriving DecidableEq, Repr

def SettingFault.message : SettingFault → String
  | wrongKind => "invalid type"
  | outOfRange => "invalid value: integer out of range"
  | unknownName => "unknown variant"

abbrev Setting := Except SettingFault

abbrev Fields := (name : String) → (place : Nat) → Option Toml.Value

namespace Fields

/-- The fields of a value. A date is a group in which no field is set. -/
def ofValue : Toml.Value → Setting Fields
  | .table _ entries => .ok fun name _ => entries.lookup name
  | .array _ items => .ok fun _ place => items[place]?
  | .datetime => .ok fun _ _ => none
  | _ => .error .wrongKind

def read {α : Type} (f : Fields) (name : String) (place : Nat) (default : α)
    (reader : Toml.Value → Setting α) : Setting α :=
  match f name place with
  | some value => reader value
  | none => .ok default

def read? {α : Type} (f : Fields) (name : String) (place : Nat)
    (reader : Toml.Value → Setting α) : Setting (Option α) :=
  match f name place with
  | some value => (reader value).map some
  | none => .ok none

end Fields

def readText : Toml.Value → Setting String
  | .string s => .ok s
  | _ => .error .wrongKind

def readNat (bits : Nat) : Toml.Value → Setting Nat
  | .integer n => if 0 ≤ n ∧ n.toNat < Nat.pow 2 bits then .ok n.toNat else .error .outOfRange
  | _ => .error .wrongKind

/-- One of several names, as a text or as the only name of a table that says nothing about it. -/
def readChoice {α : Type} (choices : List (String × α)) : Toml.Value → Setting α
  | .string s => choose s
  | .table _ [(name, .table _ [])] | .table _ [(name, .array _ [])] => choose name
  | _ => .error .wrongKind
where
  /-- The choice of a name. -/
  choose (name : String) : Setting α :=
    match choices.lookup name with
    | some choice => .ok choice
    | none => .error .unknownName

def SourceKind.names : List (String × SourceKind) := [("openai", .remote), ("hash", .hash)]

/-- The names of the ways to recognise a vector itself. -/
def SelfMatch.names : List (String × SelfMatch) :=
  [("skip_same_id", .sameId), ("skip_zero_distance", .zeroDistance)]

def readProvider (value : Toml.Value) : Setting ProviderSettings := do
  let f ← Fields.ofValue value
  let d : ProviderSettings := {}
  return {
    kind := ← f.read "kind" 0 d.kind (readChoice SourceKind.names)
    model := ← f.read? "model" 1 readText
    baseUrl := ← f.read? "base_url" 2 readText
    keyVariable := ← f.read "api_key_env" 3 d.keyVariable readText
    hashDimension := ← f.read "hash_dimension" 4 d.hashDimension (readNat 64)
    timeoutSecs := ← f.read "timeout_secs" 5 d.timeoutSecs (readNat 64)
    maxRetries := ← f.read "max_retries" 6 d.maxRetries (readNat 32)
    initialBackoffMs := ← f.read "initial_backoff_ms" 7 d.initialBackoffMs (readNat 64)
    maxBackoffMs := ← f.read "max_backoff_ms" 8 d.maxBackoffMs (readNat 64) }

def readConcurrency (value : Toml.Value) : Setting Nat := do
  (← Fields.ofValue value).read "concurrency" 0 1 (readNat 64)

def readQuery (value : Toml.Value) : Setting QuerySettings := do
  let f ← Fields.ofValue value
  let d : QuerySettings := {}
  return {
    neighbors := ← f.read "neighbors" 0 d.neighbors (readNat 64)
    selfMatch := ← f.read "self_match" 1 d.selfMatch (readChoice SelfMatch.names) }

namespace Config

def ofToml (dataDirectory : String) (value : Toml.Value) : Setting Config := do
  let f ← Fields.ofValue value
  let d := default dataDirectory
  return {
    databasePath := ← f.read "database_path" 0 d.databasePath readText
    dimension := ← f.read? "dimension" 1 (readNat 64)
    provider := ← f.read "provider" 2 d.provider readProvider
    concurrency := ← f.read "populate" 3 d.concurrency readConcurrency
    query := ← f.read "query" 4 d.query readQuery }

def parse (dataDirectory text : String) : Except RunError Config :=
  match Toml.parse text with
  | .error fault => .error (.tomlParse fault.message)
  | .ok value => (ofToml dataDirectory value).mapError fun fault => .tomlParse fault.message

def load (dataDirectory : String) (disk : Disk) (path : String) : Except RunError Config := do
  let text ← (disk.readText path).mapError fun fault => .io fault.message
  let config ← parse dataDirectory text
  config.validate
  return config

def loadIfPresent (dataDirectory : String) (disk : Disk) (path : String) :
    Except RunError Config :=
  if disk.holds path then load dataDirectory disk path else .ok (default dataDirectory)

/-- What settings ask for: where the database is kept, the cache on it and the pipeline. -/
structure Opened where
  place : Option DiskPlace
  cache : Cache
  pipeline : Pipeline

def pipeline (c : Config) (env : Environment) (network : Network) :
    Except RunError Pipeline := do
  let provider ← c.provider.build env network c.dimension
  Blueprint.build {
    hasCache := true
    provider := some provider
    query := c.query
    concurrency := c.concurrency }

def openWith (c : Config) (env : Environment) (network : Network) (disk : Disk) :
    Disk × Except RunError Opened :=
  match c.validate with
  | .error e => (disk, .error e)
  | .ok () =>
    match disk.openCache c.databasePath with
    | (disk, .error e) => (disk, .error (.embedding e))
    | (disk, .ok (place, cache)) =>
      let cache := c.dimension.elim cache cache.enforcing
      (disk, (c.pipeline env network).map fun pipeline => ⟨place, cache, pipeline⟩)

end Config

end NearNotes
