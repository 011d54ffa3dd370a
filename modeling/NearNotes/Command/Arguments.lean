import NearNotes.Config.File

/-!
# Arguments of the command line

* `Arguments`: what a command line asks for;
* `Switch`: what a name stands for; some take a value and some take none;
* `Arguments.parse`: a command line read from left to right, or why it stops: a request for the
  version or for help counts as soon as it is read, and so does a mistake.

An option or flag is given once at most. A value follows its option as the next argument, after an
equals sign, or directly after a short name; short names may be put together. After two dashes
everything is a document.
-/

namespace NearNotes

structure Arguments where
  document : String
  config : Option String := none
  database : Option String := none
  neighbors : Option Nat := none
  provider : Option SourceKind := none
  line : Option Nat := none
  full : Bool := false
  verbose : Bool := false
deriving DecidableEq, Repr

inductive Halt
  | usage
  | version
  | help
deriving DecidableEq, Repr

structure Arguments.Partial where
  document : Option String := none
  config : Option String := none
  database : Option String := none
  neighbors : Option Nat := none
  provider : Option SourceKind := none
  line : Option Nat := none
  full : Bool := false
  verbose : Bool := false

inductive Switch
  | config | database | neighbors | provider | line
  | full | verbose | version | help
deriving DecidableEq, Repr

namespace Switch

def ofLong? : String → Option Switch
  | "config" => some config
  | "database" => some database
  | "neighbors" => some neighbors
  | "provider" => some provider
  | "line" => some line
  | "full" => some full
  | "verbose" => some verbose
  | "version" => some version
  | "help" => some help
  | _ => none

def ofShort? : Char → Option Switch
  | 'k' => some neighbors
  | 'v' => some verbose
  | 'V' => some version
  | 'h' => some help
  | _ => none

def takesValue : Switch → Bool
  | config | database | neighbors | provider | line => true
  | full | verbose | version | help => false

end Switch

namespace Arguments

/-- What is read so far, or why reading ends. -/
abbrev Reading := Except Halt

def setOnce {α : Type} (old : Option α) (new : Option α) : Reading (Option α) :=
  match old, new with
  | none, some a => .ok (some a)
  | _, _ => .error .usage

def path? (s : String) : Option String := if s.isEmpty then none else some s

def Partial.flag (p : Partial) : Switch → Reading Partial
  | .full => if p.full then .error .usage else .ok { p with full := true }
  | .verbose => if p.verbose then .error .usage else .ok { p with verbose := true }
  | .version => .error .version
  | .help => .error .help
  | _ => .error .usage

def Partial.option (p : Partial) (value : String) : Switch → Reading Partial
  | .config => do return { p with config := ← setOnce p.config (path? value) }
  | .database => do return { p with database := ← setOnce p.database (path? value) }
  | .neighbors => do return { p with neighbors := ← setOnce p.neighbors (Text.wordOf? value) }
  | .line => do return { p with line := ← setOnce p.line (Text.wordOf? value) }
  | .provider => do
    return { p with provider := ← setOnce p.provider (SourceKind.names.lookup value) }
  | _ => .error .usage

def Partial.positional (p : Partial) (value : String) : Reading Partial := do
  return { p with document := ← setOnce p.document (path? value) }

/-- The argument may be a value: it does not look like a switch. -/
def isValue (arg : String) : Bool :=
  match arg.toList with
  | '-' :: _ :: _ => false
  | _ => true

/-- Short names put together, the last of which may take a value. The second component is a switch
whose value is the next argument. -/
def shortNames (p : Partial) : List Char → Reading (Partial × Option Switch)
  | [] => .ok (p, none)
  | c :: rest =>
    match Switch.ofShort? c with
    | none => .error .usage
    | some switch =>
      if switch.takesValue then
        match rest with
        | [] => .ok (p, some switch)
        | '=' :: value => do return (← p.option (String.ofList value) switch, none)
        | value => do return (← p.option (String.ofList value) switch, none)
      else do shortNames (← p.flag switch) rest

/-- A long name, with a value after an equals sign or without. -/
def longName (p : Partial) (cs : List Char) : Reading (Partial × Option Switch) :=
  let name := cs.takeWhile (· != '=')
  let value? := match cs.dropWhile (· != '=') with
    | [] => none
    | _ :: value => some (String.ofList value)
  match Switch.ofLong? (String.ofList name), value? with
  | none, _ => .error .usage
  | some switch, some value =>
    if switch.takesValue then do return (← p.option value switch, none) else .error .usage
  | some switch, none =>
    if switch.takesValue then .ok (p, some switch) else do return (← p.flag switch, none)

def positionals (p : Partial) (args : List String) : Reading Partial :=
  args.foldlM Partial.positional p

/-- Arguments from left to right; `waiting` is a switch whose value comes next. -/
def readAll : (waiting : Option Switch) → Partial → List String → Reading Partial
  | none, p, [] => .ok p
  | some _, _, [] => .error .usage
  | some switch, p, arg :: rest =>
    if isValue arg then do readAll none (← p.option arg switch) rest else .error .usage
  | none, p, arg :: rest =>
    match arg.toList with
    | ['-', '-'] => positionals p rest
    | '-' :: '-' :: cs => do
      let (p, waiting) ← longName p cs
      readAll waiting p rest
    | '-' :: c :: cs => do
      let (p, waiting) ← shortNames p (c :: cs)
      readAll waiting p rest
    | _ => do readAll none (← p.positional arg) rest

/-- The variable that names the settings where no argument does. -/
def configVariable : String := "SIMILAR_NOTES_CONFIG"

def configFrom (env : Environment) (p : Partial) : Reading (Option String) :=
  match p.config, env configVariable with
  | some path, _ => .ok (some path)
  | none, some value => if value.isEmpty then .error .usage else .ok (some value)
  | none, none => .ok none

def parse (env : Environment) (args : List String) : Reading Arguments := do
  let p ← readAll none {} args
  let config ← configFrom env p
  match p.document with
  | none => throw .usage
  | some document =>
    return {
      document, config
      database := p.database
      neighbors := p.neighbors
      provider := p.provider
      line := p.line
      full := p.full
      verbose := p.verbose }

end Arguments

end NearNotes
