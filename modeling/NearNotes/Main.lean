import NearNotes.Command.Run

/-!
# The program

The command line on the real disk: the files that a run needs are read, the run is made, and what
it prints and keeps is written. There is no network here, so a remote source is never reached.
-/

namespace NearNotes.Program

/-- The disk with a real file at its place, if it can be read. -/
def fetch (disk : Disk) (path : String) : IO Disk := do
  try
    let bytes ← IO.FS.readBinFile path
    return (disk.makeParents path).1.put (disk.databasePlace path) (.file bytes.data.toList)
  catch _ => return disk

def dataDirectory : IO String := do
  match ← IO.getEnv "XDG_DATA_HOME", ← IO.getEnv "HOME" with
  | some dir, home =>
    if dir.toList.head? = some '/' then return dir
    else return Config.pathIn (home.getD "") ".local/share"
  | none, some home => return Config.pathIn home ".local/share"
  | none, none => return ""

def readVariable (name : String) : IO (List (String × String)) := do
  return ((← IO.getEnv name).map (name, ·)).toList

/-- What a run with given arguments needs to find. -/
def gather (args : List String) : IO World := do
  let cwd := ((← IO.currentDir).toString.splitOn "/").filter (· != "")
  let named ← readVariable Arguments.configVariable
  let world : World := {
    disk := { workingDirectory := cwd }
    env := (List.lookup · named)
    dataDirectory := ← dataDirectory }
  match Arguments.parse world.env args with
  | .error _ => return world
  | .ok a =>
    let disk ← (a.config.toList ++ [a.document]).foldlM fetch (world.disk.put cwd .directory)
    let world := { world with disk }
    match a.settings world with
    | .error _ => return world
    | .ok config =>
      let key ← readVariable config.provider.keyVariable
      let disk ← fetch disk config.databasePath
      return { world with disk, env := (List.lookup · (named ++ key)) }

def keep (before after : Disk) : IO Unit := do
  for (place, node) in after.nodes do
    if before.node? place ≠ some node then
      match node with
      | .file bytes =>
        IO.FS.createDirAll ("/" ++ "/".intercalate place.dropLast)
        IO.FS.writeBinFile ("/" ++ "/".intercalate place) ⟨bytes.toArray⟩
      | .directory => pure ()

end NearNotes.Program

open NearNotes in
/-- The program: its exit code is that of the run. -/
def main (args : List String) : IO UInt32 := do
  let world ← Program.gather args
  let (disk, outcome) := Command.run args world
  Program.keep world.disk disk
  IO.print outcome.stdout
  if let some report := outcome.error then IO.eprintln report
  if outcome.code = 2 then IO.eprintln Command.usage
  return outcome.code.toUInt32
