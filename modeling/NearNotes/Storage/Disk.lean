import NearNotes.Cache.Basic
import NearNotes.Storage.Sqlite

/-!
# Files

A tree of directories and files, and what is read from it or kept in it.

* `Disk`: the files and directories by their place, and the working directory;
* `Disk.locate`: the place of a path. Every step on the way must be a directory;
* `Disk.readText`: the text of a file; `Disk.makeParents`: the directories above it;
* `Disk.openCache`: the cache on the database at a path, made where it is missing; a path that
  names no file stands for a database of its own that nobody else sees;
* `Disk.save`: the database back at its place.
-/

namespace NearNotes

abbrev DiskPlace := List String

inductive DiskNode
  | file (bytes : List UInt8)
  | directory
deriving DecidableEq, Repr

/-- Files and directories. The root is always a directory. -/
structure Disk where
  nodes : List (DiskPlace × DiskNode) := []
  workingDirectory : DiskPlace := []
deriving DecidableEq, Repr

inductive DiskFault
  | missing
  | notDirectory
  | isDirectory
  | alreadyThere
  | notText
  | badName
deriving DecidableEq, Repr

def DiskFault.message : DiskFault → String
  | missing => "No such file or directory (os error 2)"
  | notDirectory => "Not a directory (os error 20)"
  | isDirectory => "Is a directory (os error 21)"
  | alreadyThere => "File exists (os error 17)"
  | notText => "stream did not contain valid UTF-8"
  | badName => "file name contained an unexpected NUL byte"

def pathParts (path : String) : List String := (path.toList.splitOn '/').map String.ofList

/-- A part of a path that leads to another place: neither empty nor a single dot. -/
def isStep (part : String) : Bool := part != "" && part != "."

/-- The place that a step leads to; the root is its own parent. -/
def DiskPlace.step (place : DiskPlace) (part : String) : DiskPlace :=
  if part == ".." then place.dropLast
  else if isStep part then place ++ [part]
  else place

/-- Where a path starts, and the parts that follow. -/
def pathOrigin (workingDirectory : DiskPlace) (path : String) : DiskPlace × List String :=
  match pathParts path with
  | "" :: rest => ([], rest)
  | parts => (workingDirectory, parts)

namespace Disk

def node? (d : Disk) (place : DiskPlace) : Option DiskNode :=
  if place.isEmpty then some .directory else d.nodes.lookup place

def put (d : Disk) (place : DiskPlace) (node : DiskNode) : Disk :=
  { d with nodes := d.nodes.filter (·.1 != place) ++ [(place, node)] }

def follow (d : Disk) : DiskPlace → List String → Except DiskFault DiskPlace
  | place, [] => .ok place
  | place, part :: rest =>
    match d.node? place with
    | some .directory => d.follow (DiskPlace.step place part) rest
    | some (.file _) => .error .notDirectory
    | none => .error .missing

/-- The place of a path. The last part of the path may be missing. -/
def locate (d : Disk) (path : String) : Except DiskFault DiskPlace :=
  if path.contains '\x00' then .error .badName
  else if path.isEmpty then .error .missing
  else
    let (start, parts) := pathOrigin d.workingDirectory path
    d.follow start parts

def readFile (d : Disk) (path : String) : Except DiskFault (List UInt8) := do
  match d.node? (← d.locate path) with
  | some (.file bytes) => return bytes
  | some .directory => throw .isDirectory
  | none => throw .missing

def readText (d : Disk) (path : String) : Except DiskFault String := do
  match Text.decodeUtf8? (← d.readFile path) with
  | some text => return text
  | none => throw .notText

def holds (d : Disk) (path : String) : Bool :=
  match d.locate path with
  | .ok place => (d.node? place).isSome
  | .error _ => false

/-- Makes the directories along some parts, as far as they are missing. -/
def makeAlong (d : Disk) : DiskPlace → List String → Disk × Except DiskFault Unit
  | _, [] => (d, .ok ())
  | place, part :: rest =>
    let next := DiskPlace.step place part
    match d.node? next with
    | some .directory => d.makeAlong next rest
    | some (.file _) => (d, .error (if rest.isEmpty then .alreadyThere else .notDirectory))
    | none => (d.put next .directory).makeAlong next rest

def makeParents (d : Disk) (path : String) : Disk × Except DiskFault Unit :=
  let (start, parts) := pathOrigin d.workingDirectory path
  let steps := (parts.filter isStep).dropLast
  if steps.any (·.contains '\x00') then (d, .error .badName) else d.makeAlong start steps

/-- The place of a database file: dots are taken out of the path without a look at the disk. -/
def databasePlace (d : Disk) (path : String) : DiskPlace :=
  let (start, parts) := pathOrigin d.workingDirectory path
  parts.foldl DiskPlace.step start

/-- The path names no file: such a database is nobody else's and gone afterwards. -/
def isPrivate (path : String) : Bool := path.isEmpty || path == ":memory:"

def readDatabase (d : Disk) (path : String) (place : DiskPlace) : Except EmbedError Database :=
  if path.contains '\x00' then .error (.storage "nul byte found in provided data")
  else
    match d.node? place with
    | none => .ok {}
    | some .directory => .error (.storage s!"unable to open database file: {path}")
    | some (.file bytes) =>
      match Database.ofFile? bytes with
      | some db => .ok db
      | none => .error (.storage "file is not a database")

def save (d : Disk) (place : Option DiskPlace) (db : Database) : Disk :=
  match place with
  | some place => d.put place (.file db.image)
  | none => d

/-- The cache on the database at a path, and the place of the database if it has one. -/
def openCache (d : Disk) (path : String) :
    Disk × Except EmbedError (Option DiskPlace × Cache) :=
  match d.makeParents path with
  | (d, .error fault) => (d, .error (.io fault.message))
  | (d, .ok ()) =>
    let place := if isPrivate path then none else some (d.databasePlace path)
    let database : Except EmbedError Database :=
      match place with
      | none => .ok {}
      | some place => d.readDatabase path place
    match database.bind Cache.openOn with
    | .error e => (d, .error e)
    | .ok cache => (d.save place cache.database, .ok (place, cache))

end Disk

end NearNotes
