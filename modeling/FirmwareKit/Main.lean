import FirmwareKit.Calendar
import FirmwareKit.Command.Program
set_option autoImplicit false

namespace FirmwareKit.CommandLine

/-- What an argument may name: itself, what follows an equals sign or a short option. -/
def namedPaths (argument : String) : List String :=
  let cs := argument.toList
  [argument, String.ofList ((cs.dropWhile (· ≠ '=')).drop 1), String.ofList (cs.drop 2)]

def placeOf (path : String) : Place := (Path.parts path).filter fun s => s ≠ ""

def placesAlong (p : Place) : List Place := (List.range p.length).map fun i => p.take (i + 1)

def temporaryPlace : Place := ["tmp", Identity.name]

def places (directory : String) (arguments : List String) : List Place :=
  let paths := (directory :: arguments.flatMap namedPaths).map (Path.resolved directory)
  ((["tmp"] :: paths.map placeOf).flatMap placesAlong).eraseDups

def changes (before after : FileTree) : List (Place × FileTree.Entry) :=
  after.entries.filter fun e => before.entry? e.1 != some e.2

def exitStatus (o : Outcome) : UInt32 :=
  match o.exit with
  | .int n => n.toNat.toUInt32
  | _ => 1

def pathOf (p : Place) : String := "/" ++ Path.ofParts p

def readEntry (p : Place) : IO (Option FileTree.Entry) := do
  try
    let real ← IO.FS.realPath (pathOf p)
    if ← real.isDir then return some .directory
    let content ← IO.FS.readBinFile real
    return some (.file content.toList)
  catch _ => return none

def readTree (ps : List Place) : IO FileTree :=
  ps.foldlM (fun t p => do
    match ← readEntry p with
    | some e => return t.put p e
    | none => return t) .empty

def writeEntry (e : Place × FileTree.Entry) : IO Unit :=
  match e.2 with
  | .directory => IO.FS.createDirAll (pathOf e.1)
  | .file content => IO.FS.writeBinFile (pathOf e.1) ⟨content.toArray⟩

/-- The present, by the clock of the file system. -/
def now : IO Int := do
  let (_, path) ← IO.FS.createTempFile
  let seconds := (← path.metadata).modified.sec
  IO.FS.removeFile path
  return seconds

end FirmwareKit.CommandLine

open FirmwareKit CommandLine in
def main (arguments : List String) : IO UInt32 := do
  let directory := (← IO.currentDir).toString
  let tree ← readTree (places directory arguments)
  let w : Workspace := ⟨tree, placeOf directory, [], pathOf temporaryPlace, 0, .usual⟩
  let (o, after) := Program.run ⟨Calendar.text (← now), Identity.name⟩ arguments w
  for e in changes tree after.tree do writeEntry e
  (← IO.getStdout).putStr o.output
  (← IO.getStderr).putStr o.errors
  return exitStatus o
