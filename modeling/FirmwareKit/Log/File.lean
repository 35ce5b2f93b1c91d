import FirmwareKit.Files.Workspace
set_option autoImplicit false

/-!
# Log files

A log is written to one file until that is full. Then the file is put aside, and so are those that
were put aside before it, as far as there is room for them. A file that is open stays so when it is
moved or removed.
-/
namespace FirmwareKit

namespace FileTree

def goesWith (t : FileTree) (p q : Place) : Bool :=
  q == p || (t.isDirectory p && p.isPrefixOf q)

def move (t : FileTree) (source target : Place) : FileTree :=
  ⟨t.entries.map fun e =>
    if t.goesWith source e.1 then (target ++ e.1.drop source.length, e.2) else e⟩

def erase (t : FileTree) (p : Place) : FileTree := ⟨t.entries.filter fun e => e.1 != p⟩

end FileTree

namespace LogFile

inductive Move where
  | moved (source target : Place)
  | removed (place : Place) (size : Nat)
deriving DecidableEq, Repr

/-- What is open: the file at a place, or one that has been removed since, with its size. -/
inductive Stream where
  | closed
  | standing (place : Place)
  | removed (size : Nat)
deriving DecidableEq, Repr

def Stream.isOpen : Stream → Bool
  | .closed => false
  | _ => true

def Stream.after : Stream → Move → Stream
  | .standing p, .moved source target =>
    if source.isPrefixOf p then .standing (target ++ p.drop source.length) else .standing p
  | .standing p, .removed q size => if p = q then .removed size else .standing p
  | s, _ => s

end LogFile

structure LogFile where
  path : String
  stream : LogFile.Stream
deriving DecidableEq, Repr

namespace LogFile

def greatestSize : Nat := 1000000

def backups : Nat := 5

def follow (f : LogFile) (moves : List Move) : LogFile :=
  { f with stream := moves.foldl Stream.after f.stream }

/-- The place of a full file; the lower its number, the later it was put aside. -/
def backup (place : Place) (number : Nat) : Place :=
  let name := place.getLastD ""
  place.dropLast ++ [s!"{name}.{number}"]

structure Rotation where
  tree : FileTree
  moves : List Move
  isStuck : Bool

namespace Rotation

def hasLongName (place : Place) : Bool :=
  FileTree.greatestNameSize < (place.getLastD "").utf8ByteSize

/-- Moves an entry, if it is there, over what stands at its new place. A directory is not removed for
that. -/
def shift (r : Rotation) (source target : Place) : Rotation :=
  if r.isStuck || (r.tree.entry? source).isNone then r
  else match r.tree.entry? target with
    | some .directory => { r with isStuck := true }
    | some (.file content) =>
      ⟨(r.tree.erase target).move source target,
        r.moves ++ [.removed target content.length, .moved source target], false⟩
    | none =>
      if hasLongName target then { r with isStuck := true }
      else ⟨r.tree.move source target, r.moves ++ [.moved source target], false⟩

/-- The steps of a rotation: the oldest files first, the full one last. -/
def steps (place : Place) : List (Place × Place) :=
  (List.range (backups - 1)).reverse.map (fun i => (backup place (i + 1), backup place (i + 2)))
    ++ [(place, backup place 1)]

end Rotation

/-- A backup has a path longer by a dot and a digit. -/
def hasLongBackups (path : String) : Bool := FileTree.greatestPathSize < path.utf8ByteSize + 2

def rotated (path : String) (t : FileTree) (place : Place) : Rotation :=
  if hasLongBackups path then ⟨t, [], (t.entry? place).isSome⟩
  else (Rotation.steps place).foldl (fun r s => r.shift s.1 s.2) ⟨t, [], false⟩

end LogFile

namespace Run

def openLog (path : String) : Run Place := do
  match ← locate path with
  | .present place (.file _) => pure place
  | .present _ .directory => system (.isDirectory path)
  | .free place asDirectory =>
    if asDirectory then system (.isDirectory path)
    else do
      putEntry place (.file [])
      pure place

end Run

namespace LogFile

/-- Opens the file; it stays closed if that is refused. -/
def reopen (f : LogFile) : Run LogFile :=
  try
    let place ← Run.openLog f.path
    pure { f with stream := .standing place }
  catch _ => pure { f with stream := .closed }

def opened (f : LogFile) : Run LogFile := if f.stream.isOpen then pure f else f.reopen

def size (f : LogFile) (t : FileTree) : Nat :=
  match f.stream with
  | .closed => 0
  | .removed size => size
  | .standing place =>
    match t.entry? place with
    | some (.file content) => content.length
    | _ => 0

def append (f : LogFile) (text : String) : Run LogFile := do
  let bytes := Text.Utf8.encode text.toList
  match f.stream with
  | .closed => pure f
  | .removed size => pure { f with stream := .removed (size + bytes.length) }
  | .standing place =>
    let w ← get
    match w.tree.entry? place with
    | some (.file content) => do
      Run.putEntry place (.file (content ++ bytes))
      pure f
    | _ => pure f

/-- Only what is a file, or not there at all, is ever put aside. -/
def mayRotate (f : LogFile) (w : Workspace) : Bool :=
  !w.tree.exists? w.directory f.path || w.tree.hasFile w.directory f.path

def rotate (f : LogFile) : Run (LogFile × List Move) := do
  let w ← get
  match w.tree.locate w.directory f.path with
  | .error _ => pure ({ f with stream := .closed }, [])
  | .ok (.present place _) | .ok (.free place _) => do
    let r := rotated f.path w.tree place
    set (w.withTree r.tree)
    if r.isStuck then pure ({ f with stream := .closed }, r.moves)
    else do
      let f ← f.reopen
      pure (f, r.moves)

end LogFile
end FirmwareKit
