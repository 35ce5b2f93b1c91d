import FirmwareKit.Files.Tree
import FirmwareKit.Log.Note
set_option autoImplicit false

/-!
# The workspace of a run

A run reads and changes a file tree from a working directory, takes notes of what it does and makes
temporary directories. A run that fails keeps what it did until then. Its stack bounds how deep texts
may nest.
-/
namespace FirmwareKit

/-- How many containers may be nested in JSON, and what is said where the reading of a text as YAML
exhausts the stack. -/
structure Stack where
  json : Nat
  yaml : String → Option String

namespace Stack

/-- Of a thousand calls a few are made before the reading starts. -/
def usual : Stack := ⟨990, fun _ => none⟩

end Stack

structure Workspace where
  tree : FileTree
  directory : Place
  notes : List Note
  temporaryRoot : String
  temporaryCount : Nat
  stack : Stack

abbrev Run := EStateM Fault Workspace

namespace Workspace

def directoryPath (w : Workspace) : String := "/" ++ Path.ofParts w.directory

def withTree (w : Workspace) (t : FileTree) : Workspace := { w with tree := t }

end Workspace

namespace Run
open EStateM

def note (n : Note) : Run Unit := modify fun w => { w with notes := w.notes ++ [n] }

def ofExcept {α : Type} : Except Fault α → Run α
  | .ok a => pure a
  | .error f => throw f

def fail {α : Type} (f : Fault) : Run α := ofExcept f.raise

def system {α : Type} (f : SystemFault) : Run α := throw (.system f)

def obstacle (path : String) : FileTree.Obstacle → SystemFault
  | .missing => .noSuchFile path
  | .notDirectory => .notDirectory path
  | .nameTooLong => .nameTooLong path

def putEntry (p : Place) (e : FileTree.Entry) : Run Unit :=
  modify fun w => w.withTree (w.tree.put p e)

def locate (path : String) : Run FileTree.Target := do
  let w ← get
  if FileTree.hasNul path then system .nulCharacter
  else match w.tree.locate w.directory path with
    | .ok t => pure t
    | .error o => system (obstacle path o)

def makeDirectory (path : String) : Run Unit := do
  match ← locate path with
  | .present _ _ => system (.alreadyExists path)
  | .free place _ => putEntry place .directory

def splitTail (path : String) : String × String :=
  if (Path.fileName path).isEmpty then
    let p := Path.parent path
    (Path.parent p, Path.fileName p)
  else (Path.parent path, Path.fileName path)

def makeDirectoriesWithin (depth : Nat) (path : String) : Run Unit :=
  match depth with
  | 0 => pure ()
  | depth + 1 => do
    let (head, tail) := splitTail path
    let w ← get
    if !head.isEmpty && !tail.isEmpty && !w.tree.exists? w.directory head then
      try makeDirectoriesWithin depth head
      catch
        | .system (.alreadyExists _) => pure ()
        | f => throw f
      if tail == "." then return
    try makeDirectory path
    catch f =>
      let w ← get
      match f with
      | .system .nulCharacter => throw f
      | _ => if w.tree.hasDirectory w.directory path then pure () else throw f

def makeDirectories (path : String) : Run Unit :=
  makeDirectoriesWithin (path.length + 1) path

def temporaryPath (root : String) (number : Nat) : String := s!"{root}-{number}"

def freeNumber (w : Workspace) : Nat → Nat → Nat
  | 0, n => n
  | fuel + 1, n =>
    if w.tree.exists? w.directory (temporaryPath w.temporaryRoot n) then freeNumber w fuel (n + 1)
    else n

def makeTemporary : Run String := do
  let w ← get
  let number := freeNumber w (w.tree.entries.length + 1) w.temporaryCount
  let path := temporaryPath w.temporaryRoot number
  set { w with temporaryCount := number + 1 }
  makeDirectory path
  pure path

def removeAll (path : String) : Run Unit := do
  let w ← get
  match w.tree.lookup? w.directory path with
  | some (place, _) => set (w.withTree (w.tree.remove place))
  | none => pure ()

def readBytes (path : String) : Run (List UInt8) := do
  match ← locate path with
  | .present _ (.file content) => pure content
  | .present _ .directory => system (.isDirectory path)
  | .free _ _ => system (.noSuchFile path)

/-- Text is UTF-8 with any kind of line ends. -/
def readText (path : String) : Run String := do
  let content ← readBytes path
  match Text.Utf8.decode content with
  | .ok cs => pure (String.ofList (Text.unifyLineEnds cs))
  | .error m => system (.undecodable m)

end Run
end FirmwareKit
