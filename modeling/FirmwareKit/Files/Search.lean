import FirmwareKit.Files.Workspace
set_option autoImplicit false

namespace FirmwareKit

inductive Sought where
  | file
  | directory
deriving DecidableEq, Repr

structure Search where
  inDirectory : Bool
  places : List String
deriving DecidableEq, Repr

namespace Search

def here : Search := ⟨true, []⟩

def within (places : List String) : Search := ⟨true, places⟩

def isThere (w : Workspace) (kind : Sought) (path : String) : Bool :=
  match kind with
  | .file => w.tree.hasFile w.directory path
  | .directory => w.tree.hasDirectory w.directory path

/-- Empty search paths are skipped. -/
def usedPlaces (s : Search) : List String :=
  (s.places.filter fun p => !p.isEmpty).map Path.withSlashes

def candidates (w : Workspace) (s : Search) (path : String) : List String :=
  s.usedPlaces.map fun p => Path.fromBase w.directoryPath path (some p)

def find? (w : Workspace) (kind : Sought) (s : Search) (path : String) : Option String :=
  let path := Path.withSlashes path
  if Path.isAbsolute path then if isThere w kind path then some path else none
  else
    (s.candidates w path).find? (isThere w kind) <|>
      if s.inDirectory && isThere w kind path then
        some (Path.fromBase w.directoryPath path none)
      else none

def searched (w : Workspace) (s : Search) : List String :=
  (if s.inDirectory then [Path.withSlashes w.directoryPath] else []) ++ s.usedPlaces

def failure (w : Workspace) (s : Search) (path : String) : Fault :=
  let path := Path.withSlashes path
  if Path.isAbsolute path then .pathNotFound path
  else .pathNotFoundIn path (s.searched w)

end Search

namespace Run

def source : String := "wswantool.utils.misc"

def find (kind : Sought) (s : Search) (path : String) : Run String := do
  let w ← get
  match s.find? w kind path with
  | some p => pure p
  | none => throw (s.failure w path)

/-- A relative path that is not there leaves a note, and nothing is found. -/
def find? (kind : Sought) (s : Search) (path : String) : Run (Option String) := do
  let w ← get
  match s.find? w kind path with
  | some p => pure (some p)
  | none =>
    match s.failure w path with
    | .pathNotFound _ => pure none
    | f => do
      note (.debug source f.description)
      pure none

def findOrEmpty (kind : Sought) (s : Search) (path : String) : Run String := do
  let found ← find? kind s path
  pure (found.getD "")

def loadBytes (s : Search) (path : String) : Run (List UInt8) := do
  let p ← find .file s path
  note (.debug source s!"Loading binary file from {p}")
  readBytes p

def loadText (s : Search) (path : String) : Run String := do
  let p ← find .file s path
  note (.debug source s!"Loading text file from {p}")
  readText p

end Run
end FirmwareKit
