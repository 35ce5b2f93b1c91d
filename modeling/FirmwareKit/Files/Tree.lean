import FirmwareKit.Files.Path
set_option autoImplicit false

namespace FirmwareKit

abbrev Place := List String

inductive FileTree.Entry where
  | directory
  | file (content : List UInt8)
deriving DecidableEq, Repr

structure FileTree where
  entries : List (Place × FileTree.Entry)
deriving DecidableEq, Repr, Inhabited

namespace FileTree

def empty : FileTree := ⟨[]⟩

def entry? (t : FileTree) (p : Place) : Option Entry :=
  if p.isEmpty then some .directory else (t.entries.find? fun e => e.1 == p).map Prod.snd

def put (t : FileTree) (p : Place) (e : Entry) : FileTree :=
  if t.entries.any (fun x => x.1 == p) then
    ⟨t.entries.map fun x => if x.1 == p then (p, e) else x⟩
  else ⟨t.entries ++ [(p, e)]⟩

def remove (t : FileTree) (p : Place) : FileTree :=
  ⟨t.entries.filter fun e => !p.isPrefixOf e.1⟩

def isDirectory (t : FileTree) (p : Place) : Bool := t.entry? p == some .directory

inductive Obstacle where
  | missing
  | notDirectory
  | nameTooLong
deriving DecidableEq, Repr

/-- Where a walk ends: at an entry, or at a free name in a directory. -/
inductive Target where
  | present (place : Place) (entry : Entry)
  | free (place : Place) (asDirectory : Bool)
deriving DecidableEq, Repr

def greatestNameSize : Nat := 255

def greatestPathSize : Nat := 4095

def walk (t : FileTree) (here : Place) (entry : Entry) : List String → Except Obstacle Target
  | [] => .ok (.present here entry)
  | part :: rest =>
    match entry with
    | .file _ => .error .notDirectory
    | .directory =>
      if part = "" ∨ part = "." then walk t here .directory rest
      else if part = ".." then walk t here.dropLast .directory rest
      else if greatestNameSize < part.utf8ByteSize then .error .nameTooLong
      else
        let next := here ++ [part]
        match t.entry? next with
        | some e => walk t next e rest
        | none =>
          if rest.all (· == "") then .ok (.free next (!rest.isEmpty)) else .error .missing

def locate (t : FileTree) (directory : Place) (path : String) : Except Obstacle Target :=
  if path.isEmpty then .error .missing
  else if greatestPathSize < path.utf8ByteSize then .error .nameTooLong
  else walk t (if Path.isAbsolute path then [] else directory) .directory (Path.parts path)

def lookup? (t : FileTree) (directory : Place) (path : String) : Option (Place × Entry) :=
  match t.locate directory path with
  | .ok (.present place entry) => some (place, entry)
  | _ => none

def hasNul (path : String) : Bool := path.toList.contains '\x00'

def exists? (t : FileTree) (directory : Place) (path : String) : Bool :=
  !hasNul path && (t.lookup? directory path).isSome

def hasFile (t : FileTree) (directory : Place) (path : String) : Bool :=
  !hasNul path &&
    match t.lookup? directory path with
    | some (_, .file _) => true
    | _ => false

def hasDirectory (t : FileTree) (directory : Place) (path : String) : Bool :=
  !hasNul path &&
    match t.lookup? directory path with
    | some (_, .directory) => true
    | _ => false

def below (t : FileTree) (p : Place) : List (Place × Entry) :=
  t.entries.filterMap fun e =>
    if p.isPrefixOf e.1 ∧ p.length < e.1.length then some (e.1.drop p.length, e.2) else none

end FileTree
end FirmwareKit
