import FirmwareKit.Build.Context
import FirmwareKit.Files.Store
set_option autoImplicit false

/-!
# Build steps

A build step works in a workspace under its own context. Data in memory becomes a temporary file
where a file is needed, and a file becomes data where data is needed. What a step has done when it
fails stays done.
-/
namespace FirmwareKit

structure BuildState where
  context : BuildContext
  workspace : Workspace

abbrev Build := EStateM Fault BuildState

namespace Build

def context : Build BuildContext := BuildState.context <$> get

def setContext (c : BuildContext) : Build Unit := modify fun s => { s with context := c }

def within {α : Type} (work : Run α) : Build α := fun s =>
  match work s.workspace with
  | .ok a w => .ok a { s with workspace := w }
  | .error f w => .error f { s with workspace := w }

def ofExcept {α : Type} : Except Fault α → Build α
  | .ok a => pure a
  | .error f => throw f

def run {α : Type} (work : Build α) (c : BuildContext) : Run (α × BuildContext) := fun w =>
  match work ⟨c, w⟩ with
  | .ok a s => .ok (a, s.context) s.workspace
  | .error f s => .error f s.workspace

def source : String := "wswantool.utils.process"

def enter : Build Unit := do
  let c ← context
  match c.scratch with
  | .none => do
    let path ← within Run.makeTemporary
    setContext { c with scratch := .owned path }
    within (Run.note (.debug source s!"Created temporary directory {path}"))
  | _ => pure ()

def leave : Build Unit := do
  let c ← context
  match c.scratch with
  | .owned path => do
    within (Run.note (.debug source s!"Removing temporary directory {path}"))
    within (Run.removeAll path)
    setContext { c with scratch := .none }
  | _ => pure ()

def allocate (extension : String) : Build String := do
  let c ← context
  let (path, c) ← ofExcept (c.allocate extension)
  setContext c
  pure path

def access (path mode : String) : Build Unit := do
  let c ← context
  setContext (c.access path mode)

def writeRule (path : String) (target : Option String) : Build Unit := do
  let c ← context
  let text ← ofExcept (c.rule target)
  within (Run.storeText text path)

def toFile : Reference → Build String
  | .file path => pure path
  | .data bytes => do
    let path ← allocate ".tmp"
    within (Run.storeBytes bytes path)
    pure path

def toData : Reference → Build (List UInt8)
  | .data bytes => pure bytes
  | .file path => do
    access path "rb"
    within (Run.loadBytes Search.here path)

def fileOf (v : Value) : Build String := do
  let r ← ofExcept (Reference.ofValue v)
  toFile r

def dataOf (v : Value) : Build (List UInt8) := do
  let r ← ofExcept (Reference.ofValue v)
  toData r

/-- A step from its start to its end; it is ended also when its work fails. -/
def whole {α : Type} (work : Build α) : Build α := do
  enter
  try
    let a ← work
    leave
    pure a
  catch f =>
    leave
    throw f

end Build

namespace Reference

def load : Reference → Run (List UInt8)
  | .data bytes => pure bytes
  | .file path => Run.loadBytes Search.here path

end Reference
end FirmwareKit
