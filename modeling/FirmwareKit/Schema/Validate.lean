import FirmwareKit.Schema.Merge
import FirmwareKit.Schema.Check
import FirmwareKit.Schema.Unknown
import FirmwareKit.Value.Dump
set_option autoImplicit false

namespace FirmwareKit

structure Validation where
  parts : List Value
  places : List String
  reportsUnknown : Bool
  verbose : Bool

namespace Validation
open Schema

def logSchema (schema v : Value) : Run Unit := do
  let text ← Run.ofExcept (schema.dump false 0)
  Run.note (.debug unknownSource s!"Merged validation schema:\n{text}")
  let text ← Run.ofExcept (v.dump true 0)
  Run.note (.debug unknownSource s!"Configuration to check:\n{text}")

def compileFault : Refusal → Fault
  | .definition reason => .invalidSchema reason
  | .system f => .system f

def opening (c : Validation) (v : Value) : Run Unit := do
  if c.reportsUnknown then reportUnknown (mergeAll c.parts) v
  if c.verbose then logSchema (mergeAll c.parts) v

def verdict (V : Validator) (c : Validation) (v : Value) : Program Unit := do
  let code ← Program.ofExcept ((V.compile (mergeAll c.parts)).mapError compileFault)
  let o ← V.check code ⟨true, v⟩
  match o.failure with
  | none => pure ()
  | some f => do
    let reason ← V.explanation f
    Program.ofExcept (Fault.validationFailed reason).raise

def run (V : Validator) (c : Validation) (keyed : Bool) (v : Value) : Run Unit := do
  c.opening v
  (c.verdict V v).run c.places keyed

end Validation
end FirmwareKit
