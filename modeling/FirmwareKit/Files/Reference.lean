import FirmwareKit.Embed.Identifier
import FirmwareKit.Files.Path
import FirmwareKit.Fault
set_option autoImplicit false

namespace FirmwareKit

inductive Reference where
  | file (path : String)
  | data (bytes : List UInt8)
deriving DecidableEq, Repr

namespace Reference

def ofValue (v : Value) : Except Fault Reference :=
  match v with
  | .fileRef p | .text p | .path p => .ok (.file p)
  | .dataRef d | .bytes d | .buffer d => .ok (.data d)
  | _ => .error (.unsupportedInput v)

def fileName? : Reference → Option String
  | .file p => some p
  | .data _ => none

/-- The C symbol of a file: its last name without extension, as an identifier. -/
def symbol (r : Reference) (lead : String) : Except Fault String :=
  match r with
  | .file p =>
    .ok (lead ++ Embed.toIdentifier (Path.splitExtension (Path.fileName p)).1)
  | .data _ => .error .noFileName

end Reference
end FirmwareKit
