import FirmwareKit.Files.Search
import FirmwareKit.Json.Reading
import FirmwareKit.Yaml.Document
set_option autoImplicit false

namespace FirmwareKit

namespace Config

def tooDeep (container : String) : SystemFault :=
  .recursion s!"maximum recursion depth exceeded while decoding a JSON {container} from a unicode string"

/-- The value of a text; none if it is neither JSON nor YAML. -/
def valueOf? (stack : Stack) (text : String) : Except Fault (Option Value) :=
  match Json.load stack.json text with
  | .ok v => .ok (some v)
  | .error (.tooManyDigits n) => .error (.system (.tooManyDigits n))
  | .error (.tooDeep container) => .error (.system (tooDeep container))
  | .error .malformed =>
    match stack.yaml text, Yaml.load text with
    | some said, _ => .error (.system (.recursion said))
    | none, .ok v => .ok (some v)
    | none, .error (.system f) => .error (.system f)
    | none, .error .malformed => .ok none

def ofText (stack : Stack) (path text : String) : Except Fault Value.Entries := do
  match ← valueOf? stack text with
  | none => .error (.unparsable path)
  | some v =>
    if !v.isTruthy then .error (.unparsable path)
    else match v with
      | .map es => .ok es
      | _ => .error (.notMapping path)

end Config

namespace Run

def loadEntries (s : Search) (path : String) : Run Value.Entries := do
  let w ← get
  let text ←
    try loadText s path
    catch f => throw (.unloadable f.message)
  ofExcept (Config.ofText w.stack path text)

end Run
end FirmwareKit
