import FirmwareKit.Embed.Arrays
import FirmwareKit.Files.Workspace
import FirmwareKit.Script.Emitter
set_option autoImplicit false

namespace FirmwareKit.Run

def normalize (entries : Value.Entries) (model : Value) : Run Layout := do
  let l ← ofExcept (Memory.normalize entries model)
  note (.normalized l entries.length)
  pure l

def emit (layout : Layout) (constants : Value.Entries) (romStart romLength : Value)
    (date : String) : Run String := do
  let e ← ofExcept
    (Script.Emitter.make layout constants romStart romLength Script.defaultProgramName)
  note e.emitted
  ofExcept ((e.write (.script date)).map Prod.fst)

def embed (program date : String) (arrays : List Embed.ByteArray) : Run (String × String) := do
  (Embed.reached arrays).forM fun a => note (Embed.embedded a)
  ofExcept (Embed.write program date arrays)

end FirmwareKit.Run
