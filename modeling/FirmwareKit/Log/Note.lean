import FirmwareKit.Log.Level
import FirmwareKit.Memory.Normalize
set_option autoImplicit false

namespace FirmwareKit

structure Note where
  level : Level
  source : String
  text : String
deriving DecidableEq, Repr

namespace Note

def debug (source text : String) : Note := ⟨.debug, source, text⟩

def normalized (l : Layout) (count : Nat) : Note :=
  debug "wswantool.memlayout.layout"
    (s!"Normalized {count} region(s), model {Labelled.label l.model}: "
      ++ s!"DS={Layout.hex 4 l.ds} SS={Layout.hex 4 l.ss} SP={Layout.hex 4 l.sp}, "
      ++ s!"{l.iram.length} in IRAM, {l.sram.length} in SRAM")

end Note
end FirmwareKit
