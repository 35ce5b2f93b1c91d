import FirmwareKit.Memory.Region
import FirmwareKit.Table
set_option autoImplicit false

namespace FirmwareKit

structure Layout where
  model : MemoryModel
  ds : Int
  ss : Int
  sp : Int
  iram : List Region
  sram : List Region
deriving DecidableEq, Repr, Inhabited

structure Window where
  name : String
  base : Int
  regions : List Region
deriving DecidableEq, Repr

namespace Layout

def windows (l : Layout) : List Window :=
  [⟨"iram", Memory.iramBase, l.iram⟩, ⟨"sram", Memory.sramBase, l.sram⟩]

def regions (l : Layout) : List Region := l.iram ++ l.sram

def hex (width : Nat) (n : Int) : String :=
  "0x" ++ String.ofList (Text.signedUpperHex width n)

def row (window : String) (r : Region) : List String :=
  [Text.upper window, r.name, hex 5 r.start, hex 5 r.last, hex 1 r.size]

def table (l : Layout) : Table :=
  ⟨["Window", "Region", "Start", "End", "Size"],
    l.windows.flatMap fun w => w.regions.map (row w.name)⟩

def render (l : Layout) : String :=
  s!"Memory model: {Labelled.label l.model}\n"
    ++ s!"DS: {hex 4 l.ds}, SS: {hex 4 l.ss}, SP: {hex 4 l.sp}\n"
    ++ l.table.render

end Layout
end FirmwareKit
