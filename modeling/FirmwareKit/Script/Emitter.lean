import FirmwareKit.Identity
import FirmwareKit.Script.Band
import FirmwareKit.Log.Note
set_option autoImplicit false

/-!
# Emission of linker scripts

An emitter knows what a script is made of and which band the next RAM window is loaded behind. Its
script has the code in ROM, the constants, the far bands, the windows and the debug sections. The
stack pointer is a constant like any other; a caller's entry of its name only gives it a place.
-/
namespace FirmwareKit.Script

def stackPointerSymbol : String := "__wf_stack_pointer"

structure Emitter where
  layout : Layout
  constants : List (Value × Int)
  romStart : Value
  romLength : Value
  programName : String
  chainHead : String
deriving Repr

def romEnd : String := "erom"

def checkConstants (constants : Value.Entries) : Except Fault (List (Value × Int)) :=
  constants.mapM fun e =>
    match e.2 with
    | .int n => .ok (e.1, n)
    | _ => (Fault.invalidConstant e.1).raise

def withStackPointer (l : Layout) (constants : Value.Entries) : Value.Entries :=
  constants.insert (.text stackPointerSymbol) (.int l.sp)

namespace Emitter

def make (layout : Layout) (constants : Value.Entries) (romStart romLength : Value)
    (programName : String) : Except Fault Emitter :=
  (checkConstants (withStackPointer layout constants)).map
    (⟨layout, ·, romStart, romLength, programName, romEnd⟩)

def farText (e : Emitter) : Bool := e.layout.model.farText

def header (e : Emitter) (date : String) : List Command :=
  [.verbatim s!"/* automatically generated by {e.programName} on {date} */\n",
    .verbatim "OUTPUT_FORMAT(\"elf32-i386\")\n",
    .verbatim "ENTRY(_start)\n",
    .verbatim "MEMORY\n\x7b\n",
    .memory "IRAM" "wx" (.int Memory.iramBase) (.int Memory.segmentSize),
    .memory "SRAM" "wx" (.int Memory.sramBase) (.int Memory.segmentSize),
    .memory "ROM" "rx" e.romStart e.romLength,
    .verbatim "\x7d\nSECTIONS\n\x7b\n",
    .comment "ROM",
    .verbatim (indentation ++ "\n")]

def text (e : Emitter) (tag : BankTag) : List Command := textBand e.farText e.romStart tag

def romPart (e : Emitter) : List Command :=
  e.text .shadow ++ [.blank] ++ e.text .primary
  ++ e.constants.flatMap (fun c => constant c.1 (.int c.2))
  ++ [.blank] ++ e.text .mirror
  ++ (if e.farText then farFamilies.flatMap farBand else [])
  ++ endMarker romEnd (.int 16) ++ [.blank]

def chain (chainHead : String) : List Window → List Command
  | [] => []
  | w :: rest => window chainHead w ++ chain (chainAfter chainHead w) rest

def debugSections : List (String × List String) := [
  (".debug", []), (".line", []), (".debug_srcinfo", []), (".debug_sfnames", []),
  (".debug_aranges", []), (".debug_pubnames", []), (".debug_info", [".gnu.linkonce.wi.*"]),
  (".debug_abbrev", []), (".debug_line", [".debug_line.*", ".debug_line_end"]),
  (".debug_frame", []), (".debug_str", []), (".debug_loc", []), (".debug_macinfo", []),
  (".debug_weaknames", []), (".debug_funcnames", []), (".debug_typenames", []),
  (".debug_varnames", []), (".debug_pubtypes", []), (".debug_ranges", []), (".debug_addr", []),
  (".debug_line_str", []), (".debug_loclists", []), (".debug_macro", []), (".debug_names", []),
  (".debug_rnglists", []), (".debug_str_offsets", []), (".debug_sup", [])]

def ramPart (e : Emitter) : List Command := chain romEnd e.layout.windows

def debugPart : List Command := debugSections.flatMap fun s => debugSection s.1 s.2

def script (e : Emitter) (date : String) : List Command :=
  e.header date ++ e.romPart ++ e.ramPart ++ debugPart ++ [.verbatim "\x7d\n"]

def lastChainHead (e : Emitter) : String := e.layout.windows.foldl chainAfter romEnd

def emitted (e : Emitter) : Note :=
  let far := if e.farText then "True" else "False"
  .debug "wswantool.memlayout.linkscript"
    (s!"Emitting linker script: model {Labelled.label e.layout.model}, "
      ++ s!"far text {far}, {e.constants.length} constant(s)")

end Emitter

/-- One write of an emitter; whole scripts and markers move the chain on. -/
inductive Step where
  | script (date : String)
  | header (date : String)
  | textBand (tag : BankTag)
  | constant (name value : Value)
  | farBand (name : String)
  | endMarker (key : String) (alignment : Value)
  | window (w : Window)
  | markerBand (w : Window) (tag : BankTag)
  | lengths (name sectionName : String)
  | heapBody (r : Region)
  | regionBody (r : Region)
  | debugSection (name : String) (extra : List String)
deriving Repr

namespace Emitter

def commands (e : Emitter) : Step → List Command
  | .script date => e.script date
  | .header date => e.header date
  | .textBand tag => e.text tag
  | .constant name value => Script.constant name value
  | .farBand name => Script.farBand name
  | .endMarker key alignment => Script.endMarker key alignment
  | .window w => Script.window e.chainHead w
  | .markerBand w tag => Script.markerBand e.chainHead w tag
  | .lengths name sectionName => Script.lengths name sectionName
  | .heapBody r => Script.heapBody r
  | .regionBody r => Script.regionBody r
  | .debugSection name extra => Script.debugSection name extra

def chainHeadAfter (e : Emitter) : Step → String
  | .script _ => e.lastChainHead
  | .endMarker key _ => key
  | .window w => chainAfter e.chainHead w
  | _ => e.chainHead

def write (e : Emitter) (s : Step) : Except Fault (String × Emitter) :=
  let cs := e.commands s
  if isOverlong cs then .error (.system .overlongInteger)
  else .ok (render cs, { e with chainHead := e.chainHeadAfter s })

/-- The chain head where windows end early: that of the last window written whole. -/
def headCut (chainHead : String) : List Window → String
  | [] => chainHead
  | w :: rest =>
    if isOverlong (window chainHead w) then chainHead else headCut (chainAfter chainHead w) rest

/-- The chain head that a write leaves when a number cuts it short. A script begins a new chain. -/
def chainHeadCut (e : Emitter) : Step → String
  | .script date =>
    if isOverlong (e.header date ++ e.romPart) then romEnd else headCut romEnd e.layout.windows
  | _ => e.chainHead

end Emitter

/-- A sink and an emitter after a write, and the fault that cut the write short. -/
structure Written where
  sink : String
  emitter : Emitter
  fault? : Option Fault
deriving Repr

namespace Emitter

/-- What was written before a fault stays in the sink. -/
def writeTo (e : Emitter) (sink : String) (s : Step) : Written :=
  let cs := e.commands s
  if isOverlong cs then
    ⟨sink ++ render (writable cs), { e with chainHead := e.chainHeadCut s },
      some (.system .overlongInteger)⟩
  else ⟨sink ++ render cs, { e with chainHead := e.chainHeadAfter s }, none⟩

end Emitter

def defaultProgramName : String := Identity.name

def emit (layout : Layout) (constants : Value.Entries) (romStart romLength : Value)
    (date : String) : Except Fault String := do
  let e ← Emitter.make layout constants romStart romLength defaultProgramName
  let (text, _) ← e.write (.script date)
  pure text

/-- A script written to a sink. An emitter is only made of constants that can be exported, so a
fault of a constant leaves the sink as it is. -/
def emitTo (sink : String) (layout : Layout) (constants : Value.Entries)
    (romStart romLength : Value) (date : String) : String × Option Fault :=
  match Emitter.make layout constants romStart romLength defaultProgramName with
  | .error f => (sink, some f)
  | .ok e =>
    let written := e.writeTo sink (.script date)
    (written.sink, written.fault?)

end FirmwareKit.Script
