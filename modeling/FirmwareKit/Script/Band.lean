import FirmwareKit.Script.Command
import FirmwareKit.Memory.Layout
set_option autoImplicit false

/-!
# Bands of a linker script

A band is a run of commands that place one group of sections. Bands exist for every bank image;
those of a RAM window are chained, each loaded behind the end marker of the one before.
-/
namespace FirmwareKit.Script

/-- The sections of a family in one bank. The primary bank may also take the family's own name. -/
def familyPatterns (tag : BankTag) (family : String) (bare : Bool) : List Name :=
  let starred := "." ++ family ++ ".*"
  match tag with
  | .primary =>
    let tagged := Name.inQuotes (starred ++ "[^&]")
    if bare then [.plain ("." ++ family), tagged] else [tagged]
  | tag => [.inQuotes ("." ++ family ++ tag.suffix ++ "*"), .inQuotes (starred ++ tag.suffix)]

def family (tag : BankTag) (name : String) (bare : Bool) : Input :=
  .all (familyPatterns tag name bare)

def collect (level : Nat) (tag : BankTag) (name : String) : Command :=
  .input level (family tag name true)

def define (level : Nat) (name : Name) (value : Expr) : Command :=
  .assign level (.symbol name) value

def mark (level : Nat) (tag : BankTag) (symbol : String) : Command :=
  define level (.tagged tag symbol) .here

/-- The shadow name of a symbol, which stands for zero. -/
def zeroAlias (symbol : String) : Command :=
  define 1 (.tagged .shadow symbol) (.zero none)

def moveTo (level : Nat) (address : Int) : Command := .assign level .counter (.number address)

def moveNowhere : Command := .assign 2 .counter .here

def alignCounter (boundary : Value) : Command := .assign 2 .counter (.align boundary)

def textHeader (tag : BankTag) (romStart : Value) : Header :=
  match tag with
  | .shadow => ⟨.tagged tag ".text", .fixed romStart, false, none⟩
  | .primary => ⟨.tagged tag ".text", .here, true, none⟩
  | .mirror => ⟨.tagged tag ".text", .here, false, none⟩

def farFamilies : List String := ["fartext", "farrodata"]

/-- Without far text, the far families belong to the code in ROM. -/
def textBand (farText : Bool) (romStart : Value) (tag : BankTag) : List Command :=
  [.openSection (textHeader tag romStart), mark 2 tag "__stext",
    .input 2 (.keep (.inQuotes (".start" ++ tag.suffix))), collect 2 tag "text"]
  ++ (if farText then [] else farFamilies.map fun f => .input 2 (family tag f false))
  ++ [mark 2 tag "__etext"]
  ++ (if tag = .primary then [alignCounter (.int 16)] else [])
  ++ [.closeSection (if tag = .shadow then some "ROM" else none)]

def constant (name value : Value) : List Command :=
  [.blank, define 1 (.tagged .shadow name.display) (.zero name),
    define 1 (.inQuotes name.display) (.absolute value)]

def farSuffixes : List String := ["!*", "$*", "&*", ".*"]

def farBand (name : String) : List Command :=
  [.blank, .openInline ⟨.plain ("." ++ name), .aligned, true, none⟩]
  ++ farSuffixes.map (fun s => .input 2 (.sorted (.inQuotes ("." ++ name ++ s))))
  ++ [moveNowhere, .closeSection none]

def endMarker (key : String) (alignment : Value) : List Command :=
  [.blank, .openSection ⟨.plain ("." ++ key), .here, false, none⟩, alignCounter alignment]
  ++ (Labelled.members : List BankTag).map
      (fun tag => define 2 (.inQuotes ("__" ++ key ++ tag.suffix)) .here)
  ++ [moveNowhere, .closeSection none]

/-- The heap's symbols are named for the data it begins with. -/
def symbolStem (r : Region) : String := if r.isHeap then "data" else r.name

def heapFamilies : List String := ["rodata", "data", "bss"]

def regionFamilies (r : Region) : List String := if r.isHeap then heapFamilies else [r.name]

def markerHeader (chainHead : String) (w : Window) (tag : BankTag) : Header :=
  let name := Name.tagged tag ("." ++ w.name)
  match tag with
  | .shadow => ⟨name, .fixed (.int w.base), false, some ("." ++ chainHead)⟩
  | _ => ⟨name, .here, false, none⟩

/-- The band of an alternate bank over a whole window. The shadow band opens the window and carries
the bounds of its regions. -/
def markerBand (chainHead : String) (w : Window) (tag : BankTag) : List Command :=
  let bounds (start : String) : List Command :=
    if tag = .shadow then w.regions.map fun r => mark 2 tag (start ++ symbolStem r) else []
  [.blank, .openSection (markerHeader chainHead w tag)]
  ++ bounds "__s"
  ++ w.regions.flatMap (fun r => (regionFamilies r).map (collect 2 tag))
  ++ bounds "__e"
  ++ [.closeSection (some (Text.upper w.name))]

def lengths (name sectionName : String) : List Command :=
  [zeroAlias ("__l" ++ name), define 1 (.plain ("__l" ++ name)) (.sizeOf sectionName),
    zeroAlias ("__lw" ++ name), define 1 (.plain ("__lw" ++ name)) (.words ("__l" ++ name))]

def markHere (symbol : String) : Command := define 1 (.plain symbol) .here

/-- Initialised data, cleared data and the free heap up to the end of the region. -/
def heapBody (r : Region) : List Command :=
  [markHere "__sheap", .blank, markHere "__sdata",
    .openSection ⟨.inQuotes ".data", .here, true, some ".erom"⟩,
    collect 3 .primary "rodata", collect 3 .primary "data", .closeSection none, markHere "__edata"]
  ++ lengths "data" ".data"
  ++ [.blank, markHere "__sbss", .openSection ⟨.plain ".bss", .here, false, none⟩,
    collect 3 .primary "bss", .closeSection none, markHere "__ebss"]
  ++ lengths "bss" ".bss"
  ++ [.blank, moveTo 1 (r.last + 1), zeroAlias "__eheap", markHere "__eheap"]

def regionBody (r : Region) : List Command :=
  [markHere ("__s" ++ r.name), .openSection ⟨.plain ("." ++ r.name), .here, false, none⟩,
    collect 3 .primary r.name, .closeSection none, markHere ("__e" ++ r.name)]
  ++ lengths r.name ("." ++ r.name)
  ++ [moveTo 1 (r.last + 1), markHere ("__e" ++ r.name)]

def placedRegion (r : Region) : List Command :=
  [.blank, moveTo 1 r.start] ++ if r.isHeap then heapBody r else regionBody r

def windowMarker (w : Window) : String := "e" ++ w.name

def window (chainHead : String) (w : Window) : List Command :=
  [.comment (Text.upper w.name)]
  ++ (if w.regions.isEmpty then []
    else
      markerBand chainHead w .shadow
      ++ w.regions.flatMap placedRegion
      ++ markerBand chainHead w .mirror
      ++ endMarker (windowMarker w) (.int 2))
  ++ [.blank]

def chainAfter (chainHead : String) (w : Window) : String :=
  if w.regions.isEmpty then chainHead else windowMarker w

def debugSection (name : String) (extra : List String) : List Command :=
  [zeroAlias name, .outside name (name :: extra)]

end FirmwareKit.Script
