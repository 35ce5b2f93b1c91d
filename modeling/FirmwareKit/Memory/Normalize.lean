import FirmwareKit.Memory.Layout
import FirmwareKit.Value.Conversion
set_option autoImplicit false

/-!
# Normal form of a memory layout

A memory map assigns each name a pair of addresses. Every entry is checked on its own, in the order
of declaration; then no two regions but the stack may share an address; then there has to be a
place for the stack. The layout that results does not depend on the order of declaration.
-/
namespace FirmwareKit.Memory

def length? : Value → Option Nat
  | .text s => some s.length
  | .bytes data | .buffer data => some data.length
  | .list items | .tuple items | .set items => some items.length
  | .map entries => some entries.length
  | _ => none

/-- The things a value holds, one by one; a map gives its keys. -/
def elements : Value → List Value
  | .text s => s.toList.map fun c => .text (String.ofList [c])
  | .bytes data | .buffer data => data.map fun b => .int b.toNat
  | .list items | .tuple items | .set items => items
  | .map entries => entries.map Prod.fst
  | _ => []

def isInteger : Value → Bool
  | .int _ => true
  | _ => false

/-- What a value holds at a position; a map is asked for the number of the position. -/
def element (v : Value) (i : Nat) : Except Fault Value :=
  match v with
  | .map entries =>
    match Value.Entries.get? entries (.int i) with
    | some w => .ok w
    | none => .error (.system (.absentKey (.int i)))
  | .set _ => .error (.system (.wrongType "'set' object is not subscriptable"))
  | v => .ok ((elements v).getD i .null)

def asAddress : Value → Except Fault Int
  | .int n => .ok n
  | .bool b => .ok b.toNat
  | _ => .error (.system (.wrongType "an address is an integer"))

def bounds (name : String) (v : Value) : Except Fault (Int × Int) :=
  match length? v with
  | none => .error (.system (.noLength v))
  | some n =>
    if n = 2 ∧ (elements v).all isInteger then do
      let start ← element v 0 >>= asAddress
      if start < 0 then .error (.negativeAddress name)
      else
        let last ← element v 1 >>= asAddress
        if last < 0 then .error (.negativeAddress name) else .ok (start, last)
    else .error (.notPair name)

def checkRegion (r : Region) : Except Fault Region :=
  if r.last < r.start then .error (.negativeSize (.text r.name))
  else if romSplit ≤ r.start then .error (.inRomArea (.text r.name))
  else if segmentBase r.start ≠ segmentBase r.last then .error (.crossesSegment (.text r.name))
  else .ok r

def checkEntry (name value : Value) : Except Fault Region :=
  match name with
  | .text s =>
    if isIdentifier s then do
      let (start, last) ← bounds s value
      checkRegion ⟨s, start, last⟩
    else .error (.invalidIdentifier name)
  | _ => (Fault.invalidIdentifier name).raise

def checkEntries (entries : Value.Entries) : Except Fault (List Region) :=
  entries.mapM fun e => checkEntry e.1 e.2

/-- The first region at another place than `i` that overlaps a region. Regions are told apart by
their places, since two of them may be equal. -/
def rival? (rs : List Region) (r : Region) (i : Nat) : Option Region :=
  (rs.zipIdx.find? fun p => p.2 != i && r.overlaps p.1).map Prod.fst

def firstOverlap? (rs : List Region) : Option (Region × Region) :=
  rs.zipIdx.findSome? fun p => (rival? rs p.1 p.2).map fun s => (p.1, s)

/-- All regions but the stack, which may share its addresses with any of them. -/
def withoutStack (rs : List Region) : List Region := rs.filter fun r => !r.isStack

def find? (name : String) (rs : List Region) : Option Region :=
  rs.find? fun r => r.name == name

/-- The address above the stack: the stack has its own region or grows down from the heap's end. -/
def stackTop? (rs : List Region) : Option Int :=
  (find? stackName rs <|> find? heapName rs).map fun r => r.last + 1

def sortByStart (rs : List Region) : List Region :=
  rs.mergeSort fun r s => decide (r.start ≤ s.start)

def dataSegment (rs : List Region) : Int :=
  match find? heapName rs with
  | some heap => segmentRegister heap.start
  | none => 0

def place (model : MemoryModel) (rs : List Region) (top : Int) : Layout :=
  let placed := withoutStack (sortByStart rs)
  { model
    ds := dataSegment rs
    ss := segmentRegister top
    sp := segmentOffset top
    iram := placed.filter fun r => decide (r.start < sramBase)
    sram := placed.filter fun r => decide (sramBase ≤ r.start) }

def arrange (model : MemoryModel) (rs : List Region) : Except Fault Layout :=
  match firstOverlap? (withoutStack rs) with
  | some (r, s) => .error (.overlapping (.text r.name) (.text s.name))
  | none =>
    match stackTop? rs with
    | none => .error .missingStack
    | some top => .ok (place model rs top)

def normalize (entries : Value.Entries) (model : Value) : Except Fault Layout := do
  let model ← MemoryModel.parse model
  let regions ← checkEntries entries
  arrange model regions

def defaultModel : MemoryModel := .medium

end FirmwareKit.Memory
