import FirmwareKit.Fault
import FirmwareKit.Numeral.Integer
set_option autoImplicit false

namespace FirmwareKit

structure Region where
  name : String
  start : Int
  last : Int
deriving DecidableEq, Repr, Inhabited

namespace Memory

def segmentSize : Int := 0x10000
def segmentCount : Int := 0x10
def iramBase : Int := 0x00000
def sramBase : Int := 0x10000
def romSplit : Int := 0x20000

def stackName : String := "stack"
def heapName : String := "c_heap"

/-- The base of the segment of an address, on the 20-bit bus. -/
def segmentBase (address : Int) : Int :=
  address / segmentSize % segmentCount * segmentSize

def segmentOffset (address : Int) : Int := address % segmentSize

def segmentRegister (address : Int) : Int := segmentBase address / 0x10

def isIdentifierStart (c : Char) : Bool := c.isAlpha

def isIdentifierRest (c : Char) : Bool := c.isAlphanum || c == '_'

def isIdentifier (s : String) : Bool :=
  match s.toList with
  | [] => false
  | c :: rest => isIdentifierStart c && rest.all isIdentifierRest

end Memory

namespace Region

def size (r : Region) : Int := r.last - r.start + 1

def segment (r : Region) : Int := Memory.segmentBase r.start

def overlaps (r s : Region) : Bool := r.start ≤ s.last && s.start ≤ r.last

def isStack (r : Region) : Bool := r.name == Memory.stackName

def isHeap (r : Region) : Bool := r.name == Memory.heapName

theorem overlaps_comm (r s : Region) : r.overlaps s = s.overlaps r := by
  simp [overlaps, Bool.and_comm]

end Region
end FirmwareKit
