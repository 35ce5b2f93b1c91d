import FirmwareKit.Fault
import FirmwareKit.Numeral.Suffixed
set_option autoImplicit false

namespace FirmwareKit

def ofBigEndian (data : List UInt8) : Nat :=
  data.foldl (fun n b => n * 256 + b.toNat) 0

namespace Value

def toInt? : Value → Option Int
  | .int n => some n
  | .bytes data | .buffer data => some (ofBigEndian data)
  | .text s => (Numeral.readSuffixed? s).map Int.ofNat
  | _ => none

def toInt (v : Value) (default : Option Int) : Except Fault Int :=
  match v.toInt?, default with
  | some n, _ => .ok n
  | none, some n => .ok n
  | none, none => (Fault.notNumber v).raise

/-- Of texts, only four count as true. -/
def toBool : Value → Bool
  | .text s => ["True", "true", "T", "1"].contains s
  | v => v.isTruthy

end Value

namespace Numeral

/-- An integer given on a command line or already read; a truth value stays what it is. -/
def readParameter (base : Nat) (v : Value) : Except Fault Value :=
  let read (cs : List Char) : Except Fault Value :=
    match readInteger base cs with
    | .ok n => .ok (.int n)
    | .error _ => (Fault.notInteger v).raise
  match v with
  | .int _ | .bool _ => .ok v
  | .text s => read s.toList
  | .bytes data | .buffer data =>
    if data.all (· < 0x80) then read (data.map fun b => Char.ofNat b.toNat)
    else (Fault.notInteger v).raise
  | _ => if isBase base then (Fault.notIntegerText v).raise else (Fault.notInteger v).raise

end Numeral

namespace Labelled
variable {α : Type} [Labelled α]

def ofTagValue (tag : Value) : Except Fault α :=
  match (members : List α).find? fun m => (Value.int (Labelled.tag m)).eq tag with
  | some m => .ok m
  | none => (Fault.noMemberWithTag (Labelled.typeName α) tag).raise

def ofLabelValue : Value → Except Fault α
  | .text s =>
    match ofLabel? s with
    | some m => .ok m
    | none => (Fault.noMemberWithLabel (Labelled.typeName α) s).raise
  | _ => .error .labelNotText

/-- Integers and truth values are numbers of members, all else is a label. -/
def ofValue (v : Value) : Except Fault α :=
  match v with
  | .int _ | .bool _ => ofTagValue v
  | _ => ofLabelValue v

def contains (α : Type) [Labelled α] (v : Value) : Except Fault Bool :=
  match v with
  | .int _ | .bool _ | .text _ =>
    match (ofValue v : Except Fault α) with
    | .ok _ => .ok true
    | .error f => if f.kind = .key then .ok false else .error f
  | _ => .error .notTagOrLabel

end Labelled

namespace MemoryModel

def parse : Value → Except Fault MemoryModel
  | .model m => .ok m
  | .text s =>
    match Labelled.ofLabel? s with
    | some m => .ok m
    | none => .error (.unknownModel (.text s))
  | v => if v.isOverlong then .error (.system .overlongInteger)
    else .error (.unknownModel (.text v.display))

end MemoryModel
end FirmwareKit
