import FirmwareKit.Binary64.Basic
import FirmwareKit.Memory.Model
import FirmwareKit.Moment
import FirmwareKit.Script.BankTag
set_option autoImplicit false

/-!
# Values

Documents, options and arguments hold values of many kinds. Numbers of different kinds are equal
when they stand for the same number, and a labelled member is equal to its number and to its label.
As a key, though, a member is only equal to itself, and so is the float that is no number.
-/
namespace FirmwareKit

inductive Value where
  | null
  | bool (b : Bool)
  | int (n : Int)
  | float (x : Binary64)
  | text (s : String)
  | bytes (data : List UInt8)
  | buffer (data : List UInt8)
  | list (items : List Value)
  | tuple (items : List Value)
  | map (entries : List (Value × Value))
  /-- Distinct values, in the order in which they were first mentioned. -/
  | set (items : List Value)
  | moment (m : Moment)
  | model (m : MemoryModel)
  | bank (t : BankTag)
  | fileRef (path : String)
  | dataRef (data : List UInt8)
  | path (p : String)
deriving Repr, Inhabited

namespace Value

abbrev Entries := List (Value × Value)

/-- The numbers among the values; truth values count as one and zero. -/
inductive Number where
  | int (n : Int)
  | float (x : Binary64)
deriving DecidableEq, Repr

def Number.compare? : Number → Number → Option Ordering
  | .int a, .int b => some (compare a b)
  | .float x, .int b => x.compareInt? b
  | .int a, .float y => (y.compareInt? a).map Ordering.swap
  | .float x, .float y => x.compare? y

def toNumber? : Value → Option Number
  | .bool b => some (.int b.toNat)
  | .int n => some (.int n)
  | .float x => some (.float x)
  | _ => none

def memberTag? : Value → Option Nat
  | .model m => some (Labelled.tag m)
  | .bank t => some (Labelled.tag t)
  | _ => none

def memberLabel? : Value → Option String
  | .model m => some (Labelled.label m)
  | .bank t => some (Labelled.label t)
  | _ => none

def sameNumber (v w : Value) : Bool :=
  match v.toNumber?, w.toNumber? with
  | some a, some b => a.compare? b == some .eq
  | _, _ => false

/-- What is not a number differs from itself, though not as a key. -/
def sameFloat (asKey : Bool) (x y : Binary64) : Bool :=
  x.compare? y == some .eq || (asKey && x == .nan && y == .nan)

def sameMember (v w : Value) : Bool :=
  match v.memberTag?, v.memberLabel?, w with
  | some tag, some label, w =>
    sameNumber (.int tag) w ||
      (match w with
        | .text s => s == label
        | w => w.memberTag? == some tag || w.memberLabel? == some label)
  | _, _, _ => false

mutual
/-- With `asKey`, members are only equal to themselves. -/
def same (asKey : Bool) : Value → Value → Bool
  | .null, .null => true
  | .float x, .float y => sameFloat asKey x y
  | .text s, .text t => s == t
  | .bytes a, .bytes b | .bytes a, .buffer b | .buffer a, .bytes b | .buffer a, .buffer b => a == b
  | .list xs, .list ys => sameItems asKey xs ys
  | .tuple xs, .tuple ys => sameItems asKey xs ys
  | .map xs, .map ys => xs.length == ys.length && sameEntries xs ys
  | .set xs, .set ys => xs.length == ys.length && sameMembers xs ys
  | .moment m, .moment n => m.same n
  | .model m, .model n => m == n
  | .bank t, .bank u => t == u
  | .fileRef p, .fileRef q => p == q
  | .dataRef a, .dataRef b => a == b
  | .path p, .path q => p == q
  | v, w => sameNumber v w || (!asKey && (sameMember v w || sameMember w v))
termination_by structural v => v

def sameItems (asKey : Bool) : List Value → List Value → Bool
  | [], [] => true
  | x :: xs, y :: ys => same asKey x y && sameItems asKey xs ys
  | _, _ => false
termination_by structural xs => xs

def sameEntries : List (Value × Value) → List (Value × Value) → Bool
  | [], _ => true
  | (k, v) :: rest, ys =>
    ys.any (fun e => same true k e.1 && same false v e.2) && sameEntries rest ys
termination_by structural xs => xs

def sameMembers : List Value → List Value → Bool
  | [], _ => true
  | x :: xs, ys => ys.any (fun y => same true x y) && sameMembers xs ys
termination_by structural xs => xs
end

def eq (v w : Value) : Bool := same false v w

def sameKey (v w : Value) : Bool := same true v w

def isKey : Value → Bool
  | .buffer _ | .list _ | .map _ | .set _ => false
  | .tuple items => isKeys items
  | _ => true
where
  isKeys : List Value → Bool
  | [] => true
  | v :: rest => isKey v && isKeys rest

def isTruthy : Value → Bool
  | .null => false
  | .bool b => b
  | .int n => n != 0
  | .float x => !x.isZero
  | .text s => !s.isEmpty
  | .bytes d | .buffer d => !d.isEmpty
  | .list xs | .tuple xs | .set xs => !xs.isEmpty
  | .map es => !es.isEmpty
  | _ => true

end Value

namespace Value.Entries

def get? (entries : Value.Entries) (key : Value) : Option Value :=
  (entries.find? fun e => e.1.sameKey key).map Prod.snd

def getText? (entries : Value.Entries) (key : String) : Option Value :=
  entries.get? (.text key)

/-- A key that is there keeps its place and takes the new value. -/
def insert (entries : Value.Entries) (key value : Value) : Value.Entries :=
  match entries with
  | [] => [(key, value)]
  | (k, v) :: rest => if k.sameKey key then (k, value) :: rest else (k, v) :: insert rest key value

def ofPairs (pairs : List (Value × Value)) : Value.Entries :=
  pairs.foldl (fun es p => es.insert p.1 p.2) []

def erase (entries : Value.Entries) (key : Value) : Value.Entries :=
  entries.filter fun e => !e.1.sameKey key

end Value.Entries
end FirmwareKit
