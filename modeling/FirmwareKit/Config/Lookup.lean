import FirmwareKit.Value.Conversion
import FirmwareKit.Text.Lines
set_option autoImplicit false

/-!
# Looking up configuration values

A key is a path: parts between slashes lead from one mapping or list into the next, and parts that
read as numbers are numbers. A path that leads nowhere may still be the literal name of a top-level
entry.
-/
namespace FirmwareKit.Config

def separator : Char := '/'

/-- A part of a path is a number if it reads as one. -/
def keyPart (part : String) : Value :=
  match (Value.text part).toInt? with
  | some n => .int n
  | none => .text part

/-- A key that is a number itself is one part, and stays text. -/
def keyPath : Value → List Value
  | .text s => (Text.splitOnChar separator s.toList).map fun p => keyPart (String.ofList p)
  | v => [.text v.display]

/-- Why a key has no parts: only texts, truth values and integers that can be written have. -/
def undivided? : Value → Option SystemFault
  | .text _ | .bool _ => none
  | .int n => if Value.isLongInteger n then some .overlongInteger else none
  | .bytes _ | .buffer _ => some (.wrongType "a bytes-like object is required, not 'str'")
  | v => some (.noAttribute v "split")

/-- The place of a number in a list; negative numbers count from its end. -/
def place? (length : Nat) (n : Int) : Option Nat :=
  let i := if n < 0 then n + length else n
  if i < 0 then none else some i.toNat

def outOfRange (n : Int) : Fault := .system (.noSuchIndex "list " n)

def step (root : Value) (v key : Value) : Except Fault Value :=
  let found : Except Fault Value :=
    match v with
    | .list items =>
      match key with
      | .int n => (((place? items.length n).bind (items[·]?)).map .ok).getD (.error (outOfRange n))
      | _ => .error .listKeyNotNumber
    | .map es => .ok ((Value.Entries.get? es key).getD .null)
    | _ => .error .invalidKeyPath
  match found with
  | .ok .null => (Fault.missingKey key root).raise
  | r => r

def follow (root : Value) (v : Value) : List Value → Except Fault Value
  | [] => .ok v
  | key :: rest =>
    match step root v key with
    | .ok w => follow root w rest
    | .error f => .error f

/-- The value at a key: along its path or, failing that, under its literal name. -/
def item (entries : Value.Entries) (key : Value) : Except Fault Value :=
  let root := Value.map entries
  match undivided? key with
  | some f => .error (.system f)
  | none =>
    match follow root root (keyPath key) with
    | .error f => if f.kind = .key then step root root key else .error f
    | r => r

/-- A fault of the library's own gives way to the default. -/
def get (entries : Value.Entries) (key default : Value) : Except Fault Value :=
  match item entries key with
  | .error f => if f.kind.isOwn then .ok default else .error f
  | r => r

def replace (new : Value) (v : Value) : List Value → Value
  | [] => new
  | key :: rest =>
    match v, key with
    | .list items, .int n =>
      match place? items.length n with
      | some i => .list (items.modify i fun w => replace new w rest)
      | none => v
    | .map es, key =>
      match Value.Entries.get? es key with
      | some w => .map (Value.Entries.insert es key (replace new w rest))
      | none => v
    | v, _ => v

def entriesOf : Value → Value.Entries
  | .map es => es
  | _ => []

def put (entries : Value.Entries) (key new : Value) : Value.Entries :=
  let root := Value.map entries
  match item entries key with
  | .error _ => entries
  | .ok _ =>
    match follow root root (keyPath key) with
    | .ok _ => entriesOf (replace new root (keyPath key))
    | .error _ => entries.insert key new

def getDictionary (entries : Value.Entries) (key default : Value) : Except Fault Value.Entries := do
  match ← get entries key default with
  | .map es => .ok es
  | _ => (Fault.notDictionaryAt key).raise

def getInteger (entries : Value.Entries) (key default : Value) : Except Fault Int := do
  match ← get entries key default with
  | .null => (Fault.notIntegerAt key).raise
  | v => v.toInt none

def getText (entries : Value.Entries) (key default : Value) : Except Fault String := do
  match ← get entries key default with
  | .text s => .ok s
  | _ => (Fault.notTextAt key).raise

end FirmwareKit.Config
