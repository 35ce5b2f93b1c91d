import FirmwareKit.Config.Lookup
import FirmwareKit.Files.Workspace
set_option autoImplicit false

namespace FirmwareKit.Schema

def unknownSource : String := "wswantool.utils.schema_validator"

/-- The path of an entry: a key alone is a path as it is. -/
def entryPath (path key : Value) : Value :=
  if path.isTruthy then .text (path.display ++ "/" ++ key.display) else key

def isUnwritable (path key : Value) : Bool := path.isTruthy && (path.isOverlong || key.isOverlong)

def wrongType {α : Type} (text : String) : Except Fault α := .error (.system (.wrongType text))

/-- Integers, and truth values with them, count items and bytes. -/
def index? : Value → Option Int
  | .int n => some n
  | .bool b => some b.toNat
  | _ => none

def occursIn (few : List UInt8) : List UInt8 → Bool
  | [] => few.isEmpty
  | b :: rest => few.isPrefixOf (b :: rest) || occursIn few rest

def holdsByte (data : List UInt8) (name : Value) : Except Fault Bool :=
  match index? name, name with
  | some n, _ =>
    if 0 ≤ n ∧ n < 256 then .ok (data.contains (UInt8.ofNat n.toNat))
    else .error (.system (.badValue "byte must be in range(0, 256)"))
  | none, .bytes few | none, .buffer few => .ok (occursIn few data)
  | none, v => wrongType s!"a bytes-like object is required, not '{v.typeName}'"

def holds (schema : Value) (name : Value) : Except Fault Bool :=
  match schema with
  | .map es => .ok (Value.Entries.get? es name).isSome
  | .list xs | .tuple xs => .ok (xs.any (·.eq name))
  | .set xs => .ok (xs.any (·.sameKey name))
  | .text s =>
    match name with
    | .text t => .ok ((s.splitOn t).length != 1 || t.isEmpty)
    | v => wrongType s!"'in <string>' requires string as left operand, not {v.typeName}"
  | .bytes data | .buffer data => holdsByte data name
  | v => wrongType s!"argument of type '{v.typeName}' is not iterable"

def itemAt {α : Type} (sequence indices : String) (xs : List α) (name : Value) : Except Fault α :=
  match index? name with
  | none => wrongType s!"{indices} indices must be integers or slices, not {name.typeName}"
  | some n =>
    match (Config.place? xs.length n).bind (xs[·]?) with
    | some x => .ok x
    | none => .error (.system (.noSuchIndex sequence n))

def part (schema : Value) (name : Value) : Except Fault Value :=
  match schema with
  | .map es =>
    match Value.Entries.get? es name with
    | some v => .ok v
    | none => .error (.system (.absentKey name))
  | .list xs => itemAt "list " "list" xs name
  | .tuple xs => itemAt "tuple " "tuple" xs name
  | .bytes data => (itemAt "" "byte" data name).map fun b => .int b.toNat
  | .buffer data => (itemAt "bytearray " "bytearray" data name).map fun b => .int b.toNat
  | .text _ => wrongType s!"string indices must be integers, not '{name.typeName}'"
  | v => wrongType s!"'{v.typeName}' object is not subscriptable"

/-- What is found until the search ends, with a fault where a schema is no mapping or a path cannot be
written. -/
structure Findings where
  paths : List String
  fault : Option Fault

def Findings.append (f g : Findings) : Findings := ⟨f.paths ++ g.paths, g.fault⟩

def unwritable : Findings := ⟨[], some (.system .overlongInteger)⟩

def unknownAt (path schema properties key : Value) (inside : Value → Value → Findings) : Findings :=
  let here := entryPath path key
  if isUnwritable path key then unwritable
  else match holds properties key with
  | .error f => ⟨[], some f⟩
  | .ok true =>
    match part properties key with
    | .error f => ⟨[], some f⟩
    | .ok inner => inside here inner
  | .ok false =>
    match holds schema (.text "additionalProperties") with
    | .error f => ⟨[], some f⟩
    | .ok true => ⟨[], none⟩
    | .ok false => if here.isOverlong then unwritable else ⟨[here.display], none⟩

mutual
def unknown (path schema : Value) : Value → Findings
  | .map es =>
    match holds schema (.text "properties") with
    | .error f => ⟨[], some f⟩
    | .ok false => ⟨[], none⟩
    | .ok true =>
      match part schema (.text "properties") with
      | .error f => ⟨[], some f⟩
      | .ok properties => unknownEntries path schema properties es
  | _ => ⟨[], none⟩
termination_by structural v => v

def unknownEntries (path schema properties : Value) : List (Value × Value) → Findings
  | [] => ⟨[], none⟩
  | (k, v) :: rest =>
    let first := unknownAt path schema properties k fun here inner => unknown here inner v
    match first.fault with
    | some f => ⟨first.paths, some f⟩
    | none => first.append (unknownEntries path schema properties rest)
termination_by structural es => es
end

def unknownNote (path : String) : Note :=
  ⟨.warning, unknownSource, s!"Unknown property '{path}' found in configuration"⟩

def reportUnknown (schema v : Value) : Run Unit := do
  match schema with
  | .map es =>
    if (Value.Entries.getText? es "properties").isSome then
      let found := unknown (.text "") schema v
      found.paths.forM fun p => Run.note (unknownNote p)
      match found.fault with
      | some f => throw f
      | none => pure ()
    else pure ()
  | _ => pure ()

end FirmwareKit.Schema
