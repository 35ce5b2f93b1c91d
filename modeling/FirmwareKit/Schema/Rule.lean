import FirmwareKit.Schema.Pattern
import FirmwareKit.Schema.Validator
set_option autoImplicit false

namespace FirmwareKit.Schema

inductive TypeName where
  | null
  | boolean
  | number
  | integer
  | string
  | array
  | object
deriving DecidableEq, Repr

namespace TypeName

def all : List TypeName := [.null, .boolean, .number, .integer, .string, .array, .object]

def text : TypeName → String
  | .null => "null"
  | .boolean => "boolean"
  | .number => "number"
  | .integer => "integer"
  | .string => "string"
  | .array => "array"
  | .object => "object"

def ofText? (s : String) : Option TypeName := all.find? fun t => t.text == s

def admits : TypeName → Value → Bool
  | .null, .null => true
  | .boolean, .bool _ => true
  | .number, .int _ | .number, .float _ | .number, .bool _ => true
  | .integer, .int _ | .integer, .bool _ => true
  | .integer, .float x => x.isIntegral
  | .string, .text _ => true
  | .array, .list _ | .array, .tuple _ => true
  | .object, .map _ => true
  | _, _ => false

end TypeName

/-- Truth values count as numbers only where truth values are asked for too. -/
def hasType (types : List TypeName) (v : Value) : Bool :=
  match v with
  | .bool _ => types.contains .boolean
  | v => types.any (·.admits v)

inductive Measure where
  | characters
  | items
  | entries
deriving DecidableEq, Repr

def Measure.of? : Measure → Value → Option Nat
  | .characters, .text s => some s.length
  | .items, .list xs | .items, .tuple xs => some xs.length
  | .entries, .map es => some es.length
  | _, _ => none

inductive Side where
  | least
  | most
deriving DecidableEq, Repr

/-- A bound that lies outside what it bounds is strict. -/
structure Limit where
  side : Side
  strict : Bool
  value : Value
deriving Repr

def Limit.violatedBy (l : Limit) (n : Value.Number) : Bool :=
  match l.value.toNumber? with
  | none => false
  | some m =>
    match n.compare? m, l.side with
    | some .lt, .least => true
    | some .gt, .most => true
    | some .eq, _ => l.strict
    | _, _ => false

inductive Rule where
  | never
  /-- What a schema that is no mapping asks for: nothing. -/
  | inert (schema : Value)
  | type (types : List TypeName)
  | enum (values : List Value)
  | const (value : Value)
  | allOf (schemas : List (List Rule))
  | choice (choice : Choice) (schemas : List (List Rule))
  | not (schema : List Rule)
  | nothing
  | anything
  | size (measure : Measure) (side : Side) (limit : Value)
  | pattern (source : String) (pattern : Pattern)
  | format (format : Format)
  | magnitude (limit : Limit)
  | multipleOf (divisor : Value)
  | unique
  | noItems
  | items (schema : List Rule)
  | itemsAt (schemas : List (List Rule × Option Value))
  | required (names : List Value)
  | properties (schemas : List (String × List Rule × Option Value))
  | noOthers (known : List String)
  | others (known : List String) (schema : List Rule)
deriving Repr

end FirmwareKit.Schema
