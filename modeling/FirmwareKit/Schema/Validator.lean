import FirmwareKit.Schema.Program
set_option autoImplicit false

/-!
# Validators

A validator compiles schemas and checks values against them. Checking may change the value: entries
that are missing get their defaults, also where the check fails later. A check that fails remembers
why; of alternatives it keeps the schemas, which can be compiled again.
-/
namespace FirmwareKit.Schema

/-- A schema is refused for a reason, or cannot even be read. -/
inductive Refusal where
  | definition (reason : String)
  | system (cause : SystemFault)
deriving Repr

abbrev Reading := Except Refusal

/-- The value that is checked; the entries of a whole configuration may be found by key paths. -/
structure Subject where
  whole : Bool
  value : Value
deriving Repr

def Subject.with (s : Subject) (v : Value) : Subject := { s with value := v }

/-- Of alternatives, any may hold, or exactly one has to. -/
inductive Choice where
  | anyOf
  | oneOf
deriving DecidableEq, Repr

namespace Choice

def keyword : Choice → String
  | .anyOf => "anyOf"
  | .oneOf => "oneOf"

/-- When so many alternatives hold, the rest is not tried. -/
def enough : Choice → Nat
  | .anyOf => 1
  | .oneOf => 2

def admits : Choice → Nat → Bool
  | .anyOf, n => n != 0
  | .oneOf, n => n == 1

end Choice

inductive Cause (Definition : Type) where
  | other
  | required (names : List Value)
  | format (name : String)
  | alternatives (choice : Choice) (definitions : List Definition)
deriving Repr

structure Failure (Definition : Type) where
  message : String
  subject : Subject
  cause : Cause Definition
deriving Repr

structure Outcome (Definition : Type) where
  value : Value
  failure : Option (Failure Definition)
deriving Repr

structure Validator where
  Definition : Type
  Code : Type
  compile : Value → Reading Code
  recompile : Definition → Except Fault Code
  check : Code → Subject → Program (Outcome Definition)
  /-- How deep explanations may nest in each other before the stack is exhausted. -/
  room : Nat

end FirmwareKit.Schema
