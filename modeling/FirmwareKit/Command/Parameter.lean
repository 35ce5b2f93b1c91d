import FirmwareKit.Log.Level
set_option autoImplicit false

namespace FirmwareKit

/-- What a value has to be. A file may be missing unless it must exist, but is no directory. -/
inductive Parameter.Kind where
  | file (mustExist isResolved : Bool)
  | integer
  | text
deriving DecidableEq, Repr

inductive Parameter.Role where
  | takes (kind : Parameter.Kind) (isRequired : Bool)
  | sets (level : Level)
  | showsHelp
  | showsVersion
deriving DecidableEq, Repr

structure Parameter where
  names : List String
  role : Parameter.Role
  help : String
deriving DecidableEq, Repr

structure Operands where
  label : String
  kind : Parameter.Kind
deriving DecidableEq, Repr

/-- A command. Options end at the first operand of a group, since that is the name of a command. -/
structure CommandSpec where
  path : String
  summary : String
  parameters : List Parameter
  operands : Option Operands
  isGroup : Bool
deriving DecidableEq, Repr

namespace Parameter

def isShort (name : String) : Bool :=
  match name.toList with
  | ['-', c] => c ≠ '-'
  | _ => false

/-- The name under which a value is found: the last. -/
def key (p : Parameter) : String := p.names.getLast?.getD ""

def takesValue (p : Parameter) : Bool :=
  match p.role with
  | .takes .. => true
  | _ => false

def isRequired (p : Parameter) : Bool :=
  match p.role with
  | .takes _ isRequired => isRequired
  | _ => false

def hint (p : Parameter) : String := " / ".intercalate (p.names.map fun n => s!"'{n}'")

end Parameter

namespace Operands

def metavariable (o : Operands) : String := o.label ++ "..."

def hint (o : Operands) : String := s!"'{o.metavariable}'"

end Operands

namespace CommandSpec

def longNames (c : CommandSpec) : List String :=
  c.parameters.flatMap fun p => p.names.filter fun n => !Parameter.isShort n

def withName? (c : CommandSpec) (name : String) : Option Parameter :=
  c.parameters.find? fun p => p.names.contains name

end CommandSpec
end FirmwareKit
