import FirmwareKit.Command.Parameter
import FirmwareKit.Text.Lines
import FirmwareKit.Text.Similarity
set_option autoImplicit false

namespace FirmwareKit

inductive UsageFault where
  | noSuchOption (name : String) (suggestions : List String)
  | noSuchCommand (name : String)
  | missingCommand
  | needsValue (name : String)
  | takesNoValue (name : String)
  | extraOperands (operands : List String)
  | missingOption (hint : String)
  | missingOperands (hint : String)
  | notInteger (hint given : String)
  | noSuchFile (hint given : String)
  | isDirectory (hint given : String)
deriving DecidableEq, Repr

structure Arguments.Given where
  parameter : Parameter
  value : String
deriving DecidableEq, Repr

structure Arguments where
  given : List Arguments.Given
  operands : List String
deriving DecidableEq, Repr

namespace Arguments

/-- What has been read so far. An option may be waiting for its value. -/
structure Reader where
  read : Arguments
  pending : Option (String × Parameter)
  isPastOptions : Bool
deriving DecidableEq, Repr

namespace Reader

def start : Reader := ⟨⟨[], []⟩, none, false⟩

def give (r : Reader) (p : Parameter) (value : String) : Reader :=
  { r with read := { r.read with given := r.read.given ++ [⟨p, value⟩] }, pending := none }

def addOperand (r : Reader) (operand : String) : Reader :=
  { r with read := { r.read with operands := r.read.operands ++ [operand] } }

def splitAttached (argument : String) : String × Option String :=
  let cs := argument.toList
  match cs.dropWhile (· ≠ '=') with
  | [] => (argument, none)
  | _ :: attached =>
    (String.ofList (cs.takeWhile (· ≠ '=')), some (String.ofList attached))

def takeLong (r : Reader) (name : String) (p : Parameter) (attached : Option String) :
    Except UsageFault Reader :=
  match p.takesValue, attached with
  | true, some value => .ok (r.give p value)
  | true, none => .ok { r with pending := some (name, p) }
  | false, none => .ok (r.give p "")
  | false, some _ => .error (.takesNoValue name)

/-- Short options behind one dash; the first that takes a value takes the rest. -/
def takeShort (c : CommandSpec) (r : Reader) : List Char → Except UsageFault Reader
  | [] => .ok r
  | letter :: rest =>
    let name := String.ofList ['-', letter]
    match c.withName? name with
    | none => .error (.noSuchOption name [])
    | some p =>
      if !p.takesValue then takeShort c (r.give p "") rest
      else if rest.isEmpty then .ok { r with pending := some (name, p) }
      else .ok (r.give p (String.ofList rest))

/-- A name of two characters is no long name. -/
def longName? (c : CommandSpec) (name : String) : Option Parameter :=
  if Parameter.isShort name then none else c.withName? name

def takeOption (c : CommandSpec) (r : Reader) (argument : String) : Except UsageFault Reader :=
  let (name, attached) := splitAttached argument
  match longName? c name with
  | some p => r.takeLong name p attached
  | none =>
    match argument.toList with
    | '-' :: '-' :: _ => .error (.noSuchOption name (Text.suggestions name c.longNames))
    | _ :: letters => takeShort c r letters
    | [] => .ok r

def isOption (argument : String) : Bool :=
  match argument.toList with
  | '-' :: _ :: _ => true
  | _ => false

def take (c : CommandSpec) (r : Reader) (argument : String) : Except UsageFault Reader :=
  match r.pending with
  | some (_, p) => .ok (r.give p argument)
  | none =>
    if r.isPastOptions then .ok (r.addOperand argument)
    else if argument = "--" then .ok { r with isPastOptions := true }
    else if isOption argument then takeOption c r argument
    else .ok { r.addOperand argument with isPastOptions := c.isGroup }

def finish (r : Reader) : Except UsageFault Arguments :=
  match r.pending with
  | some (name, _) => .error (.needsValue name)
  | none => .ok r.read

end Reader

def read (c : CommandSpec) (arguments : List String) : Except UsageFault Arguments := do
  (← arguments.foldlM (Reader.take c) .start).finish

def lastValue? (a : Arguments) (p : Parameter) : Option String :=
  (a.given.filter fun g => g.parameter == p).getLast?.map Given.value

def parameters (a : Arguments) : List Parameter := (a.given.map Given.parameter).eraseDups

end Arguments
end FirmwareKit
