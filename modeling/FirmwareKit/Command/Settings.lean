import FirmwareKit.Command.Arguments
import FirmwareKit.Files.Workspace
import FirmwareKit.Value.Conversion
set_option autoImplicit false

namespace FirmwareKit

structure Settings where
  values : List (Parameter × Value)
  operands : List String

inductive Settings.Refusal where
  | usage (fault : UsageFault)
  | help
  | version
  | fault (fault : Fault)

namespace Settings

def checkFile (w : Workspace) (mustExist isResolved : Bool) (hint given : String) :
    Except Refusal Value :=
  let path := if isResolved then Path.resolved w.directoryPath given else given
  if FileTree.hasNul given then .error (.fault (.system .nulCharacter))
  else match w.tree.lookup? w.directory path with
    | some (_, .directory) => .error (.usage (.isDirectory hint given))
    | some (_, .file _) => .ok (.text path)
    | none => if mustExist then .error (.usage (.noSuchFile hint given)) else .ok (.text path)

def check (w : Workspace) (hint : String) (k : Parameter.Kind) (given : String) :
    Except Refusal Value :=
  match k with
  | .text => .ok (.text given)
  | .file mustExist isResolved => checkFile w mustExist isResolved hint given
  | .integer =>
    match Numeral.readParameter 0 (.text given) with
    | .ok v => .ok v
    | .error _ => .error (.usage (.notInteger hint given))

def shown : Parameter.Role → Option Refusal
  | .showsHelp => some .help
  | .showsVersion => some .version
  | _ => none

def request (a : Arguments) : Except Refusal Unit :=
  match a.given.findSome? fun g => shown g.parameter.role with
  | some r => .error r
  | none => .ok ()

def given (w : Workspace) (a : Arguments) :
    List Parameter → Except Refusal (List (Parameter × Value))
  | [] => .ok []
  | p :: rest =>
    match p.role, a.lastValue? p with
    | .takes kind _, some value => do
      let v ← check w p.hint kind value
      return (p, v) :: (← given w a rest)
    | _, _ => given w a rest

def checkOperands (w : Workspace) (c : CommandSpec) (a : Arguments) : Except Refusal Unit :=
  match c.operands with
  | none => .ok ()
  | some o =>
    if a.operands.isEmpty then .error (.usage (.missingOperands o.hint))
    else a.operands.forM fun given => (fun _ => ()) <$> check w o.hint o.kind given

def checkRequired (c : CommandSpec) (a : Arguments) : Except Refusal Unit :=
  match c.parameters.find? fun p => p.isRequired && (a.lastValue? p).isNone with
  | some p => .error (.usage (.missingOption p.hint))
  | none => .ok ()

def checkExtra (c : CommandSpec) (a : Arguments) : Except Refusal Unit :=
  if c.operands.isNone && !c.isGroup && !a.operands.isEmpty then
    .error (.usage (.extraOperands a.operands))
  else .ok ()

/-- The checks in order: requests, what is given, what is missing, what is too much. -/
def ofArguments (w : Workspace) (c : CommandSpec) (arguments : List String) :
    Except Refusal Settings := do
  let a ← (Arguments.read c arguments).mapError Refusal.usage
  request a
  let values ← given w a a.parameters
  checkOperands w c a
  checkRequired c a
  checkExtra c a
  return ⟨values, a.operands⟩

def value? (s : Settings) (key : String) : Option Value :=
  (s.values.find? fun e => e.1.key == key).map Prod.snd

def text? (s : Settings) (key : String) : Option String :=
  match s.value? key with
  | some (.text t) => some t
  | _ => none

def integer? (s : Settings) (key : String) : Option Int :=
  match s.value? key with
  | some (.int n) => some n
  | _ => none

def level? (a : Arguments) : Option Level :=
  (a.given.filterMap fun g => match g.parameter.role with
    | .sets l => some l
    | _ => none).getLast?

end Settings
end FirmwareKit
