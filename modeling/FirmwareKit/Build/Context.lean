import FirmwareKit.Files.Reference
set_option autoImplicit false

namespace FirmwareKit

/-- The directory for temporary files. One that was given stays; one that is owned lasts until the
step ends. -/
inductive Scratch where
  | none
  | given (path : String)
  | owned (path : String)
deriving DecidableEq, Repr

def Scratch.path? : Scratch → Option String
  | .none => Option.none
  | .given path | .owned path => some path

structure BuildContext where
  scratch : Scratch
  dependencies : List String
  targets : List String
  allocated : Nat
deriving DecidableEq, Repr

namespace BuildContext

def ofDirectory? (path : Option String) : BuildContext :=
  ⟨match path with
    | some p => .given p
    | none => .none, [], [], 0⟩

def isActive (c : BuildContext) : Bool := c.scratch.path?.isSome

def temporaryName (number : Nat) (extension : String) : String :=
  "wf" ++ String.ofList (Text.padLeft 5 '0' (Text.decimal number)) ++ extension

def allocate (c : BuildContext) (extension : String) : Except Fault (String × BuildContext) :=
  match c.scratch.path? with
  | none => .error .contextInactive
  | some directory =>
    let number := c.allocated + 1
    .ok (Path.join directory (temporaryName number extension), { c with allocated := number })

def writes (mode : String) : Bool := mode.toList.any fun m => m = 'w' ∨ m = 'a' ∨ m = 'x'

def noteOnce (paths : List String) (path : String) : List String :=
  if paths.contains path then paths else paths ++ [path]

/-- Records that a file was opened, as a target if the mode writes and else as a dependency. -/
def access (c : BuildContext) (path mode : String) : BuildContext :=
  let path := Path.withSlashes path
  if writes mode then { c with targets := noteOnce c.targets path }
  else { c with dependencies := noteOnce c.dependencies path }

def ruleText (targets dependencies : List String) : String :=
  " ".intercalate targets ++ ":"
    ++ String.join (dependencies.map fun d => " \\\n  " ++ d) ++ "\n"

/-- An empty target counts as none; without one the recorded targets are taken. -/
def ruleTargets (c : BuildContext) (target : Option String) : List String :=
  match target with
  | some t => if t.isEmpty then c.targets else [t]
  | none => c.targets

def rule (c : BuildContext) (target : Option String) : Except Fault String :=
  let targets := c.ruleTargets target
  if targets.isEmpty then .error .noTarget else .ok (ruleText targets c.dependencies)

end BuildContext
end FirmwareKit
