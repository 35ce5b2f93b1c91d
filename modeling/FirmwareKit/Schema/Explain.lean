import FirmwareKit.Schema.Validator
set_option autoImplicit false

namespace FirmwareKit.Schema

def text? : Value → Option String
  | .text s => some s
  | _ => none

def listNames (vs : List Value) : Except Fault String :=
  match vs.mapM text? with
  | some ss => .ok (", ".intercalate ss)
  | none =>
    let i := vs.findIdx fun v => (text? v).isNone
    let found := ((vs[i]?).getD .null).typeName
    .error (.system (.wrongType s!"sequence item {i}: expected str instance, {found} found"))

def missingNames (names : List Value) (v : Value) : Except Fault (List Value) :=
  match v with
  | .map es => .ok (names.filter fun n => (Value.Entries.get? es n).isNone)
  | v => if names.isEmpty then .ok [] else .error (.system (.noAttribute v "keys"))

def written (v : Value) : Except Fault String :=
  if v.isOverlong then .error (.system .overlongInteger) else .ok v.display

def formatRemark (format : String) (v : Value) : Except Fault String :=
  match format with
  | "file" => (written v).map fun text => s!"; Non-existing file: {text}"
  | "number" => (written v).map fun text => s!"; Value '{text}' is not a valid number"
  | _ => .ok ""

def requiredRemark (names : List Value) (v : Value) : Except Fault String := do
  let text ← listNames (← missingNames names v)
  pure s!"; Missing field(s): {text}"

inductive Trial where
  | passed
  | failed (reason : String)
deriving DecidableEq, Repr

def Trial.text (choice : Choice) (i : Nat) : Trial → String
  | .passed => s!"\nRule#{i} passed.\n"
  | .failed reason => s!"\nReason of fail for {choice.keyword} rule#{i}: \n {reason}\n"

def report (choice : Choice) : Nat → List Trial → String
  | _, [] => ""
  | i, t :: ts => t.text choice i ++ report choice (i + 1) ts

namespace Validator
variable (V : Validator)

def checkAlone (d : V.Definition) (s : Subject) : Program (Outcome V.Definition) := do
  let code ← Program.ofExcept (V.recompile d)
  V.check code s

def judge (tell : Failure V.Definition → Program String) (o : Outcome V.Definition) :
    Program (Value × Trial) :=
  match o.failure with
  | none => pure (o.value, .passed)
  | some f => do
    let reason ← tell f
    pure (o.value, .failed reason)

/-- Alternatives are tried one after the other, each on what has become of the value. -/
def trials (tell : Failure V.Definition → Program String) :
    List V.Definition → Subject → Program (List Trial)
  | [], _ => pure []
  | d :: rest, s => do
    let a ← V.checkAlone d s >>= V.judge tell
    let ts ← trials tell rest (s.with a.1)
    pure (a.2 :: ts)

def explain (room : Nat) (f : Failure V.Definition) : Program String :=
  match f.cause, room with
  | .other, _ => pure f.message
  | .format name, _ => do
    let remark ← Program.ofExcept (formatRemark name f.subject.value)
    pure (f.message ++ remark)
  | .required names, _ => do
    let remark ← Program.ofExcept (requiredRemark names f.subject.value)
    pure (f.message ++ remark)
  | .alternatives .., 0 =>
    Program.system (.recursion "maximum recursion depth exceeded")
  | .alternatives choice definitions, room + 1 => do
    let ts ← V.trials (explain room) definitions f.subject
    pure (f.message ++ report choice 0 ts)

def explanation (f : Failure V.Definition) : Program String := V.explain (V.room + 1) f

end Validator
end FirmwareKit.Schema
