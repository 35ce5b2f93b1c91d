import FirmwareKit.Fault
import FirmwareKit.Log.Note
set_option autoImplicit false

/-!
# Outcomes of a program

A program ends with an exit code, and with what it has printed as output and as errors. A fault
ends it too: faults of the application carry their code, other faults of the library exit with 2,
and all that nobody expected exits with 3.
-/
namespace FirmwareKit

structure Outcome where
  exit : Value
  output : String
  errors : String
  /-- What the end leaves in the log. -/
  note : Option Note

namespace Outcome

def expectedCode : Int := 2
def unexpectedCode : Int := 3

def success (output : String) : Outcome := ⟨.int 0, output, "", none⟩

def ended (code : Value) : Outcome := ⟨code, "", "", none⟩

def source : String := "wswantool.apps.utils.utils"

def noteOf (f : Fault) : Note := .debug source f.message

/-- A code from 1 to 255 is kept, any other becomes 1. -/
def exitCode (code : Value) : Except Fault Value :=
  match code.toNumber? with
  | none => .error (.system (.wrongType s!"'<' not supported between '{code.typeName}' and 'int'"))
  | some n =>
    .ok (if (Value.Number.int 0).compare? n = some .lt ∧ n.compare? (.int 256) = some .lt then code
      else .int 1)

def announcement (f : Fault) : String := s!"{f.kind.name}: {f.message}\n"

/-- A fault of the application says nothing where it has no description. -/
def ofApplication (f : Fault) : Except Fault Outcome := do
  match f with
  | .app description code =>
    return ⟨← exitCode code, "", if description.isTruthy then announcement f else "", none⟩
  | f => return ⟨.int 1, "", announcement f, none⟩

def logHint (path : String) : String := s!"See debug log file: {path} for more info\n"

/-- Faults that the library expects: its own, and assertions that fail. -/
def isExpected (f : Fault) : Bool :=
  f.kind.isOwn || f.kind.name == "AssertionError"

/-- How a fault ends the program. Where there is a debug log, expected faults point to it. -/
def ofFault (debugLog : Option String) (f : Fault) : Except Fault Outcome :=
  if f.kind = .app then ofApplication f
  else if isExpected f then
    .ok ⟨.int expectedCode, (debugLog.map logHint).getD "", announcement f, some (noteOf f)⟩
  else .ok ⟨.int unexpectedCode, "", "GENERAL ERROR: " ++ announcement f, some (noteOf f)⟩

end Outcome
end FirmwareKit
