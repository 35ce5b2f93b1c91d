import FirmwareKit.Proofs.Schema.Keyed
set_option autoImplicit false

/-!
# What is told of alternatives

The explanation of failed alternatives tries each of them again, on what the check has made of the
value, and tells of each in its turn whether it has passed or why it has failed. Where the
alternatives leave the value as it is, that is what the check has found: none has passed where one has
to hold, and not exactly one has where exactly one has to. Where an alternative adds a default, those
before it may pass when they are tried again.
-/
namespace FirmwareKit.Schema
open Schema.Program

namespace Validator
variable {V : Validator} {formats : Formats} {keyed : Bool} {t : Subject} {d : V.Definition}
  {ds : List V.Definition} {choice : Choice} {tell : Failure V.Definition → Program String}

end Validator

/-! ## Alternatives of rules -/

variable {formats : Formats} {keyed : Bool} {t : Subject}

def Frame.anything (formats : Formats) (keyed : Bool) : Frame formats keyed where
  asks _ := True
  Grown _ _ := True
  IsDefault _ := True
  IsAddition _ _ := True
  IsListed _ := True
  all := True
  Fits _ := True
  Has _ _ := True
  refl _ := trivial
  trans _ _ := trivial
  item _ _ _ := trivial
  append _ _ := trivial
  enter _ _ _ _ := ⟨trivial, fun _ => trivial⟩
  has _ := trivial
  listed _ _ _ := meets_of_eval fun _ _ _ _ =>
    meets_of_eval fun _ _ => ⟨trivial, fun _ => trivial, fun _ _ => trivial⟩
  others _ _ _ := meets_of_eval fun _ _ _ _ =>
    meets_of_eval fun _ _ => ⟨trivial, fun _ => trivial, fun _ _ => trivial⟩

end FirmwareKit.Schema

namespace FirmwareKit.Validation
open Run Schema
variable {c : Validation} {keyed : Bool} {v : Value} {w : Workspace}

end FirmwareKit.Validation
