import FirmwareKit.Proofs.Schema.Program
import FirmwareKit.Schema.Validate
set_option autoImplicit false

namespace FirmwareKit.Schema
open Run

theorem inquires_logSchema (schema v : Value) : Inquires (Validation.logSchema schema v) :=
  (Inquires.ofExcept _).bind fun _ => (Inquires.debug _ _).bind fun _ =>
    (Inquires.ofExcept _).bind fun _ => Inquires.debug _ _

theorem reads_reportUnknown (schema v : Value) : Reads (reportUnknown schema v) := by
  unfold reportUnknown
  split
  · split
    · refine (Keeps.forM (fun _ => reads_note _) _).bind fun _ => ?_
      split
      · exact keeps_throw _
      · exact keeps_pure _
    · exact keeps_pure _
  · exact keeps_pure _

end FirmwareKit.Schema

namespace FirmwareKit.Validation
open Run Schema
variable {V : Validator} {w : Workspace}

def unreporting (c : Validation) : Validation := { c with reportsUnknown := false }

theorem inquires_opening (c : Validation) (v : Value) : Inquires (c.unreporting.opening v) := by
  change Inquires (if c.verbose then logSchema (mergeAll c.parts) v else pure ())
  split
  · exact inquires_logSchema _ _
  · exact .pure _

/-- Unknown entries are reported before all else. -/
theorem opening_eq (c : Validation) (v : Value) :
    c.opening v =
      if c.reportsUnknown then
        reportUnknown (mergeAll c.parts) v >>= fun _ => c.unreporting.opening v
      else c.unreporting.opening v := rfl

theorem run_eq (V : Validator) (c : Validation) (keyed : Bool) (v : Value) :
    c.run V keyed v =
      if c.reportsUnknown then
        reportUnknown (mergeAll c.parts) v >>= fun _ => c.unreporting.run V keyed v
      else c.unreporting.run V keyed v := by
  have hrun (c : Validation) : c.run V keyed v = c.opening v >>= fun _ =>
      (c.verdict V v).run c.places keyed := rfl
  rw [hrun, hrun, opening_eq]
  split
  · rw [bind_assoc]
    rfl
  · rfl

theorem reads_opening (c : Validation) (v : Value) : Reads (c.opening v) := by
  rw [opening_eq]
  exact (reads_reportUnknown _ _).after (inquires_opening c v).reads _

theorem inquires_run (V : Validator) (c : Validation) (keyed : Bool) (v : Value) :
    Inquires (c.unreporting.run V keyed v) :=
  (inquires_opening c v).bind fun _ => Program.inquires_run _ _ _

theorem reads_run (V : Validator) (c : Validation) (keyed : Bool) (v : Value) :
    Reads (c.run V keyed v) :=
  (reads_opening c v).bind fun _ => (Program.inquires_run _ _ _).reads

/-- What a check comes to is passed, or explained. -/
theorem eval_verdict {c : Validation} {v : Value} {code : V.Code} {formats : Formats} {keyed : Bool}
    (h : V.compile (mergeAll c.parts) = .ok code) :
    (c.verdict V v).eval formats keyed =
      ((V.check code ⟨true, v⟩).eval formats keyed >>= fun o =>
        match o.failure with
        | none => .ok ()
        | some f => (V.explanation f).eval formats keyed >>= fun reason =>
          .error (.validationFailed reason)) := by
  rw [verdict, h, Program.eval_bind, Program.eval_ofExcept]
  change (V.check code ⟨true, v⟩ >>= _).eval formats keyed = _
  rw [Program.eval_bind]
  refine congrArg (_ >>= ·) (funext fun o => ?_)
  cases o.failure with
  | none => rfl
  | some f => exact Program.eval_bind _ _

end FirmwareKit.Validation
