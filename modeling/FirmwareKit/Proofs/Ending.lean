import FirmwareKit.Log.Reported
import FirmwareKit.Proofs.Sequence
set_option autoImplicit false

namespace FirmwareKit

def Workspace.bare : Workspace := ⟨.empty, [], [], "/tmp", 0, .usual⟩

theorem Outcome.exists_of_any {ε α : Type} {e : Except ε α} {p : α → Bool}
    (h : e.toOption.any p = true) : ∃ a, e = .ok a ∧ p a = true := by
  cases e with
  | error => cases h
  | ok a => exact ⟨a, rfl, h⟩

namespace Run
variable {α β : Type}

def ending (r : Run α) (w : Workspace) : Except Fault α :=
  match r w with
  | .ok a _ => .ok a
  | .error f _ => .error f

/-- How a run ends for a caller who tells faults apart by their kinds. -/
def outcome (r : Run α) (w : Workspace) : Except Fault.Kind α := (r.ending w).mapError Fault.kind

def Ends (r : Run α) (e : Except Fault α) : Prop := ∀ w, r.ending w = e

theorem bind_apply (r : Run α) (k : α → Run β) (w : Workspace) :
    (r >>= k) w =
      match r w with
      | .ok a w' => k a w'
      | .error f w' => .error f w' := by
  change EStateM.bind r k w = _
  rw [EStateM.bind]
  cases r w <;> rfl

theorem Ends.bind {r : Run α} {e : Except Fault α} {f : α → Run β} {g : α → Except Fault β}
    (hr : Ends r e) (hf : ∀ a, Ends (f a) (g a)) : Ends (r >>= f) (e >>= g) := by
  intro w
  have hw := hr w
  rw [ending] at hw ⊢
  rw [bind_apply]
  generalize r w = result at hw
  cases result with
  | ok a w' => exact hw ▸ hf a w'
  | error fault w' => exact hw ▸ rfl

theorem Ends.outcome {r : Run α} {e : Except Fault α} (h : Ends r e) (w : Workspace) :
    r.outcome w = e.mapError Fault.kind := by
  rw [Run.outcome, h w]

theorem ending_bind {r : Run α} {f : α → Run β} {g : α → Except Fault β}
    (hf : ∀ a, Ends (f a) (g a)) (w : Workspace) : (r >>= f).ending w = (r.ending w >>= g) := by
  rw [ending, ending, bind_apply]
  cases r w with
  | ok a w' => exact hf a w'
  | error fault w' => rfl

/-- What follows a run may start from any workspace, so it has to end the same way from all. -/
theorem outcome_bind {r : Run α} {f : α → Run β} {g : α → Except Fault.Kind β}
    (hf : ∀ a w, (f a).outcome w = g a) (w : Workspace) :
    (r >>= f).outcome w = (r.outcome w >>= g) := by
  rw [outcome, outcome, ending, ending, bind_apply]
  cases r w with
  | ok a w' => exact hf a w'
  | error fault w' => rfl

/-- A fault that is caught and thrown again in other words. -/
theorem ending_rethrow (r : Run α) (g : Fault → Fault) (w : Workspace) :
    (tryCatch r fun f => throw (g f)).ending w = (r.ending w).mapError g := by
  rw [ending, ending]
  change (match EStateM.tryCatch r (fun f => throw (g f)) w with
    | .ok a _ => Except.ok a
    | .error f _ => .error f) = _
  delta EStateM.tryCatch
  dsimp only
  cases r w <;> rfl

theorem ending_pure (a : α) (w : Workspace) : (pure a : Run α).ending w = .ok a := rfl

theorem ends_pure (a : α) : Ends (pure a) (.ok a) := ending_pure a

theorem ends_ofExcept (e : Except Fault α) : Ends (ofExcept e) e := by
  intro w
  cases e <;> rfl

theorem ends_note (n : Note) : Ends (note n) (.ok ()) := fun _ => rfl

theorem ends_normalize (entries : Value.Entries) (model : Value) :
    Ends (normalize entries model) (Memory.normalize entries model) := by
  have h : Ends (normalize entries model)
      (Memory.normalize entries model >>= fun l => Except.ok () >>= fun _ => .ok l) :=
    (ends_ofExcept _).bind fun l => (ends_note _).bind fun _ => ends_pure l
  intro w
  rw [h w]
  cases Memory.normalize entries model <;> rfl

theorem ends_emit (layout : Layout) (constants : Value.Entries) (romStart romLength : Value)
    (date : String) :
    Ends (emit layout constants romStart romLength date)
      (Script.emit layout constants romStart romLength date) := by
  have h : Ends (emit layout constants romStart romLength date)
      (Script.Emitter.make layout constants romStart romLength Script.defaultProgramName >>=
        fun e => Except.ok () >>= fun _ => (e.write (.script date)).map Prod.fst) :=
    (ends_ofExcept _).bind fun _ => (ends_note _).bind fun _ => ends_ofExcept _
  intro w
  rw [h w, Script.emit]
  cases Script.Emitter.make layout constants romStart romLength Script.defaultProgramName with
  | error f => simp only [Outcome.error_bind]
  | ok e =>
    simp only [Outcome.ok_bind]
    generalize e.write (.script date) = written
    rcases written with f | ⟨text, after⟩
    · rfl
    · rfl

end Run
end FirmwareKit
