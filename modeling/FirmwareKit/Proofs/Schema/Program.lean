import FirmwareKit.Proofs.Files.Inquiry
import FirmwareKit.Schema.Validator
set_option autoImplicit false

/-!
# What programs come to

How a program that checks a configuration ends is decided by what it is answered: which texts are in
which formats, and what the look-ups give. Its run over a workspace only looks for files.
-/
namespace FirmwareKit.Schema

abbrev Formats := Format → String → Bool

def formatsOf (places : List String) (w : Workspace) : Formats
  | .number, text => (Value.text text).toInt?.isSome
  | .file, text => (((Search.within places).find? w .file text).map fun p => !p.isEmpty).getD false
  | .directory, text =>
    (((Search.within places).find? w .directory text).map fun p => !p.isEmpty).getD false
  | .fileName, text => !(Path.fileName (Path.withSlashes text)).isEmpty

variable {places : List String} {keyed : Bool} {w w' : Workspace}

theorem inquires_isFound (kind : Sought) (text : String) :
    Run.Inquires (Format.isFound places kind text) := (Run.Inquires.find? _ _ _).bind fun _ => .pure _

theorem inquires_admits (text : String) (format : Format) :
    Run.Inquires (format.admits places text) := by
  cases format with
  | number | fileName => exact .pure _
  | file | directory => exact inquires_isFound _ _

theorem ending_isFound (kind : Sought) (text : String) :
    (Format.isFound places kind text).ending w =
      .ok ((((Search.within places).find? w kind text).map fun p => !p.isEmpty).getD false) := by
  rw [Format.isFound, (Run.Inquires.find? _ _ _).ending_bind_eq fun _ => .pure _, Run.ending_find?]
  rfl

theorem ending_admits (text : String) (format : Format) :
    (format.admits places text).ending w = .ok (formatsOf places w format text) := by
  cases format with
  | number | fileName => rfl
  | file | directory => exact ending_isFound _ _

namespace Program
variable {α β : Type} {formats : Formats} {asks : Query → Prop} {P : α → Prop} {Q : β → Prop}
  {p : Program α}

theorem bind_pure_comp (p : Program α) : p >>= Program.pure = p := by
  induction p with
  | pure a => rfl
  | fail f => rfl
  | test format text next ih => exact congrArg (Program.test format text) (funext ih)
  | ask q next ih => exact congrArg (Program.ask q) (funext ih)

theorem bind_bind {γ : Type} (p : Program α) (k : α → Program β) (l : β → Program γ) :
    p >>= k >>= l = p >>= fun a => k a >>= l := by
  induction p with
  | pure a => rfl
  | fail f => rfl
  | test format text next ih => exact congrArg (Program.test format text) (funext ih)
  | ask q next ih => exact congrArg (Program.ask q) (funext ih)

instance : LawfulMonad Program := LawfulMonad.mk' Program bind_pure_comp (fun _ _ => rfl) bind_bind

def eval (formats : Formats) (keyed : Bool) : Program α → Except Fault α
  | .pure a => .ok a
  | .fail f => .error f
  | .test format text next => (next (formats format text)).eval formats keyed
  | .ask q next => q.answer keyed >>= fun a => (next a).eval formats keyed

@[simp] theorem eval_pure (a : α) : (Pure.pure a : Program α).eval formats keyed = .ok a := rfl

@[simp] theorem eval_fail (f : Fault) : (Program.fail f : Program α).eval formats keyed = .error f := rfl

@[simp] theorem eval_ofExcept (e : Except Fault α) : (ofExcept e).eval formats keyed = e := by
  cases e <;> rfl

theorem eval_bind (p : Program α) (k : α → Program β) :
    (p >>= k).eval formats keyed =
      (p.eval formats keyed >>= fun a => (k a).eval formats keyed) := by
  induction p with
  | pure a => rfl
  | fail f => rfl
  | test format text next ih => exact ih _
  | ask q next ih =>
    change (q.answer keyed >>= fun a => (next a >>= k).eval formats keyed) = _
    simp only [ih, eval, bind_assoc]

theorem ok_of_bind {k : α → Program β} {b : β} (h : (p >>= k).eval formats keyed = .ok b) :
    ∃ a, p.eval formats keyed = .ok a ∧ (k a).eval formats keyed = .ok b :=
  (Outcome.bind_eq_ok_iff _ _ _).mp ((eval_bind p k).symm.trans h)

theorem ok_of_map {f : α → β} {b : β} (h : (f <$> p).eval formats keyed = .ok b) :
    ∃ a, p.eval formats keyed = .ok a ∧ f a = b := by
  obtain ⟨a, ha, hb⟩ := ok_of_bind ((map_eq_pure_bind f p).symm ▸ h)
  exact ⟨a, ha, Except.ok.inj hb⟩

theorem inquires_run (places : List String) (keyed : Bool) (p : Program α) :
    Run.Inquires (p.run places keyed) := by
  induction p with
  | pure a => exact .pure a
  | fail f => exact .throw f
  | test format text next ih => exact (inquires_admits text format).bind ih
  | ask q next ih => exact (Run.Inquires.ofExcept _).bind ih

/-- How the run of a program ends depends on the files alone. -/
theorem ending_run (places : List String) (keyed : Bool) (p : Program α) (w : Workspace) :
    (p.run places keyed).ending w = p.eval (formatsOf places w) keyed := by
  induction p with
  | pure a => rfl
  | fail f => rfl
  | test format text next ih =>
    rw [run, (inquires_admits text format).ending_bind_eq fun _ => inquires_run _ _ _,
      ending_admits]
    exact ih _
  | ask q next ih =>
    rw [run, (Run.Inquires.ofExcept _).ending_bind_eq fun _ => inquires_run _ _ _, eval]
    cases q.answer keyed with
    | error f => rfl
    | ok a => exact ih a

/-- Everything that a program asks has one property, and its result has another. -/
def Meets (formats : Formats) (keyed : Bool) (asks : Query → Prop) (P : α → Prop) :
    Program α → Prop
  | .pure a => P a
  | .fail _ => True
  | .test format text next => (next (formats format text)).Meets formats keyed asks P
  | .ask q next =>
    asks q ∧ ∀ a, q.answer keyed = .ok a → (next a).Meets formats keyed asks P

theorem meets_pure {a : α} (h : P a) : (Pure.pure a : Program α).Meets formats keyed asks P := h

theorem Meets.bind {k : α → Program β} (h : p.Meets formats keyed asks P)
    (hk : ∀ a, P a → (k a).Meets formats keyed asks Q) : (p >>= k).Meets formats keyed asks Q := by
  induction p with
  | pure a => exact hk a h
  | fail f => trivial
  | test format text next ih => exact ih _ h
  | ask q next ih => exact ⟨h.1, fun a ha => ih a (h.2 a ha)⟩

theorem Meets.mono {P' : α → Prop} (h : p.Meets formats keyed asks P) (himp : ∀ a, P a → P' a) :
    p.Meets formats keyed asks P' := by
  induction p with
  | pure a => exact himp a h
  | fail f => trivial
  | test format text next ih => exact ih _ h
  | ask q next ih => exact ⟨h.1, fun a ha => ih a (h.2 a ha)⟩

theorem Meets.imp {asks' : Query → Prop} (h : p.Meets formats keyed asks P)
    (himp : ∀ q, asks q → asks' q) : p.Meets formats keyed asks' P := by
  induction p with
  | pure a => exact h
  | fail f => trivial
  | test format text next ih => exact ih _ h
  | ask q next ih => exact ⟨himp q h.1, fun a ha => ih a (h.2 a ha)⟩

theorem Meets.map {P : β → Prop} {f : α → β} (h : p.Meets formats keyed asks fun a => P (f a)) :
    (f <$> p).Meets formats keyed asks P := by
  rw [map_eq_pure_bind]
  exact h.bind fun _ ha => ha

theorem Meets.and_eval (h : p.Meets formats keyed asks P) :
    p.Meets formats keyed asks fun a => P a ∧ p.eval formats keyed = .ok a := by
  induction p with
  | pure a => exact ⟨h, rfl⟩
  | fail f => trivial
  | test format text next ih => exact ih _ h
  | ask q next ih =>
    refine ⟨h.1, fun a ha => (ih a (h.2 a ha)).mono fun b hb => ⟨hb.1, ?_⟩⟩
    rw [eval, ha]
    exact hb.2

theorem meets_of_eval (h : ∀ a, p.eval formats keyed = .ok a → P a) :
    p.Meets formats keyed (fun _ => True) P := by
  induction p with
  | pure a => exact h a rfl
  | fail f => trivial
  | test format text next ih => exact ih _ h
  | ask q next ih =>
    exact ⟨trivial, fun a ha => ih a fun b hb => h b (by rw [eval, ha]; exact hb)⟩

theorem meets_test (format : Format) (text : String) :
    (isInFormat format text).Meets formats keyed asks fun _ => True := trivial

theorem meets_ofExcept (e : Except Fault α) :
    (ofExcept e).Meets formats keyed asks fun a => e = .ok a := by
  cases e with
  | error f => trivial
  | ok a => exact rfl

end Program

end FirmwareKit.Schema
