import Mathlib.Data.List.TakeWhile
import FirmwareKit.Proofs.Script.Statements
set_option autoImplicit false

namespace FirmwareKit.Script

theorem writable_of_not_overlong {cs : List Command} (h : isOverlong cs = false) :
    writable cs = cs := by
  rw [writable, List.takeWhile_eq_self_iff]
  intro c hc
  rw [isOverlong, List.any_eq_false] at h
  simpa using h c hc

namespace Emitter

theorem writeTo_sink (e : Emitter) (sink : String) (s : Step) :
    (e.writeTo sink s).sink = sink ++ render (writable (e.commands s)) := by
  cases h : isOverlong (e.commands s) with
  | true => simp [writeTo, h]
  | false => simp [writeTo, h, writable_of_not_overlong h]

theorem write_eq_ok_iff {e f : Emitter} {s : Step} {text : String} :
    e.write s = .ok (text, f) ↔ isOverlong (e.commands s) = false ∧
      text = render (e.commands s) ∧ f = { e with chainHead := e.chainHeadAfter s } := by
  cases ho : isOverlong (e.commands s) with
  | true => simp [write, ho]
  | false => simp [write, ho, eq_comm]

theorem writeTo_of_write {e f : Emitter} {s : Step} {text : String}
    (h : e.write s = .ok (text, f)) (sink : String) :
    e.writeTo sink s = ⟨sink ++ text, f, none⟩ := by
  obtain ⟨ho, rfl, rfl⟩ := write_eq_ok_iff.mp h
  simp [writeTo, ho]

theorem writeTo_of_error {e : Emitter} {s : Step} {f : Fault} (h : e.write s = .error f)
    (sink : String) : (e.writeTo sink s).fault? = some f := by
  cases ho : isOverlong (e.commands s) with
  | true =>
    simp only [write, ho, if_true, Except.error.injEq] at h
    simp [writeTo, ho, h]
  | false => simp [write, ho] at h

end Emitter

section Emit
variable {l : Layout} {constants : Value.Entries} {romStart romLength : Value} {date : String}

theorem emitTo_of_emit {text : String}
    (h : emit l constants romStart romLength date = .ok text) (sink : String) :
    emitTo sink l constants romStart romLength date = (sink ++ text, none) := by
  obtain ⟨e, hmake, h⟩ := (Outcome.bind_eq_ok_iff _ _ _).mp h
  obtain ⟨⟨written, f⟩, hwrite, h⟩ := (Outcome.bind_eq_ok_iff _ _ _).mp h
  cases h
  simp only [emitTo, hmake, Emitter.writeTo_of_write hwrite sink]

theorem emitTo_of_error {f : Fault} (h : emit l constants romStart romLength date = .error f)
    (sink : String) : (emitTo sink l constants romStart romLength date).2 = some f := by
  unfold emit at h
  cases hmake : Emitter.make l constants romStart romLength defaultProgramName with
  | error f' =>
    rw [hmake] at h
    cases h
    simp only [emitTo, hmake]
  | ok e =>
    cases hwrite : e.write (.script date) with
    | ok written =>
      rw [hmake, Outcome.ok_bind, hwrite] at h
      cases h
    | error f' =>
      rw [hmake, Outcome.ok_bind, hwrite] at h
      cases h
      simp only [emitTo, hmake, Emitter.writeTo_of_error hwrite sink]

end Emit
end FirmwareKit.Script
