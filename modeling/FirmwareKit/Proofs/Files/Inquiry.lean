import FirmwareKit.Proofs.Ending
import FirmwareKit.Proofs.Files.Frame
set_option autoImplicit false

namespace FirmwareKit

def Workspace.warnings (w : Workspace) : List Note := w.notes.filter fun n => n.level = .warning

def Workspace.noting (w : Workspace) (notes : List Note) : Workspace :=
  { w with notes := w.notes ++ notes }

@[simp] theorem Workspace.noting_nil (w : Workspace) : w.noting [] = w := by
  rw [noting, List.append_nil]

theorem Workspace.noting_noting (w : Workspace) (first second : List Note) :
    (w.noting first).noting second = w.noting (first ++ second) := by
  rw [noting, noting, noting, List.append_assoc]

def Workspace.SameWarnings (w w' : Workspace) : Prop := w'.warnings = w.warnings

instance : Std.Refl Workspace.SameWarnings := ⟨fun _ => rfl⟩

instance : Trans Workspace.SameWarnings Workspace.SameWarnings Workspace.SameWarnings :=
  ⟨fun h h' => Eq.trans h' h⟩

theorem Workspace.SameFiles.symm {w w' : Workspace} (h : w.SameFiles w') : w'.SameFiles w :=
  ⟨h.tree.symm, h.directory.symm⟩

namespace Run

/-- Runs that are put together from results, faults, debug notes and searches for files. -/
inductive Inquires : {α : Type} → Run α → Prop
  | pure {α : Type} (a : α) : Inquires (pure a)
  | throw {α : Type} (f : Fault) : Inquires (throw f : Run α)
  | debug (source text : String) : Inquires (note (.debug source text))
  | find? (kind : Sought) (s : Search) (path : String) : Inquires (find? kind s path)
  | bind {α β : Type} {r : Run α} {k : α → Run β} (hr : Inquires r) (hk : ∀ a, Inquires (k a)) :
    Inquires (r >>= k)

namespace Inquires
variable {α : Type} {r : Run α}

theorem ofExcept (e : Except Fault α) : Inquires (Run.ofExcept e) := by
  cases e with
  | error f => exact .throw f
  | ok a => exact .pure a

theorem fail (f : Fault) : Inquires (Run.fail f : Run α) := .ofExcept _

theorem system (f : SystemFault) : Inquires (Run.system f : Run α) := .throw _

theorem reads (h : Inquires r) : Reads r := by
  induction h with
  | pure a => exact keeps_pure a
  | throw f => exact keeps_throw f
  | debug source text => exact reads_note _
  | find? kind s path => exact reads_find? kind s path
  | bind hr hk ihr ihk => exact ihr.bind ihk

theorem warnings (h : Inquires r) : Keeps Workspace.SameWarnings r := by
  have hdebug (source text : String) :
      Keeps Workspace.SameWarnings (note (.debug source text)) := by
    intro w
    change List.filter _ (w.notes ++ [_]) = List.filter _ w.notes
    rw [List.filter_append]
    exact List.append_nil _
  induction h with
  | pure a => exact keeps_pure a
  | throw f => exact keeps_throw f
  | debug source text => exact hdebug source text
  | find? kind s path =>
    refine keeps_get.bind fun w => ?_
    split
    · exact keeps_pure _
    · split
      · exact keeps_pure _
      · exact (hdebug _ _).bind fun _ => keeps_pure _
  | bind hr hk ihr ihk => exact ihr.bind ihk

end Inquires

theorem ending_get {α : Type} (k : Workspace → Run α) (w : Workspace) :
    (get >>= k).ending w = (k w).ending w := rfl

/-- A search for something that need not be there ends well. -/
theorem ending_find? (kind : Sought) (s : Search) (path : String) (w : Workspace) :
    (find? kind s path).ending w = .ok (s.find? w kind path) := by
  rw [find?, ending_get]
  cases s.find? w kind path with
  | some p => rfl
  | none =>
    dsimp only
    split <;> rfl

/-- How such a run ends is decided by the files. -/
theorem Inquires.ending_eq {α : Type} {r : Run α} (h : Inquires r) {w w' : Workspace}
    (hw : w.SameFiles w') : r.ending w' = r.ending w := by
  induction h generalizing w w' with
  | pure a => rfl
  | throw f => rfl
  | debug source text => rfl
  | find? kind s path => rw [ending_find?, ending_find?, Search.find?_congr hw]
  | @bind _ _ r k hr hk ihr ihk =>
    have hend := ihr hw
    have hleft : (left r w).SameFiles (left r w') :=
      Trans.trans (hr.reads w).symm (Trans.trans hw (hr.reads w'))
    rw [ending, ending, bind_apply, bind_apply]
    rw [ending, ending] at hend
    rw [left, left] at hleft
    generalize r w = first at hend hleft
    generalize r w' = second at hend hleft
    cases first <;> cases second <;> cases hend
    · exact ihk _ hleft
    · rfl

/-- What only reads may go before such a run. -/
theorem Inquires.ending_bind {α β : Type} {r : Run α} {k : α → Run β} {a : α} {w : Workspace}
    (hk : Inquires (k a)) (hreads : Reads r) (hr : r.ending w = .ok a) :
    (r >>= k).ending w = (k a).ending w := by
  have hsame := hreads w
  rw [ending] at hr
  rw [ending, bind_apply]
  rw [left] at hsame
  generalize r w = result at hr hsame
  cases result with
  | ok b u =>
    cases hr
    exact hk.ending_eq hsame
  | error f u => cases hr

theorem ending_bind_of_error {α β : Type} {r : Run α} {k : α → Run β} {f : Fault} {w : Workspace}
    (hr : r.ending w = .error f) : (r >>= k).ending w = .error f := by
  rw [ending] at hr
  rw [ending, bind_apply]
  generalize r w = result at hr
  cases result with
  | ok b u => cases hr
  | error g u =>
    cases hr
    rfl

/-- What follows such a run may start from where that run has started. -/
theorem Inquires.ending_bind_eq {α β : Type} {r : Run α} {k : α → Run β} (hr : Inquires r)
    (hk : ∀ a, Inquires (k a)) (w : Workspace) :
    (r >>= k).ending w = (r.ending w >>= fun a => (k a).ending w) := by
  cases hend : r.ending w with
  | ok a => exact (hk a).ending_bind hr.reads hend
  | error f => exact ending_bind_of_error hend

theorem Inquires.ok_of_bind {α β : Type} {r : Run α} {k : α → Run β} {w : Workspace} {b : β}
    (hr : Inquires r) (hk : ∀ a, Inquires (k a)) (h : (r >>= k).ending w = .ok b) :
    ∃ a, r.ending w = .ok a ∧ (k a).ending w = .ok b := by
  rw [hr.ending_bind_eq hk] at h
  cases hend : r.ending w with
  | ok a =>
    rw [hend] at h
    exact ⟨a, rfl, h⟩
  | error f =>
    rw [hend] at h
    cases h

end Run
end FirmwareKit
