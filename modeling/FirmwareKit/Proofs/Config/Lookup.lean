import FirmwareKit.Config.Lookup
import FirmwareKit.Proofs.Value.Proper
set_option autoImplicit false

namespace FirmwareKit.Config

def given? : Option Value → Option Value
  | some .null => none
  | v => v

def missing (entries : Value.Entries) (key : String) : Fault :=
  if (Value.map entries).isOverlong then .system .overlongInteger
  else .missingKey (.text key) (.map entries)

theorem raise_missingKey (entries : Value.Entries) (key : String) {α : Type} :
    ((Fault.missingKey (.text key) (.map entries)).raise : Except Fault α) =
      .error (missing entries key) := by
  have hshown : (Fault.missingKey (.text key) (.map entries)).shownValues.any Value.isOverlong =
      (Value.map entries).isOverlong := by
    simp [Fault.shownValues, Value.isOverlong]
  rw [Fault.raise, Fault.shown, hshown]
  rfl

theorem step_map (entries inner : Value.Entries) (key : String) :
    step (.map entries) (.map inner) (.text key) =
      match given? (inner.getText? key) with
      | some v => .ok v
      | none => .error (missing entries key) := by
  simp only [step, raise_missingKey, Value.Entries.getText?]
  cases inner.get? (.text key) with
  | none => rfl
  | some v => cases v <;> rfl

section Name
variable {name : String} (hname : keyPath (.text name) = [.text name]) (entries : Value.Entries)
include hname

theorem item_name :
    item entries (.text name) =
      match given? (entries.getText? name) with
      | some v => .ok v
      | none => .error (missing entries name) := by
  rw [item, hname, follow, step_map]
  cases given? (entries.getText? name) with
  | some v => rfl
  | none =>
    change (if (missing entries name).kind = .key then _ else _) = _
    split <;> rfl

theorem get_name (default : Value) :
    get entries (.text name) default =
      match given? (entries.getText? name) with
      | some v => .ok v
      | none =>
        if (Value.map entries).isOverlong then .error (.system .overlongInteger)
        else .ok default := by
  rw [get, item_name hname]
  cases given? (entries.getText? name) with
  | some v => rfl
  | none =>
    simp only [missing]
    split <;> rfl

end Name

section Path
variable {key outer part : String} (hpath : keyPath (.text key) = [.text outer, .text part])
  {entries inner : Value.Entries} (houter : entries.getText? outer = some (.map inner))
include hpath houter

theorem get_path (default : Value) :
    get entries (.text key) default =
      match given? (inner.getText? part) with
      | some v => .ok v
      | none =>
        if (Value.map entries).isOverlong then .error (.system .overlongInteger)
        else .ok ((given? (entries.getText? key)).getD default) := by
  have hgiven : given? (entries.getText? outer) = some (.map inner) := by
    rw [houter]
    rfl
  rw [get, item, hpath]
  simp only [follow, step_map, hgiven]
  cases given? (inner.getText? part) with
  | some v => rfl
  | none =>
    by_cases hlong : (Value.map entries).isOverlong = true
    · simp only [missing, if_pos hlong]
      rfl
    · simp only [missing, if_neg hlong]
      cases given? (entries.getText? key) <;> rfl

end Path

end FirmwareKit.Config
