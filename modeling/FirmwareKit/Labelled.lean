import FirmwareKit.Text.Upper
set_option autoImplicit false

namespace FirmwareKit

class Labelled (α : Type) where
  typeName : String
  members : List α
  name : α → String
  tag : α → Nat
  label : α → String
  description : α → String

namespace Labelled
variable {α : Type} [Labelled α]

def labels (α : Type) [Labelled α] : List String := (members : List α).map label

def ofTag? (tag : Nat) : Option α := members.find? fun m => Labelled.tag m == tag

def ofLabel? (text : String) : Option α :=
  members.find? fun m => Text.upper (label m) == Text.upper text

def ofName? (text : String) : Option α := members.find? fun m => name m == text

theorem mem_of_ofLabel? {text : String} {m : α} (h : ofLabel? text = some m) :
    m ∈ (members : List α) :=
  List.mem_of_find?_eq_some h

end Labelled
end FirmwareKit
