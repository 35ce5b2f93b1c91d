import FirmwareKit.Proofs.Config.Home
import FirmwareKit.Proofs.Schema.Frame
import FirmwareKit.Proofs.Schema.Walk
set_option autoImplicit false

/-!
# Checks by key paths

The entries of a whole configuration are found by key paths, those of a plain mapping by their names.
A validation does the same either way if it only asks what both answer alike. It does so where every
key leads to its own value, also in what the defaults of a schema make of the configuration.
-/
namespace FirmwareKit.Schema
open Schema.Program

/-- Mappings in which the keys that are looked up lead to their own values, with the defaults and
the additions under which they stay so. -/
structure Order where
  IsDefault : Value → Prop
  IsAddition : String → Value → Prop
  IsListed : String → Prop
  all : Prop
  Holds : Value.Entries → Prop
  item {es : Value.Entries} {name : String} {v : Value} (h : Holds es) (hname : IsListed name)
    (hv : es.getText? name = some v) : Config.item es (.text name) = .ok v
  get {es : Value.Entries} {key : Value} (h : Holds es) (hall : all) (hkey : key ∈ es.map Prod.fst) :
    Config.get es key .null = .ok ((es.get? key).getD .null)
  put {es : Value.Entries} {key w : Value} (h : Holds es)
    (hasked : all ∨ ∃ name, key = .text name ∧ IsListed name) (hkey : key ∈ es.map Prod.fst)
    (hw : Grows IsDefault ((es.get? key).getD .null) w) :
    Config.put es key w = es.insert key w ∧ Holds (es.insert key w)
  add {es : Value.Entries} {name : String} {d : Value} (h : Holds es)
    (hnew : es.getText? name = none) (hd : IsDefault d) (hadd : IsAddition name d) :
    Holds (es.insert (.text name) d)

namespace Order
variable {formats : Formats} {keyed : Bool} {o : Order} {s : Spot} {es : Value.Entries} {key : Value}

end Order
end FirmwareKit.Schema

namespace FirmwareKit.Validation
open Schema Schema.Program
variable {V : Validator} {c : Validation} {es : Value.Entries} {w : Workspace}

end FirmwareKit.Validation
