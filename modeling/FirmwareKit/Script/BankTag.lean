import FirmwareKit.Labelled
set_option autoImplicit false

namespace FirmwareKit

inductive BankTag where
  | primary
  | shadow
  | mirror
deriving DecidableEq, Repr, Inhabited

namespace BankTag

def suffix : BankTag → String
  | .primary => ""
  | .shadow => "!"
  | .mirror => "&"

instance : Labelled BankTag where
  typeName := "BankTag"
  members := [.primary, .shadow, .mirror]
  name
    | .primary => "PRIMARY"
    | .shadow => "SHADOW"
    | .mirror => "MIRROR"
  tag
    | .primary => 0
    | .shadow => 1
    | .mirror => 2
  label := suffix
  description
    | .primary => "Active bank image"
    | .shadow => "Alternate bank image opening the band"
    | .mirror => "Alternate bank image closing the band"

end BankTag
end FirmwareKit
