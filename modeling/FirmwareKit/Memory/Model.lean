import FirmwareKit.Labelled
set_option autoImplicit false

namespace FirmwareKit

inductive MemoryModel where
  | tiny
  | small
  | medium
  | compact
  | large
  | huge
deriving DecidableEq, Repr, Inhabited

namespace MemoryModel

instance : Labelled MemoryModel where
  typeName := "MemoryModel"
  members := [.tiny, .small, .medium, .compact, .large, .huge]
  name
    | .tiny => "TINY"
    | .small => "SMALL"
    | .medium => "MEDIUM"
    | .compact => "COMPACT"
    | .large => "LARGE"
    | .huge => "HUGE"
  tag
    | .tiny => 0
    | .small => 1
    | .medium => 2
    | .compact => 3
    | .large => 4
    | .huge => 5
  label
    | .tiny => "tiny"
    | .small => "small"
    | .medium => "medium"
    | .compact => "compact"
    | .large => "large"
    | .huge => "huge"
  description
    | .tiny => "Code and data in a single segment"
    | .small => "Near code, near data"
    | .medium => "Far code, near data"
    | .compact => "Near code, far data"
    | .large => "Far code, far data"
    | .huge => "Far code, far data, normalized pointers"

def farText : MemoryModel → Bool
  | .medium | .large | .huge => true
  | _ => false

end MemoryModel
end FirmwareKit
