import FirmwareKit.Value.Basic
set_option autoImplicit false

namespace FirmwareKit.Schema

mutual
def merge : Value → Value → Value
  | .list xs, .list ys => .list (xs ++ ys)
  | .map es, .map fs =>
    .map (mergeEntries es fs ++ fs.filter fun f => (Value.Entries.get? es f.1).isNone)
  | _, w => w

def mergeEntries : List (Value × Value) → List (Value × Value) → List (Value × Value)
  | [], _ => []
  | (k, v) :: rest, fs =>
    (k, match Value.Entries.get? fs k with
      | some w => merge v w
      | none => v) :: mergeEntries rest fs
end

/-- A part that is no mapping adds nothing. -/
def mergePart (whole : Value) (part : Value) : Value :=
  match part with
  | .map _ => merge whole part
  | _ => whole

def mergeAll (parts : List Value) : Value := parts.foldl mergePart (.map [])

end FirmwareKit.Schema
