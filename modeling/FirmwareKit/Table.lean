import FirmwareKit.Text.Digits
set_option autoImplicit false

namespace FirmwareKit

structure Table where
  header : List String
  rows : List (List String)
deriving DecidableEq, Repr

namespace Table

def widths (t : Table) : List Nat :=
  (t.header :: t.rows).foldl (fun ws row => List.zipWith max ws (row.map String.length))
    (t.header.map fun _ => 0)

def rule (ws : List Nat) : String :=
  "+" ++ String.join (ws.map fun w => String.ofList (List.replicate (w + 2) '-') ++ "+")

def line (ws : List Nat) (row : List String) : String :=
  "|" ++ String.join
    (List.zipWith (fun w cell => " " ++ String.ofList (Text.padRight w ' ' cell.toList) ++ " |")
      ws row)

def lines (t : Table) : List String :=
  let ws := t.widths
  [rule ws, line ws t.header, rule ws] ++ t.rows.map (line ws) ++ [rule ws]

def render (t : Table) : String := "\n".intercalate t.lines

end Table
end FirmwareKit
