import FirmwareKit.Fault
set_option autoImplicit false

namespace FirmwareKit.Value

def escapeUnit (n : Nat) : List Char := '\\' :: 'u' :: Text.lowerHex 4 n

/-- Characters above the first plane are written as two surrogates. -/
def jsonChar (c : Char) : List Char :=
  let n := c.toNat
  match c with
  | '"' => ['\\', '"']
  | '\\' => ['\\', '\\']
  | '\n' => ['\\', 'n']
  | '\r' => ['\\', 'r']
  | '\t' => ['\\', 't']
  | '\x08' => ['\\', 'b']
  | '\x0C' => ['\\', 'f']
  | _ =>
    if 0x20 ≤ n ∧ n < 0x7F then [c]
    else if n < 0x10000 then escapeUnit n
    else escapeUnit (0xD800 + (n - 0x10000) / 0x400) ++ escapeUnit (0xDC00 + (n - 0x10000) % 0x400)

def jsonText (s : String) : String :=
  String.ofList ('"' :: s.toList.flatMap jsonChar ++ ['"'])

def jsonFloat : Binary64 → String
  | .nan => "NaN"
  | .infinity s => if s then "-Infinity" else "Infinity"
  | x => x.text

def newline (depth : Nat) : String := "\n" ++ String.ofList (List.replicate (2 * depth) ' ')

def bracketed (left right : String) (depth : Nat) (parts : List String) : String :=
  if parts.isEmpty then left ++ right
  else left ++ newline (depth + 1) ++ ("," ++ newline (depth + 1)).intercalate parts
    ++ newline depth ++ right

def notSerializable (v : Value) : Fault :=
  .system (.wrongType s!"Object of type {v.typeName} is not JSON serializable")

def jsonKey : Value → Except Fault String
  | .text s => .ok (jsonText s)
  | .float x => .ok ("\"" ++ jsonFloat x ++ "\"")
  | .bool b => .ok (if b then "\"true\"" else "\"false\"")
  | .null => .ok "\"null\""
  | .int n => if isLongInteger n then .error (.system .overlongInteger)
    else .ok ("\"" ++ (Value.int n).quoted ++ "\"")
  | v => .error (.system (.wrongType
      s!"keys must be str, int, float, bool or None, not {v.typeName}"))

mutual
/-- Values that JSON lacks are written as text if `lenient`. -/
def dump (lenient : Bool) (depth : Nat) : Value → Except Fault String
  | .null => .ok "null"
  | .bool b => .ok (if b then "true" else "false")
  | .int n => if isLongInteger n then .error (.system .overlongInteger)
    else .ok (Value.int n).quoted
  | .float x => .ok (jsonFloat x)
  | .text s => .ok (jsonText s)
  | .list items => (dumpItems lenient (depth + 1) items).map (bracketed "[" "]" depth)
  | .tuple items => (dumpItems lenient (depth + 1) items).map (bracketed "[" "]" depth)
  | .map entries => (dumpEntries lenient (depth + 1) entries).map (bracketed "\x7b" "\x7d" depth)
  | v => if lenient then .ok (jsonText v.display) else .error (notSerializable v)

def dumpItems (lenient : Bool) (depth : Nat) : List Value → Except Fault (List String)
  | [] => .ok []
  | v :: rest => do
    let first ← dump lenient depth v
    let more ← dumpItems lenient depth rest
    .ok (first :: more)

def dumpEntries (lenient : Bool) (depth : Nat) : List (Value × Value) → Except Fault (List String)
  | [] => .ok []
  | (k, v) :: rest => do
    let key ← jsonKey k
    let first ← dump lenient depth v
    let more ← dumpEntries lenient depth rest
    .ok ((key ++ ": " ++ first) :: more)
end

end FirmwareKit.Value
