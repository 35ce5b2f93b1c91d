import FirmwareKit.Text.Digits
import FirmwareKit.Text.Printable
set_option autoImplicit false

/-!
# Quoted text and bytes

The quote is the single one, unless the content holds single quotes and no double one. The quote in
use and the backslash are escaped, three controls by letter, and all else that does not print by
its code in two, four or eight lower-case hexadecimal digits. Bytes outside ASCII take two digits.
-/
namespace FirmwareKit.Text

def chooseQuote (cs : List Char) : Char :=
  if cs.contains '\'' && !cs.contains '"' then '"' else '\''

def escapeLetter? : Char → Option Char
  | '\t' => some 't'
  | '\n' => some 'n'
  | '\r' => some 'r'
  | '\\' => some '\\'
  | _ => none

def escapeCode (n : Nat) : List Char :=
  if n < 0x100 then '\\' :: 'x' :: lowerHex 2 n
  else if n < 0x10000 then '\\' :: 'u' :: lowerHex 4 n
  else '\\' :: 'U' :: lowerHex 8 n

def escapeChar (quote c : Char) : List Char :=
  if c = quote then ['\\', c]
  else match escapeLetter? c with
    | some l => ['\\', l]
    | none => if isPrintable c then [c] else escapeCode c.toNat

def quoted (cs : List Char) : List Char :=
  let q := chooseQuote cs
  q :: cs.flatMap (escapeChar q) ++ [q]

def escapeByte (quote : Char) (b : UInt8) : List Char :=
  let c := Char.ofNat b.toNat
  if c = quote then ['\\', c]
  else match escapeLetter? c with
    | some l => ['\\', l]
    | none => if 0x20 ≤ b.toNat ∧ b.toNat < 0x7F then [c] else '\\' :: 'x' :: lowerHex 2 b.toNat

/-- Bytes are marked by a leading `b`. -/
def quotedBytes (data : List UInt8) : List Char :=
  let q := chooseQuote (data.map fun b => Char.ofNat b.toNat)
  'b' :: q :: data.flatMap (escapeByte q) ++ [q]

def quote (s : String) : String := String.ofList (quoted s.toList)

end FirmwareKit.Text
