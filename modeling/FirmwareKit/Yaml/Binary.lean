import FirmwareKit.Value.Basic
set_option autoImplicit false

namespace FirmwareKit.Yaml.Binary

def sextet? (c : Char) : Option Nat :=
  if c.isUpper then some (c.toNat - 'A'.toNat)
  else if c.isLower then some (c.toNat - 'a'.toNat + 26)
  else if c.isDigit then some (c.toNat - '0'.toNat + 52)
  else if c = '+' then some 62
  else if c = '/' then some 63
  else none

/-- The bytes of what follows, where so many characters of the last four are there, with so many bits
of them left and so many marks behind them. Marks end the data where they make up for what is
missing. -/
def bytesFrom? (filled left marks : Nat) : List Char → Option (List UInt8)
  | [] => if filled = 0 then some [] else none
  | c :: rest =>
    if c = '=' then
      if filled < 2 then bytesFrom? filled left marks rest
      else if 4 ≤ filled + marks + 1 then some []
      else bytesFrom? filled left (marks + 1) rest
    else match sextet? c with
      | none => bytesFrom? filled left marks rest
      | some n =>
        match filled with
        | 0 => bytesFrom? 1 n 0 rest
        | 1 => (bytesFrom? 2 (n % 16) 0 rest).map (UInt8.ofNat (left * 4 + n / 16) :: ·)
        | 2 => (bytesFrom? 3 (n % 4) 0 rest).map (UInt8.ofNat (left * 16 + n / 4) :: ·)
        | _ => (bytesFrom? 0 0 0 rest).map (UInt8.ofNat (left * 64 + n) :: ·)

def bytes? (text : String) : Option (List UInt8) :=
  if text.toList.all fun c => c.toNat < 128 then bytesFrom? 0 0 0 text.toList else none

example : bytes? "aGk=\n" = some [0x68, 0x69] := by decide

end FirmwareKit.Yaml.Binary
