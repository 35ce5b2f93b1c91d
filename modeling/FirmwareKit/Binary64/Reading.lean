import FirmwareKit.Binary64.Basic
import FirmwareKit.Text.Blank
import FirmwareKit.Text.Digits
import FirmwareKit.Text.DecimalDigit
set_option autoImplicit false

namespace FirmwareKit.Text

def toAsciiNumber (c : Char) : Char :=
  if c.toNat < 0x7F then c
  else if isBlank c then ' '
  else match decimalDigit? c with
    | some d => Char.ofNat ('0'.toNat + d)
    | none => '?'

/-- The text without its underscores, each of which stands between two digits. -/
def dropUnderscores? (isDigit : Char → Bool) : List Char → Option (List Char)
  | [] => some []
  | '_' :: _ => none
  | [c] => some [c]
  | c :: '_' :: d :: rest =>
    if isDigit c && isDigit d then (dropUnderscores? isDigit (d :: rest)).map (c :: ·) else none
  | c :: rest => (dropUnderscores? isDigit rest).map (c :: ·)

end FirmwareKit.Text

namespace FirmwareKit.Binary64

def splitSign : List Char → Bool × List Char
  | '-' :: rest => (true, rest)
  | '+' :: rest => (false, rest)
  | cs => (false, cs)

def readExponent? : List Char → Option Int
  | [] => some 0
  | c :: rest =>
    if c = 'e' ∨ c = 'E' then
      let (negative, ds) := splitSign rest
      if ds.isEmpty then none
      else (Text.readDigits? 10 ds).map (signed negative)
    else none

def readMagnitude? (negative : Bool) (cs : List Char) : Option Binary64 :=
  let whole := cs.takeWhile Char.isDigit
  let rest := cs.dropWhile Char.isDigit
  let (frac, rest) := match rest with
    | '.' :: r => (r.takeWhile Char.isDigit, r.dropWhile Char.isDigit)
    | r => ([], r)
  if whole.isEmpty && frac.isEmpty then none
  else do
    let n ← Text.readDigits? 10 (whole ++ frac)
    let e ← readExponent? rest
    some (ofDecimal negative n (e - frac.length))

def readWord? (negative : Bool) (cs : List Char) : Option Binary64 :=
  let word := String.ofList (cs.map Char.toLower)
  if word = "inf" ∨ word = "infinity" then some (.infinity negative)
  else if word = "nan" then some .nan
  else none

def parse? (s : String) : Option Binary64 := do
  let cs := s.toList
  let cs := if cs.all (·.toNat < 0x80) then cs else cs.map Text.toAsciiNumber
  let cs ← Text.dropUnderscores? Char.isDigit (Text.trimBy Text.isAsciiBlank cs)
  let (negative, cs) := splitSign cs
  readMagnitude? negative cs <|> readWord? negative cs

end FirmwareKit.Binary64
