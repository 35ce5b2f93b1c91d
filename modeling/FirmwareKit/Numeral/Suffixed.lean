import FirmwareKit.Numeral.Integer
set_option autoImplicit false

/-!
# Numerals with a suffix

A number in a configuration may carry a mark for its base, in any case, and at most three of the
letters `u` and `l` after its digits. Without a mark it is decimal, whatever its leading digits.
-/
namespace FirmwareKit.Numeral

def isHexOrUnderscore (c : Char) : Bool :=
  c.isDigit || ('a' ≤ c && c ≤ 'f') || c == '_'

def isSuffixLetter (c : Char) : Bool := c == 'u' || c == 'l'

def splitMark : List Char → Nat × List Char
  | '0' :: 'b' :: rest => (2, rest)
  | '0' :: 'o' :: rest => (8, rest)
  | '0' :: 'x' :: rest => (16, rest)
  | cs => (10, cs)

def readSuffixed? (s : String) : Option Nat :=
  let cs := (Text.trimBy Text.isBlank s.toList).map Char.toLower
  let (base, body) := splitMark cs
  let digits := body.takeWhile isHexOrUnderscore
  let suffix := body.dropWhile isHexOrUnderscore
  if !digits.isEmpty && suffix.length ≤ 3 && suffix.all isSuffixLetter then
    match readInteger base digits with
    | .ok n => some n.toNat
    | .error _ => none
  else none

end FirmwareKit.Numeral
