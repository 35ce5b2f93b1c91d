import FirmwareKit.Text.Lines
import FirmwareKit.Text.Digits
import FirmwareKit.Yaml.Timestamp
set_option autoImplicit false

/-!
# Kinds of YAML nodes

A node is of the kind its tag names. A plain scalar without tag is of the kind its text looks like:
integers may be binary, octal with a leading zero, hexadecimal or in base sixty, a float has a point,
and a date has its year in front.
-/
namespace FirmwareKit.Yaml

inductive Kind where
  | null
  | bool
  | int
  | float
  | text
  | timestamp
  | binary
  | merge
  | default
  | sequence
  | mapping
  | set
  /-- Pairs in order, each in a mapping of its own. -/
  | pairs
  | unknown
deriving DecidableEq, Repr

namespace Kind

def standardLead : String := "tag:yaml.org,2002:"

def ofTag (tag : String) : Kind :=
  if tag = standardLead ++ "null" then .null
  else if tag = standardLead ++ "bool" then .bool
  else if tag = standardLead ++ "int" then .int
  else if tag = standardLead ++ "float" then .float
  else if tag = standardLead ++ "str" then .text
  else if tag = standardLead ++ "timestamp" then .timestamp
  else if tag = standardLead ++ "binary" then .binary
  else if tag = standardLead ++ "merge" then .merge
  else if tag = standardLead ++ "value" then .default
  else if tag = standardLead ++ "seq" then .sequence
  else if tag = standardLead ++ "map" then .mapping
  else if tag = standardLead ++ "set" then .set
  else if tag = standardLead ++ "omap" ∨ tag = standardLead ++ "pairs" then .pairs
  else .unknown

def hasEntries : Kind → Bool
  | .mapping | .set => true
  | _ => false

/-- Collections are made before their contents. -/
def isDeferred : Kind → Bool
  | .sequence | .mapping | .set | .pairs => true
  | _ => false

def nullWords : List String := ["", "~", "null", "Null", "NULL"]

def boolWords : List String := [
  "yes", "Yes", "YES", "no", "No", "NO", "true", "True", "TRUE", "false", "False", "FALSE",
  "on", "On", "ON", "off", "Off", "OFF"]

def dropSign : List Char → List Char
  | '-' :: rest => rest
  | '+' :: rest => rest
  | cs => cs

def isDigitOr_ (base : Nat) (c : Char) : Bool := c == '_' || (Text.digitIn? base c).isSome

def isDigitRun : List Char → Bool
  | [] => false
  | c :: rest => c.isDigit && rest.all (isDigitOr_ 10)

def isSixtieth : List Char → Bool
  | [d] => d.isDigit
  | [c, d] => c.isDigit && c ≤ '5' && d.isDigit
  | _ => false

def isBaseSixty (cs : List Char) : Bool :=
  match Text.splitOnChar ':' cs with
  | first :: rest => isDigitRun first && !rest.isEmpty && rest.all isSixtieth
  | [] => false

def isMagnitude (cs : List Char) : Bool :=
  match cs with
  | ['0'] => true
  | '0' :: 'b' :: ds => !ds.isEmpty && ds.all (isDigitOr_ 2)
  | '0' :: 'x' :: ds => !ds.isEmpty && ds.all (isDigitOr_ 16)
  | '0' :: ds => ds.all (isDigitOr_ 8)
  | cs => isDigitRun cs || isBaseSixty cs

def isInteger (cs : List Char) : Bool := isMagnitude (dropSign cs)

def isExponent : List Char → Bool
  | [] => true
  | e :: s :: ds => (e == 'e' || e == 'E') && (s == '-' || s == '+') && !ds.isEmpty
      && ds.all Char.isDigit
  | _ => false

def isFraction (cs : List Char) : Bool := isExponent (cs.dropWhile (isDigitOr_ 10))

def isPointed (cs : List Char) : Bool :=
  match cs.dropWhile (· ≠ '.') with
  | '.' :: frac =>
    let whole := cs.takeWhile (· ≠ '.')
    (isDigitRun whole && isFraction frac) || (isBaseSixty whole && frac.all (isDigitOr_ 10))
  | _ => false

def isFloat (cs : List Char) : Bool :=
  let body := dropSign cs
  isPointed body
    || [".inf", ".Inf", ".INF"].contains (String.ofList body)
    || [".nan", ".NaN", ".NAN"].contains (String.ofList cs)
    || (match cs with
      | '.' :: d :: frac => d.isDigit && isFraction frac
      | _ => false)

def withoutLastBreak (cs : List Char) : List Char :=
  if 1 < cs.length ∧ cs.getLast? = some '\n' then cs.dropLast else cs

def ofPlain (text : String) : Kind :=
  let cs := withoutLastBreak text.toList
  let word := String.ofList cs
  if nullWords.contains word then .null
  else if boolWords.contains word then .bool
  else if isFloat cs then .float
  else if isInteger cs then .int
  else if Timestamp.isPlain cs then .timestamp
  else if word = "<<" then .merge
  else if word = "=" then .default
  else .text

end Kind
end FirmwareKit.Yaml
