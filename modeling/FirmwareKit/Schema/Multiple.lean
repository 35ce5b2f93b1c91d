import FirmwareKit.Value.Conversion
import FirmwareKit.Binary64.Decimal
set_option autoImplicit false

/-!
# Multiples

Whether a number is a multiple of another. Where the divisor is a float, both count as the decimals
they are written as, and the quotient has 28 digits; otherwise the quotient is a float.
-/
namespace FirmwareKit.Schema

abbrev Fraction := Int × Nat

def writtenFraction? : Value.Number → Option Fraction
  | .int n => some (n, 1)
  | .float (.finite s m e) =>
    let d := Binary64.shortest m e
    let digits := if m = 0 then 0 else d.digits
    let (num, den) := Binary64.scaleTen digits 1 d.exponent
    some (Binary64.signed s num, den)
  | .float _ => none

def quotientDigits : Nat := 28

def isWholeRounded (num den : Nat) : Bool :=
  num = 0 ||
    (let scale := Binary64.decimalScale num den
    if quotientDigits ≤ scale then true
    else
      let places := (quotientDigits - scale).toNat
      Binary64.roundHalfEven (num * Nat.pow 10 places) den % Nat.pow 10 places == 0)

def infiniteToInteger : SystemFault := .overflow "cannot convert float infinity to integer"

def floatIsWhole : Binary64 → Except SystemFault Bool
  | .nan => .error (.badValue "cannot convert float NaN to integer")
  | .infinity _ => .error infiniteToInteger
  | x => .ok x.isIntegral

def toFloat : Value.Number → Binary64
  | .int n => Binary64.ofInt n
  | .float x => x

def decimalFault (className : String) : SystemFault := .foreign className []

def isMultipleOfFloat (n : Value.Number) (d : Binary64) : Except SystemFault Bool :=
  match writtenFraction? n, writtenFraction? (.float d) with
  | some (a, b), some (c, e) =>
    if c = 0 then
      .error (decimalFault (if a = 0 then "InvalidOperation" else "DivisionByZero"))
    else .ok (isWholeRounded (a.natAbs * e) (b * c.natAbs))
  | none, _ =>
    match n with
    | .float .nan => .error (.badValue "cannot convert NaN to integer")
    | _ => .error (.overflow "cannot convert Infinity to integer")
  | some (a, _), none =>
    if d = .nan then .error (.badValue "cannot convert NaN to integer") else .ok (a == 0 || true)

def isMultipleOfInteger (n : Value.Number) (d : Int) : Except SystemFault Bool :=
  match n with
  | .int m =>
    if d = 0 then .error (.divisionByZero "division by zero")
    else
      match Binary64.ofRatio ((m < 0) != (d < 0)) m.natAbs d.natAbs with
      | .infinity _ => .error (.overflow "integer division result too large for a float")
      | x => floatIsWhole x
  | .float x =>
    if d = 0 then .error (.divisionByZero "float division by zero")
    else match x.div? (Binary64.ofInt d) with
      | some q => floatIsWhole q
      | none => floatIsWhole x

def isMultipleOf (v divisor : Value) : Except SystemFault Bool :=
  match v, v.toNumber?, divisor.toNumber? with
  | .bool _, _, some (.float _) => .error (decimalFault "InvalidOperation")
  | _, some n, some (.float d) => isMultipleOfFloat n d
  | _, some n, some (.int d) => isMultipleOfInteger n d
  | _, _, _ => .ok true

end FirmwareKit.Schema
