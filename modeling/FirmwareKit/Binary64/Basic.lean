set_option autoImplicit false

/-!
# Binary floating point with 64 bits

A finite number is a significand below `2 ^ 53` times a power of two not below `2 ^ (-1074)`. All
arithmetic is exact and then rounded once, to the nearest number, halves to the even significand.
-/
namespace FirmwareKit

inductive Binary64 where
  | nan
  | infinity (negative : Bool)
  | finite (negative : Bool) (significand : Nat) (exponent : Int)
deriving DecidableEq, Repr, Inhabited

namespace Binary64

def leastExponent : Int := -1074
def greatestExponent : Int := 971

def zero : Binary64 := .finite false 0 leastExponent

def roundHalfEven (num den : Nat) : Nat :=
  let q := num / den
  let r := 2 * (num % den)
  if r < den ∨ (r = den ∧ q % 2 = 0) then q else q + 1

def scaleDown (num den : Nat) (e : Int) : Nat × Nat :=
  if e < 0 then (num * Nat.pow 2 e.natAbs, den) else (num, den * Nat.pow 2 e.natAbs)

def exponentFor (num den : Nat) : Int :=
  let e : Int := (Nat.log2 num : Int) - Nat.log2 den - 52
  let (n, d) := scaleDown num den e
  max leastExponent (if n / d < Nat.pow 2 52 then e - 1 else e)

def ofRatio (negative : Bool) (num den : Nat) : Binary64 :=
  if num = 0 then .finite negative 0 leastExponent
  else
    let e := exponentFor num den
    let (n, d) := scaleDown num den e
    let m := roundHalfEven n d
    let (m, e) := if m = Nat.pow 2 53 then (Nat.pow 2 52, e + 1) else (m, e)
    if e > greatestExponent then .infinity negative else .finite negative m e

def ofInt (n : Int) : Binary64 := ofRatio (n < 0) n.natAbs 1

/-- `digits * 10 ^ exponent`; far outside the range the power is not computed. -/
def ofDecimal (negative : Bool) (digits : Nat) (exponent : Int) : Binary64 :=
  let size : Int := (Nat.toDigits 10 digits).length + exponent
  if digits = 0 ∨ size < -400 then .finite negative 0 leastExponent
  else if size > 400 then .infinity negative
  else if exponent < 0 then ofRatio negative digits (Nat.pow 10 exponent.natAbs)
  else ofRatio negative (digits * Nat.pow 10 exponent.natAbs) 1

def magnitude (significand : Nat) (exponent : Int) : Nat × Nat :=
  if exponent < 0 then (significand, Nat.pow 2 exponent.natAbs)
  else (significand * Nat.pow 2 exponent.natAbs, 1)

def signed (negative : Bool) (n : Nat) : Int := if negative then -(n : Int) else n

def toFraction? : Binary64 → Option (Int × Nat)
  | .finite s m e => let (n, d) := magnitude m e; some (signed s n, d)
  | _ => none

def isNegative : Binary64 → Bool
  | .nan => false
  | .infinity s => s
  | .finite s _ _ => s

def neg : Binary64 → Binary64
  | .nan => .nan
  | .infinity s => .infinity (!s)
  | .finite s m e => .finite (!s) m e

def isZero : Binary64 → Bool
  | .finite _ 0 _ => true
  | _ => false

def ofFraction (n : Int) (d : Nat) : Binary64 := ofRatio (n < 0) n.natAbs d

def add (x y : Binary64) : Binary64 :=
  match x, y with
  | .nan, _ | _, .nan => .nan
  | .infinity s, .infinity t => if s = t then .infinity s else .nan
  | .infinity s, _ | _, .infinity s => .infinity s
  | .finite s m e, .finite t n f =>
    let (a, b) := magnitude m e
    let (c, d) := magnitude n f
    if m = 0 ∧ n = 0 then .finite (s && t) 0 leastExponent
    else ofFraction (signed s a * d + signed t c * b) (b * d)

def mul (x y : Binary64) : Binary64 :=
  match x, y with
  | .nan, _ | _, .nan => .nan
  | .infinity s, z | z, .infinity s => if z.isZero then .nan else .infinity (s != z.isNegative)
  | .finite s m e, .finite t n f =>
    let (a, b) := magnitude m e
    let (c, d) := magnitude n f
    ofRatio (s != t) (a * c) (b * d)

def div? (x y : Binary64) : Option Binary64 :=
  match x, y with
  | .finite s m e, .finite t n f =>
    if n = 0 then none
    else
      let (a, b) := magnitude m e
      let (c, d) := magnitude n f
      some (ofRatio (s != t) (a * d) (b * c))
  | _, _ => none

def compareFractions (a : Int) (b : Nat) (c : Int) (d : Nat) : Ordering :=
  compare (a * d) (c * b)

/-- No order holds where a side is not a number. -/
def compare? (x y : Binary64) : Option Ordering :=
  match x, y with
  | .nan, _ | _, .nan => none
  | .infinity s, .infinity t => some (compare t.toNat s.toNat)
  | .infinity s, _ => some (if s then .lt else .gt)
  | _, .infinity s => some (if s then .gt else .lt)
  | .finite s m e, .finite t n f =>
    let (a, b) := magnitude m e
    let (c, d) := magnitude n f
    some (compareFractions (signed s a) b (signed t c) d)

/-- An integer is compared as it is, not as the number nearest to it. -/
def compareInt? (x : Binary64) (n : Int) : Option Ordering :=
  match x with
  | .nan => none
  | .infinity s => some (if s then .lt else .gt)
  | .finite s m e => let (a, b) := magnitude m e; some (compareFractions (signed s a) b n 1)

def truncate? (x : Binary64) : Option Int :=
  x.toFraction?.map fun (n, d) => Int.tdiv n d

def isIntegral (x : Binary64) : Bool :=
  match x.toFraction? with
  | some (n, d) => Int.tmod n d == 0
  | none => false

end Binary64
end FirmwareKit
