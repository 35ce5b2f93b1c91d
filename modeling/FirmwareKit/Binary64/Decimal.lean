import FirmwareKit.Binary64.Basic
import FirmwareKit.Text.Digits
set_option autoImplicit false

/-!
# Decimal text of binary numbers

The text of a number has the fewest digits that read back as the number, the nearest of these. It
is positional for exponents from -4 to 15 and then always has a point; otherwise the exponent has a
sign and at least two digits.
-/
namespace FirmwareKit.Binary64

/-- The `k` with `10 ^ (k - 1) ≤ num / den < 10 ^ k`. -/
def decimalScale (num den : Nat) : Int :=
  if den ≤ num then (Nat.toDigits 10 (num / den)).length
  else
    let t := (Nat.toDigits 10 (den / num)).length
    if den ≤ num * Nat.pow 10 (t - 1) then 2 - (t : Int) else 1 - (t : Int)

def scaleTen (num den : Nat) (e : Int) : Nat × Nat :=
  if e < 0 then (num, den * Nat.pow 10 e.natAbs) else (num * Nat.pow 10 e.natAbs, den)

/-- The digits `d` and the exponent `e` stand for `d * 10 ^ e`. -/
structure Digits where
  digits : Nat
  exponent : Int
deriving DecidableEq, Repr

def Digits.readsBackAs (d : Digits) (x : Binary64) : Bool :=
  ofDecimal false d.digits d.exponent == x

def neighbour? (x : Binary64) (num den : Nat) (scale : Int) (n : Nat) : Option Digits :=
  let e := scale - n
  let (a, b) := scaleTen num den (-e)
  let low : Digits := ⟨a / b, e⟩
  let high : Digits := ⟨a / b + 1, e⟩
  match low.readsBackAs x, high.readsBackAs x with
  | true, true =>
    let r := 2 * (a % b)
    some (if r < b ∨ (r = b ∧ a / b % 2 = 0) then low else high)
  | true, false => some low
  | false, true => some high
  | false, false => none

def shortest (significand : Nat) (exponent : Int) : Digits :=
  let x := Binary64.finite false significand exponent
  let (num, den) := magnitude significand exponent
  let scale := decimalScale num den
  ((List.range 17).findSome? fun i => neighbour? x num den scale (i + 1)).getD
    ⟨significand, exponent⟩

def exponentText (e : Int) : List Char :=
  (if e < 0 then '-' else '+') :: Text.padLeft 2 '0' (Text.decimal e.natAbs)

def positional (ds : List Char) (k : Int) : List Char :=
  if k ≤ 0 then '0' :: '.' :: List.replicate k.natAbs '0' ++ ds
  else
    let n := k.toNat
    let whole := Text.padRight n '0' (ds.take n)
    let frac := ds.drop n
    whole ++ '.' :: (if frac.isEmpty then ['0'] else frac)

def scientific (ds : List Char) (e : Int) : List Char :=
  match ds with
  | [] => []
  | [d] => d :: 'e' :: exponentText e
  | d :: rest => d :: '.' :: rest ++ 'e' :: exponentText e

def stripZeros (ds : List Char) : List Char :=
  (ds.reverse.dropWhile (· = '0')).reverse

def magnitudeText (significand : Nat) (exponent : Int) : List Char :=
  if significand = 0 then ['0', '.', '0']
  else
    let d := shortest significand exponent
    let ds := Text.decimal d.digits
    let k : Int := d.exponent + ds.length
    if -4 < k ∧ k ≤ 16 then positional (stripZeros ds) k else scientific (stripZeros ds) (k - 1)

def chars : Binary64 → List Char
  | .nan => ['n', 'a', 'n']
  | .infinity s => (if s then ['-'] else []) ++ ['i', 'n', 'f']
  | .finite s m e => (if s then ['-'] else []) ++ magnitudeText m e

def text (x : Binary64) : String := String.ofList x.chars

def fixedPlaces (places num den : Nat) : List Char :=
  let n := roundHalfEven (num * Nat.pow 10 places) den
  let ds := Text.padLeft (places + 1) '0' (Text.decimal n)
  let whole := ds.take (ds.length - places)
  if places = 0 then whole else whole ++ '.' :: ds.drop (ds.length - places)

def roundDigits (n num den : Nat) : List Char × Int :=
  let scale := decimalScale num den
  let (a, b) := scaleTen num den ((n : Int) + 1 - scale)
  let ds := Text.decimal (roundHalfEven a b)
  if ds.length > n + 1 then (ds.take (n + 1), scale) else (ds, scale - 1)

end FirmwareKit.Binary64
