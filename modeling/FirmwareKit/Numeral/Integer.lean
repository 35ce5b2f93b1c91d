import FirmwareKit.Binary64.Reading
import FirmwareKit.SystemFault
set_option autoImplicit false

namespace FirmwareKit.Numeral

inductive Refusal where
  | malformed
  | tooManyDigits (count : Nat)
deriving DecidableEq, Repr

def markBase? (c : Char) : Option Nat :=
  match c.toLower with
  | 'x' => some 16
  | 'o' => some 8
  | 'b' => some 2
  | _ => none

/-- What follows a mark, less one underscore. -/
def afterMark : List Char → List Char
  | '_' :: rest => rest
  | cs => cs

def findBase (base : Nat) (cs : List Char) : Nat × Bool × List Char :=
  match cs with
  | '0' :: c :: rest =>
    match markBase? c with
    | some b =>
      if base = 0 ∨ base = b then (b, false, afterMark rest)
      else (base, false, cs)
    | none => if base = 0 then (10, true, cs) else (base, false, cs)
  | _ => if base = 0 then (10, false, cs) else (base, false, cs)

def isPowerOfTwo (base : Nat) : Bool := [2, 4, 8, 16, 32].contains base

def readNatural (base : Nat) (cs : List Char) : Except Refusal Nat :=
  match Text.dropUnderscores? (fun c => (Text.digitIn? base c).isSome) cs with
  | none | some [] => .error .malformed
  | some ds =>
    if !isPowerOfTwo base && Value.greatestDigitCount < ds.length then
      .error (if (ds.all fun c => (Text.digitIn? base c).isSome) then .tooManyDigits ds.length
        else .malformed)
    else match Text.readDigits? base ds with
      | some n => .ok n
      | none => .error .malformed

def isBase (base : Nat) : Bool := base == 0 || (2 ≤ base && base ≤ 36)

def readInteger (base : Nat) (cs : List Char) : Except Refusal Int :=
  if !isBase base then .error .malformed
  else
    let cs := if cs.all (·.toNat < 0x80) then cs else cs.map Text.toAsciiNumber
    let (negative, cs) := Binary64.splitSign (Text.trimBy Text.isAsciiBlank cs)
    let (base, mustBeZero, cs) := findBase base cs
    match readNatural base cs with
    | .error r => .error r
    | .ok n =>
      if mustBeZero && n != 0 then .error .malformed
      else .ok (if negative then -(n : Int) else n)

def Refusal.toFault (r : Refusal) (base : Nat) (cs : List Char) : SystemFault :=
  match r with
  | .malformed => .malformedInteger base (String.ofList cs)
  | .tooManyDigits n => .tooManyDigits n

end FirmwareKit.Numeral
