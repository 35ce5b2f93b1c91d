import FirmwareKit.Text.Digits
set_option autoImplicit false

/-!
# UTF-8

Decoding stops at the first fault and says where and why. A sequence is read as far as its bytes
can still continue a character: surrogates, overlong forms and codes above the last one are
excluded at the second byte.
-/
namespace FirmwareKit.Text.Utf8

inductive Reason where
  | invalidStart
  | invalidContinuation
  | unexpectedEnd
deriving DecidableEq, Repr

def Reason.text : Reason → String
  | .invalidStart => "invalid start byte"
  | .invalidContinuation => "invalid continuation byte"
  | .unexpectedEnd => "unexpected end of data"

/-- A fault covers `width` bytes from `position` on; `byte` is the first of them. -/
structure Malformed where
  byte : UInt8
  position : Nat
  width : Nat
  reason : Reason
deriving DecidableEq, Repr

def Malformed.text (m : Malformed) : String :=
  let reason := m.reason.text
  if m.width ≤ 1 then
    let code := String.ofList (lowerHex 2 m.byte.toNat)
    s!"'utf-8' codec can't decode byte 0x{code} in position {m.position}: {reason}"
  else
    let last := m.position + m.width - 1
    s!"'utf-8' codec can't decode bytes in position {m.position}-{last}: {reason}"

def isContinuation (b : UInt8) : Bool := 0x80 ≤ b && b ≤ 0xBF

/-- How many bytes follow a first byte, and between which bounds the second one lies. -/
def lead? (b : UInt8) : Option (Nat × UInt8 × UInt8) :=
  if 0xC2 ≤ b && b ≤ 0xDF then some (1, 0x80, 0xBF)
  else if b == 0xE0 then some (2, 0xA0, 0xBF)
  else if b == 0xED then some (2, 0x80, 0x9F)
  else if 0xE1 ≤ b && b ≤ 0xEF then some (2, 0x80, 0xBF)
  else if b == 0xF0 then some (3, 0x90, 0xBF)
  else if 0xF1 ≤ b && b ≤ 0xF3 then some (3, 0x80, 0xBF)
  else if b == 0xF4 then some (3, 0x80, 0x8F)
  else none

def follow (need : Nat) (low high : UInt8) : List UInt8 → List UInt8
  | [] => []
  | b :: rest =>
    match need with
    | 0 => []
    | n + 1 => if low ≤ b && b ≤ high then b :: follow n 0x80 0xBF rest else []

def leadBits (need : Nat) (b : UInt8) : Nat :=
  b.toNat % Nat.pow 2 (6 - need)

def assemble (need : Nat) (b : UInt8) (tail : List UInt8) : Char :=
  Char.ofNat (tail.foldl (fun n t => n * 64 + t.toNat % 64) (leadBits need b))

theorem length_follow_le (need : Nat) (low high : UInt8) (bs : List UInt8) :
    (follow need low high bs).length ≤ bs.length := by
  induction bs generalizing need low high with
  | nil => simp [follow]
  | cons b rest ih =>
    cases need with
    | zero => simp [follow]
    | succ n =>
      simp only [follow]
      split
      · simpa using ih n 0x80 0xBF
      · simp

def decodeFrom (position : Nat) : List UInt8 → Except Malformed (List Char)
  | [] => .ok []
  | b :: rest =>
    if b < 0x80 then (decodeFrom (position + 1) rest).map (Char.ofNat b.toNat :: ·)
    else match lead? b with
      | none => .error ⟨b, position, 1, .invalidStart⟩
      | some (need, low, high) =>
        let tail := follow need low high rest
        if tail.length = need then
          (decodeFrom (position + 1 + need) (rest.drop need)).map (assemble need b tail :: ·)
        else if tail.length = rest.length then
          .error ⟨b, position, 1 + tail.length, .unexpectedEnd⟩
        else .error ⟨b, position, 1 + tail.length, .invalidContinuation⟩
termination_by bs => bs.length
decreasing_by
  all_goals
    simp only [List.length_cons, List.length_drop]
    omega

def decode (bs : List UInt8) : Except Malformed (List Char) := decodeFrom 0 bs

def encode (cs : List Char) : List UInt8 := cs.flatMap String.utf8EncodeChar

end FirmwareKit.Text.Utf8
