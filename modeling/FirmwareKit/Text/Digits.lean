set_option autoImplicit false

namespace FirmwareKit.Text

/-- Letters continue the ten digits, in either case. -/
def digitValue? (c : Char) : Option Nat :=
  if c.isDigit then some (c.toNat - '0'.toNat)
  else if 'a' ≤ c ∧ c ≤ 'z' then some (c.toNat - 'a'.toNat + 10)
  else if 'A' ≤ c ∧ c ≤ 'Z' then some (c.toNat - 'A'.toNat + 10)
  else none

def digitIn? (base : Nat) (c : Char) : Option Nat :=
  (digitValue? c).filter (· < base)

def ofDigits (base : Nat) (ds : List Nat) : Nat :=
  ds.foldl (fun n d => n * base + d) 0

def readDigits? (base : Nat) (cs : List Char) : Option Nat :=
  (cs.mapM (digitIn? base)).map (ofDigits base)

def decimal (n : Nat) : List Char := Nat.toDigits 10 n

def integer (n : Int) : List Char :=
  if n < 0 then '-' :: decimal n.natAbs else decimal n.natAbs

def padLeft (width : Nat) (fill : Char) (cs : List Char) : List Char :=
  List.replicate (width - cs.length) fill ++ cs

def padRight (width : Nat) (fill : Char) (cs : List Char) : List Char :=
  cs ++ List.replicate (width - cs.length) fill

def lowerHex (width n : Nat) : List Char :=
  padLeft width '0' (Nat.toDigits 16 n)

def upperHex (width n : Nat) : List Char :=
  (lowerHex width n).map Char.toUpper

/-- The sign counts towards the width. -/
def signedUpperHex (width : Nat) (n : Int) : List Char :=
  if n < 0 then '-' :: upperHex (width - 1) n.natAbs else upperHex width n.natAbs

theorem digitIn?_lt (base : Nat) (c : Char) (d : Nat) (h : digitIn? base c = some d) :
    d < base := by
  simpa using (Option.filter_eq_some_iff.1 h).2

theorem ofDigits_append (base : Nat) (xs ys : List Nat) :
    ofDigits base (xs ++ ys) = ys.foldl (fun n d => n * base + d) (ofDigits base xs) := by
  simp [ofDigits]

theorem length_padLeft (width : Nat) (fill : Char) (cs : List Char) :
    (padLeft width fill cs).length = max width cs.length := by
  simp [padLeft]
  omega

theorem length_padRight (width : Nat) (fill : Char) (cs : List Char) :
    (padRight width fill cs).length = max width cs.length := by
  simp [padRight]
  omega

end FirmwareKit.Text
