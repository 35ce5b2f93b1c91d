import FirmwareKit.Text.Digits
set_option autoImplicit false

namespace FirmwareKit.Text

theorem digitIn?_digitChar {base d : Nat} (hd : d < base) (hbase : base ≤ 16) :
    digitIn? base (Nat.digitChar d) = some d := by
  have hvalue : ∀ d < 16, digitValue? (Nat.digitChar d) = some d := by decide
  simp [digitIn?, hvalue d (by omega), hd]

theorem readDigits?_append_singleton (base : Nat) (cs : List Char) (c : Char) :
    readDigits? base (cs ++ [c]) =
      (readDigits? base cs).bind fun n => (digitIn? base c).map fun d => n * base + d := by
  unfold readDigits?
  rw [List.mapM_append, List.mapM_cons, List.mapM_nil]
  cases List.mapM (digitIn? base) cs with
  | none => rfl
  | some ds =>
    cases digitIn? base c with
    | none => rfl
    | some d => simp [ofDigits_append]

theorem readDigits?_toDigits {base : Nat} (h2 : 1 < base) (h16 : base ≤ 16) (n : Nat) :
    readDigits? base (Nat.toDigits base n) = some n := by
  induction n using Nat.strongRecOn with
  | _ n ih =>
    by_cases hn : n < base
    · rw [Nat.toDigits_of_lt_base hn]
      change readDigits? base ([] ++ [_]) = _
      rw [readDigits?_append_singleton, digitIn?_digitChar hn h16]
      simp [readDigits?, ofDigits]
    · have hlt : n / base < n := Nat.div_lt_self (by omega) h2
      have hmod : n % base < base := Nat.mod_lt n (by omega)
      rw [Nat.toDigits_of_base_le h2 (by omega), readDigits?_append_singleton, ih _ hlt,
        digitIn?_digitChar hmod h16]
      simp [Nat.div_add_mod']

theorem readDigits?_zeros (k : Nat) (cs : List Char) :
    readDigits? 10 (List.replicate k '0' ++ cs) = readDigits? 10 cs := by
  induction k with
  | zero => rfl
  | succ k ih =>
    have hzero (ds : List Nat) : ofDigits 10 (0 :: ds) = ofDigits 10 ds := rfl
    have hdigit : digitIn? 10 '0' = some 0 := rfl
    rw [← ih, List.replicate_succ, List.cons_append, readDigits?, List.mapM_cons, hdigit, readDigits?]
    cases (List.replicate k '0' ++ cs).mapM (digitIn? 10) with
    | none => rfl
    | some ds => exact congrArg some (hzero ds)

/-- Zeros in front of a number do not matter. -/
theorem readDigits?_padLeft (width n : Nat) :
    readDigits? 10 (padLeft width '0' (decimal n)) = some n := by
  rw [padLeft, readDigits?_zeros]
  exact readDigits?_toDigits (by decide) (by decide) n

theorem isDigit_of_mem_decimal {n : Nat} {c : Char} (h : c ∈ decimal n) : c.isDigit = true :=
  Nat.isDigit_of_mem_toDigits (by decide) (by decide) h

theorem decimal_ne_nil (n : Nat) : decimal n ≠ [] := Nat.toDigits_ne_nil

def readInteger? : List Char → Option Int
  | [] => none
  | '-' :: cs => if cs.isEmpty then none else (readDigits? 10 cs).map fun n : Nat => -(n : Int)
  | cs => (readDigits? 10 cs).map fun n : Nat => (n : Int)

theorem readInteger?_decimal (n : Nat) : readInteger? (decimal n) = some (n : Int) := by
  have hread := readDigits?_toDigits (by decide : 1 < 10) (by decide) n
  cases hd : decimal n with
  | nil => exact absurd hd (decimal_ne_nil n)
  | cons c cs =>
    have hc : c.isDigit = true := isDigit_of_mem_decimal (by rw [hd]; exact List.mem_cons_self)
    have hsign : c ≠ '-' := by
      rintro rfl
      simp at hc
    change Nat.toDigits 10 n = c :: cs at hd
    rw [hd] at hread
    simp [readInteger?, hsign, hread]

theorem readInteger?_integer (n : Int) : readInteger? (integer n) = some n := by
  unfold integer
  split
  case isTrue hneg =>
    have hread := readDigits?_toDigits (by decide : 1 < 10) (by decide) n.natAbs
    change readDigits? 10 (decimal n.natAbs) = _ at hread
    rw [readInteger?, if_neg (by simp [decimal_ne_nil]), hread, Option.map_some]
    congr 1
    omega
  case isFalse hpos =>
    rw [readInteger?_decimal]
    congr 1
    omega

theorem of_mem_integer {n : Int} {c : Char} (h : c ∈ integer n) : c = '-' ∨ c.isDigit = true := by
  unfold integer at h
  split at h
  · rcases List.mem_cons.mp h with rfl | h
    · exact .inl rfl
    · exact .inr (isDigit_of_mem_decimal h)
  · exact .inr (isDigit_of_mem_decimal h)

theorem not_mem_integer {n : Int} {c : Char} (hsign : c ≠ '-') (hdigit : c.isDigit = false) :
    c ∉ integer n := by
  intro h
  rcases of_mem_integer h with rfl | hd
  · exact hsign rfl
  · rw [hdigit] at hd
    cases hd

end FirmwareKit.Text
