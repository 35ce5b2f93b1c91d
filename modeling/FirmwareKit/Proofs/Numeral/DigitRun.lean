import FirmwareKit.Numeral.Integer
set_option autoImplicit false

namespace FirmwareKit.Numeral
open Text
variable {base : Nat}

/-- A run of digits of a base, with the values of its digits. -/
inductive DigitRun (base : Nat) : List Char → List Nat → Prop where
  | last {c : Char} {d : Nat} (h : digitIn? base c = some d) : DigitRun base [c] [d]
  | next {c : Char} {d : Nat} {cs : List Char} {ds : List Nat} (h : digitIn? base c = some d)
      (rest : DigitRun base cs ds) : DigitRun base (c :: cs) (d :: ds)
  | apart {c : Char} {d : Nat} {cs : List Char} {ds : List Nat} (h : digitIn? base c = some d)
      (rest : DigitRun base cs ds) : DigitRun base (c :: '_' :: cs) (d :: ds)

theorem ne_underscore_of_digit {c : Char} {d : Nat} (h : digitIn? base c = some d) : c ≠ '_' := by
  rintro rfl
  have hvalue : digitValue? '_' = none := rfl
  rw [digitIn?, hvalue] at h
  cases h

theorem DigitRun.head {cs : List Char} {ds : List Nat} (h : DigitRun base cs ds) :
    ∃ c rest d, cs = c :: rest ∧ digitIn? base c = some d := by
  cases h with
  | last h => exact ⟨_, _, _, rfl, h⟩
  | next h _ => exact ⟨_, _, _, rfl, h⟩
  | apart h _ => exact ⟨_, _, _, rfl, h⟩

/-- Every character of a run is a digit or an underscore. -/
theorem DigitRun.mem {cs : List Char} {ds : List Nat} (h : DigitRun base cs ds) {c : Char}
    (hc : c ∈ cs) : (∃ d, digitIn? base c = some d) ∨ c = '_' := by
  induction h with
  | last h => exact .inl ⟨_, List.mem_singleton.mp hc ▸ h⟩
  | next h _ ih =>
    rcases List.mem_cons.mp hc with rfl | hc
    · exact .inl ⟨_, h⟩
    · exact ih hc
  | apart h _ ih =>
    rcases List.mem_cons.mp hc with rfl | hc
    · exact .inl ⟨_, h⟩
    · rcases List.mem_cons.mp hc with rfl | hc
      · exact .inr rfl
      · exact ih hc

section Dropping
variable {isDigit : Char → Bool} {c e : Char} {rest : List Char}

theorem dropUnderscores?_singleton (hc : c ≠ '_') : dropUnderscores? isDigit [c] = some [c] := by
  simp [dropUnderscores?]

theorem dropUnderscores?_cons (hc : c ≠ '_') (he : e ≠ '_') :
    dropUnderscores? isDigit (c :: e :: rest) =
      (dropUnderscores? isDigit (e :: rest)).map (c :: ·) := by
  simp [dropUnderscores?, he]

theorem dropUnderscores?_apart (hc : c ≠ '_') :
    dropUnderscores? isDigit (c :: '_' :: e :: rest) =
      if isDigit c && isDigit e then (dropUnderscores? isDigit (e :: rest)).map (c :: ·)
      else none := by
  simp [dropUnderscores?]

theorem ne_nil_of_dropUnderscores? {cs plain : List Char} (hcs : cs ≠ [])
    (h : dropUnderscores? isDigit cs = some plain) : plain ≠ [] := by
  rintro rfl
  fun_cases dropUnderscores? isDigit cs <;> simp_all [dropUnderscores?]

end Dropping

theorem DigitRun.dropped {cs : List Char} {ds : List Nat} (h : DigitRun base cs ds) :
    ∃ plain, dropUnderscores? (fun c => (digitIn? base c).isSome) cs = some plain ∧
      plain.mapM (digitIn? base) = some ds := by
  induction h with
  | @last c d h =>
    exact ⟨[c], dropUnderscores?_singleton (ne_underscore_of_digit h), by simp [h]⟩
  | @next c d cs ds h rest ih =>
    obtain ⟨plain, hplain, hds⟩ := ih
    obtain ⟨e, tail, f, rfl, hf⟩ := rest.head
    refine ⟨c :: plain, ?_, by simp [List.mapM_cons, h, hds]⟩
    rw [dropUnderscores?_cons (ne_underscore_of_digit h) (ne_underscore_of_digit hf), hplain]
    rfl
  | @apart c d cs ds h rest ih =>
    obtain ⟨plain, hplain, hds⟩ := ih
    obtain ⟨e, tail, f, rfl, hf⟩ := rest.head
    refine ⟨c :: plain, ?_, by simp [List.mapM_cons, h, hds]⟩
    rw [dropUnderscores?_apart (ne_underscore_of_digit h), hplain]
    simp [h, hf]

theorem mapM_cons_eq_some {c : Char} {plain : List Char} {ds : List Nat}
    (h : (c :: plain).mapM (digitIn? base) = some ds) :
    ∃ d rest, digitIn? base c = some d ∧ plain.mapM (digitIn? base) = some rest ∧ ds = d :: rest := by
  simp only [List.mapM_cons, Option.bind_eq_bind, Option.bind_eq_some_iff] at h
  obtain ⟨d, hd, rest, hrest, hds⟩ := h
  exact ⟨d, rest, hd, hrest, (Option.some.inj hds).symm⟩

theorem digitRun_of_dropped {cs plain : List Char} {ds : List Nat}
    (h : dropUnderscores? (fun c => (digitIn? base c).isSome) cs = some plain) (hne : plain ≠ [])
    (hds : plain.mapM (digitIn? base) = some ds) : DigitRun base cs ds := by
  fun_induction dropUnderscores? (fun c => (digitIn? base c).isSome) cs generalizing plain ds with
  | case1 => exact absurd (Option.some.inj h).symm hne
  | case2 => cases h
  | case3 c hc =>
    cases h
    obtain ⟨d, rest, hd, hrest, rfl⟩ := mapM_cons_eq_some hds
    cases hrest
    exact .last hd
  | case4 c e rest hc hdigits ih =>
    obtain ⟨plain, hplain, rfl⟩ := Option.map_eq_some_iff.mp h
    obtain ⟨d, ds, hd, hrest, rfl⟩ := mapM_cons_eq_some hds
    exact .apart hd (ih hplain (ne_nil_of_dropUnderscores? (List.cons_ne_nil _ _) hplain) hrest)
  | case5 => cases h
  | case6 c rest hc hne' _ ih =>
    obtain ⟨plain, hplain, rfl⟩ := Option.map_eq_some_iff.mp h
    obtain ⟨d, ds, hd, hrest, rfl⟩ := mapM_cons_eq_some hds
    exact .next hd (ih hplain (ne_nil_of_dropUnderscores? hne' hplain) hrest)

theorem length_of_mapM {plain : List Char} {ds : List Nat}
    (h : plain.mapM (digitIn? base) = some ds) : ds.length = plain.length := by
  induction plain generalizing ds with
  | nil =>
    cases h
    rfl
  | cons c plain ih =>
    obtain ⟨d, rest, _, hrest, rfl⟩ := mapM_cons_eq_some h
    rw [List.length_cons, List.length_cons, ih hrest]

def Readable (base count : Nat) : Prop :=
  isPowerOfTwo base = true ∨ count ≤ Value.greatestDigitCount

theorem not_tooMany_iff (base count : Nat) :
    ¬ (!isPowerOfTwo base && decide (Value.greatestDigitCount < count)) = true ↔
      Readable base count := by
  rw [Readable]
  cases isPowerOfTwo base <;> simp

theorem readNatural_of_dropped {cs plain : List Char}
    (h : dropUnderscores? (fun c => (digitIn? base c).isSome) cs = some plain) (hne : plain ≠ [])
    (hcount : Readable base plain.length) :
    readNatural base cs = (readDigits? base plain).elim (.error .malformed) .ok := by
  rw [readNatural, h]
  cases plain with
  | nil => exact absurd rfl hne
  | cons c plain =>
    dsimp only
    rw [if_neg ((not_tooMany_iff _ _).mpr hcount)]
    cases readDigits? base (c :: plain) <;> rfl

theorem readNatural_eq_ok_iff (base : Nat) (cs : List Char) (n : Nat) :
    readNatural base cs = .ok n ↔
      ∃ ds, DigitRun base cs ds ∧ Readable base ds.length ∧ n = ofDigits base ds := by
  constructor
  · intro h
    rw [readNatural] at h
    split at h
    case h_1 => cases h
    case h_2 => cases h
    case h_3 plain hne hplain =>
      split at h
      case isTrue => cases h
      case isFalse hcount =>
        split at h
        case h_1 m hm =>
          cases h
          obtain ⟨ds, hds, rfl⟩ := Option.map_eq_some_iff.mp hm
          have hlength := length_of_mapM hds
          exact ⟨ds, digitRun_of_dropped hplain hne hds,
            hlength ▸ (not_tooMany_iff _ _).mp hcount, rfl⟩
        case h_2 => cases h
  · rintro ⟨ds, hrun, hcount, rfl⟩
    obtain ⟨plain, hplain, hds⟩ := hrun.dropped
    obtain ⟨c, rest, _, rfl, _⟩ := hrun.head
    have hne := ne_nil_of_dropUnderscores? (List.cons_ne_nil c rest) hplain
    rw [readNatural_of_dropped hplain hne (length_of_mapM hds ▸ hcount), readDigits?, hds]
    rfl

/-- The digits of a run are determined by its text. -/
theorem DigitRun.unique {cs : List Char} {ds es : List Nat} (hd : DigitRun base cs ds)
    (he : DigitRun base cs es) : ds = es := by
  obtain ⟨plain, hplain, hds⟩ := hd.dropped
  obtain ⟨plain', hplain', hes⟩ := he.dropped
  rw [hplain, Option.some.injEq] at hplain'
  rw [← hplain', hds, Option.some.injEq] at hes
  exact hes

theorem isUpper_iff (c : Char) : c.isUpper = true ↔ 65 ≤ c.toNat ∧ c.toNat ≤ 90 := by
  change decide (65 ≤ c.val ∧ c.val ≤ 90) = true ↔ _
  rw [decide_eq_true_iff, UInt32.le_iff_toNat_le, UInt32.le_iff_toNat_le]
  exact Iff.rfl

/-- Upper case letters are few, so what holds of each holds of all. -/
theorem forall_upper {p : Char → Prop} (h : ∀ n < 128, (Char.ofNat n).isUpper = true → p (Char.ofNat n))
    {c : Char} (hc : c.isUpper = true) : p c := by
  have hrange : c.toNat < 128 := by
    have hle := ((isUpper_iff c).mp hc).2
    omega
  have hof : Char.ofNat c.toNat = c := Char.ofNat_toNat c
  exact hof ▸ h c.toNat hrange (hof.symm ▸ hc)

theorem toLower_of_not_upper {c : Char} (h : c.isUpper = false) : c.toLower = c :=
  dif_neg (of_decide_eq_false h)

theorem not_upper_toLower (c : Char) : c.toLower.isUpper = false := by
  cases hc : c.isUpper with
  | false => rwa [toLower_of_not_upper hc]
  | true => exact forall_upper (p := fun c => c.toLower.isUpper = false) (by decide) hc

theorem digitValue?_toLower (c : Char) : digitValue? c.toLower = digitValue? c := by
  cases hc : c.isUpper with
  | false => rw [toLower_of_not_upper hc]
  | true => exact forall_upper (p := fun c => digitValue? c.toLower = digitValue? c) (by decide) hc

theorem digitIn?_toLower (base : Nat) (c : Char) : digitIn? base c.toLower = digitIn? base c := by
  rw [digitIn?, digitIn?, digitValue?_toLower]

end FirmwareKit.Numeral
