import FirmwareKit.Proofs.Numeral.Suffixed
set_option autoImplicit false

namespace FirmwareKit.Numeral
open Text

/-! ## Numbers with the base their mark names -/

/-- The numbers without sign whose mark, if they have one, names their base. -/
inductive Marked : List Char → Nat → Prop where
  | intro (mark : Mark) {gap digits : List Char} {ds : List Nat} (hgap : gap = [] ∨ gap = ['_'])
      (hnone : mark = .none → gap = []) (hrun : DigitRun mark.base digits ds) :
      Marked (mark.text ++ gap ++ digits) (ofDigits mark.base ds)

theorem DigitRun.toLower {base : Nat} {cs : List Char} {ds : List Nat} (h : DigitRun base cs ds) :
    DigitRun base (cs.map Char.toLower) ds := by
  induction h with
  | last h => exact .last ((digitIn?_toLower base _).trans h)
  | next h _ ih => exact .next ((digitIn?_toLower base _).trans h) ih
  | apart h _ ih => exact .apart ((digitIn?_toLower base _).trans h) ih

theorem markBase?_cases {c : Char} {base : Nat} (h : markBase? c = some base) :
    ∃ mark : Mark, mark ≠ .none ∧ mark.base = base ∧ mark.text = ['0', c.toLower] := by
  unfold markBase? at h
  split at h
  · rename_i hc
    exact ⟨.hexadecimal, by simp, Option.some.inj h, by rw [hc]; rfl⟩
  · rename_i hc
    exact ⟨.octal, by simp, Option.some.inj h, by rw [hc]; rfl⟩
  · rename_i hc
    exact ⟨.binary, by simp, Option.some.inj h, by rw [hc]; rfl⟩
  · cases h

theorem afterMark_cases (rest : List Char) :
    ∃ gap, (gap = [] ∨ gap = ['_']) ∧ rest = gap ++ afterMark rest := by
  unfold afterMark
  split
  · exact ⟨['_'], .inr rfl, rfl⟩
  · exact ⟨[], .inl rfl, rfl⟩

/-- The base in force and the text behind the mark, where the mark names the base. -/
theorem findBase_cases (cs : List Char) :
    ∃ (mark : Mark) (gap : List Char), (gap = [] ∨ gap = ['_']) ∧ (mark = .none → gap = []) ∧
      (findBase 0 cs).1 = mark.base ∧
      cs.map Char.toLower = mark.text ++ gap ++ (findBase 0 cs).2.2.map Char.toLower := by
  unfold findBase
  split
  · rename_i c rest
    split
    · rename_i base hbase
      obtain ⟨mark, hne, hmark, htext⟩ := markBase?_cases hbase
      obtain ⟨gap, hgap, hrest⟩ := afterMark_cases rest
      refine ⟨mark, gap, hgap, fun h => absurd h hne, hmark.symm, ?_⟩
      have hlower : gap.map Char.toLower = gap := by
        rcases hgap with rfl | rfl <;> rfl
      have hmap := congrArg (List.map Char.toLower) hrest
      rw [List.map_append, hlower] at hmap
      rw [if_pos (.inl rfl), htext, List.map_cons, List.map_cons, hmap]
      rfl
    · exact ⟨.none, [], .inl rfl, fun _ => rfl, rfl, rfl⟩
  · exact ⟨.none, [], .inl rfl, fun _ => rfl, rfl, rfl⟩

theorem marked_of_readMarked {negative : Bool} {cs : List Char} {m : Int}
    (h : readMarked 0 negative cs = .ok m) :
    ∃ n : Nat, Marked (cs.map Char.toLower) n ∧ m = if negative then -(n : Int) else n := by
  obtain ⟨mark, gap, hgap, hnone, hbase, htext⟩ := findBase_cases cs
  rw [readMarked, hbase] at h
  split at h
  case h_1 => cases h
  case h_2 n hn =>
    obtain ⟨ds, hrun, _, rfl⟩ := (readNatural_eq_ok_iff _ _ n).mp hn
    split at h
    case isTrue => cases h
    case isFalse => exact ⟨_, htext ▸ .intro mark hgap hnone hrun.toLower, (Except.ok.inj h).symm⟩

theorem splitMark_marked {mark : Mark} {gap digits : List Char} {ds : List Nat}
    (hnone : mark = .none → gap = []) (hrun : DigitRun mark.base digits ds) :
    splitMark (mark.text ++ gap ++ digits) = (mark.base, gap ++ digits) := by
  cases mark with
  | binary => rfl
  | octal => rfl
  | hexadecimal => rfl
  | none =>
    have hend : IsSuffix [] := ⟨by decide, by simp⟩
    rw [hnone rfl]
    simpa using splitMark_text hrun hend

/-- Nothing follows the digits of a run but more digits. -/
theorem suffix_eq_nil {base : Nat} (hbase : base ≤ 16) {digits suffix : List Char} {ds : List Nat}
    (hrun : DigitRun base (digits ++ suffix) ds) (hsuffix : IsSuffix suffix) : suffix = [] := by
  cases suffix with
  | nil => rfl
  | cons c rest =>
    have hmem : c ∈ digits ++ c :: rest := by simp
    rcases hrun.mem hmem with ⟨d, hd⟩ | rfl
    · have hlt := digitIn?_lt base c d hd
      obtain ⟨hvalue, _⟩ := Option.filter_eq_some_iff.mp hd
      rcases hsuffix.2 c List.mem_cons_self with rfl | rfl
      · have hu : digitValue? 'u' = some 30 := rfl
        rw [hu] at hvalue
        cases hvalue
        omega
      · have hl : digitValue? 'l' = some 21 := rfl
        rw [hl] at hvalue
        cases hvalue
        omega
    · rcases hsuffix.2 _ List.mem_cons_self with h | h <;> cases h

theorem eq_of_marked_of_written {t : List Char} {m n : Nat} (hmarked : Marked t m)
    (hwritten : Written t n) : m = n := by
  generalize ht : t = u at hwritten
  cases hmarked with
  | @intro mark gap digits ds hgap hnone hrun =>
    cases hwritten with
    | @intro mark' digits' suffix ds' hrun' hcount hsuffix =>
      have hsplit := congrArg splitMark ht
      rw [splitMark_marked hnone hrun, splitMark_text hrun' hsuffix, Prod.mk.injEq] at hsplit
      obtain ⟨hbase, htext⟩ := hsplit
      rw [← hbase] at hrun' ⊢
      -- the numeral begins with a digit, so no underscore stands behind the mark
      have hnogap : gap = [] := by
        rcases hgap with rfl | rfl
        · rfl
        · obtain ⟨c, rest, d, rfl, hd⟩ := hrun'.head
          exact absurd (List.cons.inj htext).1.symm (ne_underscore_of_digit hd)
      rw [hnogap, List.nil_append] at htext
      rw [htext] at hrun
      rw [suffix_eq_nil (base_le mark) hrun hsuffix, List.append_nil] at hrun
      rw [hrun.unique hrun']

theorem not_remarked_of_marked {t : List Char} {m n : Nat} (hmarked : Marked t m) :
    ¬ Remarked t n := by
  intro hremarked
  obtain ⟨rest, hrest⟩ := splitMark_remarked hremarked
  cases hmarked with
  | @intro mark gap digits ds hgap hnone hrun =>
    rw [splitMark_marked hnone hrun, Prod.mk.injEq] at hrest
    obtain ⟨hbase, htext⟩ := hrest
    have hmem : 'b' ∈ gap ++ digits := by simp [htext]
    rw [hbase] at hrun
    rcases List.mem_append.mp hmem with hb | hb
    · rcases hgap with rfl | rfl <;> simp at hb
    · rcases hrun.mem hb with ⟨d, hd⟩ | hd <;> cases hd

/-! ## Texts between blanks -/

/-- The characters from the first digit to the last small letter; no blank is among them. -/
def IsInked (c : Char) : Prop := 48 ≤ c.toNat ∧ c.toNat ≤ 122

instance (c : Char) : Decidable (IsInked c) := inferInstanceAs (Decidable (_ ∧ _))

theorem isInked_of_lower {c : Char} (h : IsInked c.toLower) : IsInked c := by
  cases hu : c.isUpper with
  | false => rwa [toLower_of_not_upper hu] at h
  | true => exact forall_upper (p := IsInked) (by decide) hu

theorem not_blank_of_inked {c : Char} (h : IsInked c) : isBlank c = false := by
  obtain ⟨hleast, hmost⟩ := h
  simp only [isBlank, Bool.or_eq_false_iff, Bool.and_eq_false_iff, decide_eq_false_iff_not,
    beq_eq_false_iff_ne]
  omega

theorem isInked_of_digit {base d : Nat} {c : Char} (h : digitIn? base c = some d) : IsInked c := by
  obtain ⟨hvalue, _⟩ := Option.filter_eq_some_iff.mp h
  have hrange : (48 ≤ c.toNat ∧ c.toNat ≤ 57) ∨ (97 ≤ c.toNat ∧ c.toNat ≤ 122) ∨
      (65 ≤ c.toNat ∧ c.toNat ≤ 90) := by
    simp [digitValue?, Char.isDigit, Char.le_def, UInt32.le_iff_toNat_le] at hvalue
    split at hvalue
    · omega
    · split at hvalue
      · omega
      · split at hvalue
        · omega
        · cases hvalue
  unfold IsInked
  omega

theorem DigitRun.isInked {base : Nat} {cs : List Char} {ds : List Nat} (h : DigitRun base cs ds) :
    ∀ c ∈ cs, IsInked c := by
  intro c hc
  rcases h.mem hc with ⟨d, hd⟩ | rfl
  · exact isInked_of_digit hd
  · decide

theorem isInked_mark (mark : Mark) : ∀ c ∈ mark.text, IsInked c := by
  cases mark <;> simp [Mark.text, IsInked]

theorem Marked.isInked {t : List Char} {n : Nat} (h : Marked t n) : ∀ c ∈ t, IsInked c := by
  cases h with
  | @intro mark gap digits ds hgap hnone hrun =>
    have hinked : ∀ c ∈ gap, IsInked c := by
      rcases hgap with rfl | rfl <;> simp [IsInked]
    exact List.forall_mem_append.mpr
      ⟨List.forall_mem_append.mpr ⟨isInked_mark mark, hinked⟩, hrun.isInked⟩

theorem isInked_of_readSuffixed? {s : String} {n : Nat} (h : readSuffixed? s = some n) :
    ∀ c ∈ lowered s, IsInked c := by
  obtain ⟨mark, digits, suffix, hs, hdigits, hsuffix, _⟩ := exists_of_readSuffixed? h
  have hinked : ∀ c ∈ digits, IsInked c := by
    intro c hc
    rcases (isHexOrUnderscore_iff c).mp (hdigits c hc) with hrange | hrange | rfl
    · unfold IsInked
      omega
    · unfold IsInked
      omega
    · decide
  have hend : ∀ c ∈ suffix, IsInked c := by
    intro c hc
    rcases hsuffix.2 c hc with rfl | rfl <;> decide
  rw [hs]
  exact List.forall_mem_append.mpr ⟨List.forall_mem_append.mpr ⟨isInked_mark mark, hinked⟩, hend⟩

theorem isBlank_toAsciiNumber {c : Char} (h : isBlank c = true) :
    isBlank (toAsciiNumber c) = true := by
  unfold toAsciiNumber
  split
  · exact h
  · rfl

theorem isBlank_of_isAsciiBlank {c : Char} (h : isAsciiBlank c = true) : isBlank c = true := by
  simp only [isAsciiBlank, Bool.or_eq_true, Bool.and_eq_true, decide_eq_true_eq, beq_iff_eq] at h
  rcases h with h | rfl
  · simp [isBlank, h]
  · rfl

/-- Inked text stays as it is between blanks, and these stay blank. -/
theorem toAscii_around {l cs r : List Char} (hl : ∀ c ∈ l, isBlank c = true)
    (hr : ∀ c ∈ r, isBlank c = true) (h : ∀ c ∈ cs, IsInked c) :
    ∃ l' r', toAscii (l ++ cs ++ r) = l' ++ cs ++ r' ∧ (∀ c ∈ l', isBlank c = true) ∧
      ∀ c ∈ r', isBlank c = true := by
  have hkept : cs.map toAsciiNumber = cs := by
    refine (List.map_congr_left fun c hc => ?_).trans (List.map_id cs)
    have hmost := (h c hc).2
    exact if_pos (by omega)
  have hblank : ∀ {bs : List Char}, (∀ c ∈ bs, isBlank c = true) →
      ∀ c ∈ bs.map toAsciiNumber, isBlank c = true := by
    intro bs hbs c hc
    obtain ⟨b, hb, rfl⟩ := List.mem_map.mp hc
    exact isBlank_toAsciiNumber (hbs b hb)
  unfold toAscii
  split
  · exact ⟨l, r, rfl, hl, hr⟩
  · exact ⟨l.map toAsciiNumber, r.map toAsciiNumber, by simp [hkept], hblank hl, hblank hr⟩

theorem trimBy_split (p : Char → Bool) (cs : List Char) :
    ∃ l r, cs = l ++ trimBy p cs ++ r ∧ (∀ c ∈ l, p c = true) ∧ ∀ c ∈ r, p c = true := by
  refine ⟨cs.takeWhile p, ((cs.dropWhile p).reverse.takeWhile p).reverse, ?_,
    List.all_eq_true.mp List.all_takeWhile, ?_⟩
  · rw [trimBy, List.append_assoc, ← List.reverse_append, List.takeWhile_append_dropWhile,
      List.reverse_reverse, List.takeWhile_append_dropWhile]
  · intro c hc
    exact List.all_eq_true.mp List.all_takeWhile c (List.mem_reverse.mp hc)

/-- Both ways to trim a text leave the same, if what they leave has no blank. -/
theorem trimBy_toAscii {cs : List Char} (hcore : ∀ c ∈ trimBy isBlank cs, IsInked c)
    (hleft : ∀ c ∈ trimBy isAsciiBlank (toAscii cs), isBlank c = false) :
    trimBy isAsciiBlank (toAscii cs) = trimBy isBlank cs := by
  obtain ⟨l, r, hcs, hl, hr⟩ := trimBy_split isBlank cs
  obtain ⟨l', r', hascii, hl', hr'⟩ := toAscii_around hl hr hcore
  rw [← hcs] at hascii
  obtain ⟨a, b, hleftover, ha, hb⟩ := trimBy_split isAsciiBlank (toAscii cs)
  calc trimBy isAsciiBlank (toAscii cs)
      = trimBy isBlank (a ++ trimBy isAsciiBlank (toAscii cs) ++ b) :=
        (trimBy_around (fun c hc => isBlank_of_isAsciiBlank (ha c hc))
          (fun c hc => isBlank_of_isAsciiBlank (hb c hc)) hleft).symm
    _ = trimBy isBlank (l' ++ trimBy isBlank cs ++ r') := by rw [← hleftover, hascii]
    _ = trimBy isBlank cs :=
        trimBy_around hl' hr' fun c hc => not_blank_of_inked (hcore c hc)

/-! ## The same number -/

theorem ok_of_readParameter {s : String} {v : Value} (h : readParameter 0 (.text s) = .ok v) :
    ∃ m, readInteger 0 s.toList = .ok m ∧ v = .int m := by
  unfold readParameter at h
  dsimp only at h
  split at h
  · rename_i m hm
    exact ⟨m, hm, (Except.ok.inj h).symm⟩
  · cases h

theorem ok_of_toInt {s : String} {n : Int} (h : (Value.text s).toInt none = .ok n) :
    ∃ k : Nat, readSuffixed? s = some k ∧ n = k := by
  cases hread : readSuffixed? s with
  | none =>
    rw [toInt_of_not_read hread] at h
    cases h
  | some k =>
    rw [toInt_of_readSuffixed? hread] at h
    exact ⟨k, rfl, (Except.ok.inj h).symm⟩

theorem splitSign_cases (cs : List Char) :
    ∃ sign, cs = sign ++ (Binary64.splitSign cs).2 ∧ (sign = [] ∨ sign = ['-'] ∨ sign = ['+']) := by
  unfold Binary64.splitSign
  split
  · exact ⟨['-'], rfl, .inr (.inl rfl)⟩
  · exact ⟨['+'], rfl, .inr (.inr rfl)⟩
  · exact ⟨[], rfl, .inl rfl⟩

theorem not_blank_of_readMarked {cs : List Char} {m : Int}
    (h : readMarked 0 (Binary64.splitSign cs).1 (Binary64.splitSign cs).2 = .ok m) :
    ∀ c ∈ cs, isBlank c = false := by
  obtain ⟨n, hmarked, _⟩ := marked_of_readMarked h
  obtain ⟨sign, hcs, hsign⟩ := splitSign_cases cs
  rw [hcs]
  refine List.forall_mem_append.mpr ⟨?_, fun c hc => ?_⟩
  · rcases hsign with rfl | rfl | rfl
    · exact List.forall_mem_nil _
    · exact List.forall_mem_singleton.mpr rfl
    · exact List.forall_mem_singleton.mpr rfl
  · exact not_blank_of_inked (isInked_of_lower (hmarked.isInked _ (List.mem_map_of_mem hc)))

/-- A text that is a number both as an argument and as an entry is the same number as both. -/
theorem readParameter_eq_toInt {s : String} {v : Value} {n : Int}
    (hargument : readParameter 0 (.text s) = .ok v) (hentry : (Value.text s).toInt none = .ok n) :
    v = .int n := by
  obtain ⟨m, hm, rfl⟩ := ok_of_readParameter hargument
  obtain ⟨k, hk, rfl⟩ := ok_of_toInt hentry
  have hlowered := isInked_of_readSuffixed? hk
  have hcore : ∀ c ∈ trimBy isBlank s.toList, IsInked c := fun c hc =>
    isInked_of_lower (hlowered _ (List.mem_map_of_mem hc))
  rw [readInteger_eq rfl] at hm
  rw [trimBy_toAscii hcore (not_blank_of_readMarked hm)] at hm
  rw [splitSign_eq_self] at hm
  · obtain ⟨j, hmarked, rfl⟩ := marked_of_readMarked hm
    rcases (readSuffixed?_eq_some_iff s k).mp hk with hwritten | hremarked
    · rw [eq_of_marked_of_written hmarked hwritten]
      rfl
    · exact absurd hremarked (not_remarked_of_marked hmarked)
  · intro c hc
    have hleast := (hcore c hc).1
    constructor <;> rintro rfl <;> simp at hleast

/-- A hexadecimal number with blanks around it and an underscore in it. -/
theorem readParameter_eq_toInt_hexadecimal :
    readParameter 0 (.text " 0X1_F ") = .ok (.int 31) ∧
      (Value.text " 0X1_F ").toInt none = .ok 31 ∧ Value.int 31 = .int 31 :=
  ⟨by rfl, by rfl, readParameter_eq_toInt (s := " 0X1_F ") (by rfl) (by rfl)⟩

end FirmwareKit.Numeral
