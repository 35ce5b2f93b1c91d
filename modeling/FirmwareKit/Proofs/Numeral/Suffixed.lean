import FirmwareKit.Proofs.Numeral.DigitRun
import FirmwareKit.Value.Conversion
set_option autoImplicit false

namespace FirmwareKit.Numeral
open Text

/-- The text that is read: without the blanks around it and in lower case. Numerals only hold ASCII
characters, and no other character has one of theirs for its lower case. -/
def lowered (s : String) : List Char := (trimBy isBlank s.toList).map Char.toLower

inductive Mark where
  | none
  | binary
  | octal
  | hexadecimal

namespace Mark

def text : Mark → List Char
  | .none => []
  | .binary => ['0', 'b']
  | .octal => ['0', 'o']
  | .hexadecimal => ['0', 'x']

def base : Mark → Nat
  | .none => 10
  | .binary => 2
  | .octal => 8
  | .hexadecimal => 16

end Mark

def IsSuffix (cs : List Char) : Prop := cs.length ≤ 3 ∧ ∀ c ∈ cs, c = 'u' ∨ c = 'l'

inductive Written : List Char → Nat → Prop where
  | intro (mark : Mark) {digits suffix : List Char} {ds : List Nat}
      (hrun : DigitRun mark.base digits ds)
      (hcount : mark.base = 10 → ds.length ≤ Value.greatestDigitCount)
      (hsuffix : IsSuffix suffix) :
      Written (mark.text ++ digits ++ suffix) (ofDigits mark.base ds)

/-- Binary numerals whose digits are marked as binary once more, with an underscore behind the
second mark or none. -/
inductive Remarked : List Char → Nat → Prop where
  | intro {gap digits suffix : List Char} {ds : List Nat} (hgap : gap = [] ∨ gap = ['_'])
      (hrun : DigitRun 2 digits ds) (hsuffix : IsSuffix suffix) :
      Remarked (Mark.binary.text ++ Mark.binary.text ++ gap ++ digits ++ suffix) (ofDigits 2 ds)

/-! ## Characters of a numeral -/

theorem isHexOrUnderscore_iff (c : Char) :
    isHexOrUnderscore c = true ↔ (48 ≤ c.toNat ∧ c.toNat ≤ 57) ∨ (97 ≤ c.toNat ∧ c.toNat ≤ 102) ∨
      c = '_' := by
  simp [isHexOrUnderscore, Char.isDigit, Char.le_def, UInt32.le_iff_toNat_le, or_assoc]

theorem isHexOrUnderscore_of_digit {base d : Nat} {c : Char} (hbase : base ≤ 16)
    (hlower : c.isUpper = false) (h : digitIn? base c = some d) : isHexOrUnderscore c = true := by
  obtain ⟨hvalue, hlt⟩ := Option.filter_eq_some_iff.mp h
  rw [Bool.eq_false_iff, ne_eq, isUpper_iff] at hlower
  rw [isHexOrUnderscore_iff]
  simp [digitValue?, Char.isDigit, Char.le_def, UInt32.le_iff_toNat_le] at hvalue hlt
  split at hvalue
  · omega
  · split at hvalue
    · simp at hvalue
      omega
    · cases hvalue

theorem isBase_base (mark : Mark) : isBase mark.base = true := by cases mark <;> rfl

theorem base_le (mark : Mark) : mark.base ≤ 16 := by cases mark <;> decide

/-- Neither blanks nor signs are among the characters of digits. -/
theorem plain_of_isHexOrUnderscore {c : Char} (h : isHexOrUnderscore c = true) :
    c.toNat < 0x80 ∧ isAsciiBlank c = false ∧ c ≠ '-' ∧ c ≠ '+' := by
  have hrange : 48 ≤ c.toNat ∧ c.toNat ≤ 102 := by
    rcases (isHexOrUnderscore_iff c).mp h with hc | hc | rfl
    · omega
    · omega
    · decide
  have hspace : c ≠ ' ' := by
    rintro rfl
    exact absurd h (by decide)
  refine ⟨by omega, ?_, ?_, ?_⟩
  · simp only [isAsciiBlank, Bool.or_eq_false_iff, Bool.and_eq_false_iff, decide_eq_false_iff_not,
      beq_eq_false_iff_ne]
    exact ⟨.inr (by omega), hspace⟩
  all_goals
    rintro rfl
    exact absurd h (by decide)

/-! ## Integers without blanks and sign -/

def toAscii (cs : List Char) : List Char :=
  if cs.all (·.toNat < 0x80) then cs else cs.map toAsciiNumber

def readMarked (base : Nat) (negative : Bool) (cs : List Char) : Except Refusal Int :=
  match readNatural (findBase base cs).1 (findBase base cs).2.2 with
  | .error r => .error r
  | .ok n =>
    if (findBase base cs).2.1 && n != 0 then .error .malformed
    else .ok (if negative then -(n : Int) else n)

theorem readInteger_eq {base : Nat} (hbase : isBase base = true) (cs : List Char) :
    readInteger base cs =
      readMarked base (Binary64.splitSign (trimBy isAsciiBlank (toAscii cs))).1
        (Binary64.splitSign (trimBy isAsciiBlank (toAscii cs))).2 := by
  rw [readInteger, hbase]
  rfl

theorem dropWhile_before {p : Char → Bool} {l cs : List Char} (hl : ∀ c ∈ l, p c = true)
    (h : ∀ c ∈ cs.head?, p c = false) : (l ++ cs).dropWhile p = cs := by
  rw [List.dropWhile_append_of_pos hl]
  cases cs with
  | nil => rfl
  | cons c cs => simp [h c rfl]

theorem trimBy_around {p : Char → Bool} {l cs r : List Char} (hl : ∀ c ∈ l, p c = true)
    (hr : ∀ c ∈ r, p c = true) (h : ∀ c ∈ cs, p c = false) : trimBy p (l ++ cs ++ r) = cs := by
  have hback : (r.reverse ++ cs.reverse).dropWhile p = cs.reverse := by
    refine dropWhile_before (by simpa using hr) fun c hc => h c ?_
    exact List.mem_reverse.mp (List.mem_of_mem_head? hc)
  cases cs with
  | nil =>
    have hall : (l ++ [] ++ r).dropWhile p = [] := by
      have hends : ((l ++ r) ++ []).dropWhile p = [] :=
        dropWhile_before (List.forall_mem_append.mpr ⟨hl, hr⟩) nofun
      simpa using hends
    rw [trimBy, hall]
    rfl
  | cons c cs =>
    have hfront : (l ++ (c :: cs) ++ r).dropWhile p = (c :: cs) ++ r := by
      rw [List.append_assoc]
      exact dropWhile_before hl (by simpa using h c List.mem_cons_self)
    rw [trimBy, hfront, List.reverse_append, hback, List.reverse_reverse]

theorem trimBy_eq_self {p : Char → Bool} {cs : List Char} (h : ∀ c ∈ cs, p c = false) :
    trimBy p cs = cs := by
  simpa using trimBy_around (l := []) (r := []) (by simp) (by simp) h

theorem splitSign_eq_self {cs : List Char} (h : ∀ c ∈ cs, c ≠ '-' ∧ c ≠ '+') :
    Binary64.splitSign cs = (false, cs) := by
  unfold Binary64.splitSign
  split
  · exact absurd rfl (h _ List.mem_cons_self).1
  · exact absurd rfl (h _ List.mem_cons_self).2
  · rfl

theorem readInteger_digits {base : Nat} {cs : List Char} (hbase : isBase base = true)
    (h : ∀ c ∈ cs, isHexOrUnderscore c = true) :
    readInteger base cs = readMarked base false cs := by
  have hplain (c : Char) (hc : c ∈ cs) := plain_of_isHexOrUnderscore (h c hc)
  have hascii : toAscii cs = cs := if_pos (by simpa using fun c hc => (hplain c hc).1)
  rw [readInteger_eq hbase, hascii, trimBy_eq_self fun c hc => (hplain c hc).2.1,
    splitSign_eq_self fun c hc => (hplain c hc).2.2]

/-! ## Digits behind a mark -/

theorem readMarked_of_unmarked {base : Nat} {cs : List Char} (hbase : base ≠ 0)
    (h : ∀ c rest, cs = '0' :: c :: rest → markBase? c ≠ some base) :
    readMarked base false cs = (readNatural base cs).map Int.ofNat := by
  have hfind : findBase base cs = (base, false, cs) := by
    unfold findBase
    split
    · rename_i c rest
      split
      · rename_i b hb
        rw [if_neg]
        rintro (h0 | rfl)
        · exact hbase h0
        · exact h c rest rfl hb
      · rw [if_neg hbase]
    · rw [if_neg hbase]
  rw [readMarked, hfind]
  cases readNatural base cs <;> rfl

theorem readMarked_binary (rest : List Char) :
    readMarked 2 false ('0' :: 'b' :: rest) =
      (readNatural 2 (afterMark rest)).map Int.ofNat := by
  have hfind : findBase 2 ('0' :: 'b' :: rest) = (2, false, afterMark rest) := rfl
  rw [readMarked, hfind]
  cases readNatural 2 (afterMark rest) <;> rfl

/-- Among the characters of digits only `b` can be a mark. -/
theorem markBase?_of_isHexOrUnderscore {c : Char} {base : Nat} (hc : isHexOrUnderscore c = true)
    (h : markBase? c = some base) : c = 'b' ∧ base = 2 := by
  have hlower : c.toLower = c := by
    rcases hu : c.isUpper with _ | _
    · exact toLower_of_not_upper hu
    · revert hc
      exact forall_upper (p := fun c => isHexOrUnderscore c = true → c.toLower = c) (by decide) hu
  rw [markBase?, hlower] at h
  split at h
  · exact absurd hc (by decide)
  · exact absurd hc (by decide)
  · exact ⟨rfl, (Option.some.inj h).symm⟩
  · cases h

theorem readable_iff (mark : Mark) (count : Nat) :
    Readable mark.base count ↔ (mark.base = 10 → count ≤ Value.greatestDigitCount) := by
  cases mark <;> simp [Readable, Mark.base, isPowerOfTwo]

theorem readInteger_of_run {mark : Mark} {cs : List Char} {ds : List Nat}
    (h : ∀ c ∈ cs, isHexOrUnderscore c = true) (hrun : DigitRun mark.base cs ds)
    (hcount : mark.base = 10 → ds.length ≤ Value.greatestDigitCount) :
    readInteger mark.base cs = .ok (ofDigits mark.base ds) := by
  have hread := (readNatural_eq_ok_iff mark.base cs _).mpr
    ⟨ds, hrun, (readable_iff mark ds.length).mpr hcount, rfl⟩
  rw [readInteger_digits (isBase_base mark) h, readMarked_of_unmarked (by cases mark <;> decide) ?_,
    hread]
  · rfl
  · rintro c rest rfl hmark
    obtain ⟨rfl, hbase⟩ := markBase?_of_isHexOrUnderscore (h c (by simp)) hmark
    rw [hbase] at hrun
    rcases hrun.mem (List.mem_cons_of_mem _ List.mem_cons_self) with ⟨d, hd⟩ | hd
    · cases hd
    · cases hd

theorem map_ofNat_eq_ok {r : Except Refusal Nat} {n : Int} (h : r.map Int.ofNat = .ok n) :
    ∃ m : Nat, r = .ok m ∧ n = m := by
  cases r with
  | error => cases h
  | ok m => exact ⟨m, rfl, (Except.ok.inj h).symm⟩

/-- The characters of digits are read as a run or, if they are binary, as a second mark with a run
behind it. -/
theorem run_or_remarked {mark : Mark} {cs : List Char} {n : Int}
    (h : ∀ c ∈ cs, isHexOrUnderscore c = true) (hread : readInteger mark.base cs = .ok n) :
    (∃ ds, DigitRun mark.base cs ds ∧
        (mark.base = 10 → ds.length ≤ Value.greatestDigitCount) ∧ n = ofDigits mark.base ds) ∨
      ∃ gap digits ds, mark = .binary ∧ cs = Mark.binary.text ++ gap ++ digits ∧
        (gap = [] ∨ gap = ['_']) ∧ DigitRun 2 digits ds ∧ n = ofDigits 2 ds := by
  rw [readInteger_digits (isBase_base mark) h] at hread
  by_cases hsecond : mark = .binary ∧ ∃ rest, cs = '0' :: 'b' :: rest
  · obtain ⟨rfl, rest, rfl⟩ := hsecond
    change readMarked 2 false _ = _ at hread
    rw [readMarked_binary] at hread
    obtain ⟨m, hm, rfl⟩ := map_ofNat_eq_ok hread
    obtain ⟨ds, hrun, _, rfl⟩ := (readNatural_eq_ok_iff 2 _ m).mp hm
    right
    unfold afterMark at hrun
    split at hrun
    · exact ⟨['_'], _, ds, rfl, rfl, .inr rfl, hrun, rfl⟩
    · exact ⟨[], rest, ds, rfl, rfl, .inl rfl, hrun, rfl⟩
  · rw [readMarked_of_unmarked (by cases mark <;> decide)] at hread
    · obtain ⟨m, hm, rfl⟩ := map_ofNat_eq_ok hread
      obtain ⟨ds, hrun, hcount, rfl⟩ := (readNatural_eq_ok_iff _ _ m).mp hm
      exact .inl ⟨ds, hrun, (readable_iff mark ds.length).mp hcount, rfl⟩
    · rintro c rest rfl hmark
      obtain ⟨rfl, hbase⟩ := markBase?_of_isHexOrUnderscore (h c (by simp)) hmark
      refine hsecond ⟨?_, rest, rfl⟩
      cases mark <;> first | rfl | cases hbase

theorem readInteger_remarked {gap digits : List Char} {ds : List Nat}
    (hgap : gap = [] ∨ gap = ['_']) (hrun : DigitRun 2 digits ds)
    (h : ∀ c ∈ Mark.binary.text ++ gap ++ digits, isHexOrUnderscore c = true) :
    readInteger 2 (Mark.binary.text ++ gap ++ digits) = .ok (ofDigits 2 ds) := by
  have hread := (readNatural_eq_ok_iff 2 digits _).mpr ⟨ds, hrun, .inl rfl, rfl⟩
  have hafter : afterMark (gap ++ digits) = digits := by
    rcases hgap with rfl | rfl
    · obtain ⟨c, rest, d, rfl, hd⟩ := hrun.head
      unfold afterMark
      split
      · rename_i heq
        exact absurd (List.cons.inj heq).1 (ne_underscore_of_digit hd)
      · rfl
    · rfl
  rw [readInteger_digits rfl h]
  change readMarked 2 false ('0' :: 'b' :: (gap ++ digits)) = _
  rw [readMarked_binary, hafter, hread]
  rfl

/-! ## Numerals -/

theorem splitMark_cases (cs : List Char) :
    ∃ (mark : Mark) (body : List Char), cs = mark.text ++ body ∧
      splitMark cs = (mark.base, body) := by
  unfold splitMark
  split
  · exact ⟨.binary, _, rfl, rfl⟩
  · exact ⟨.octal, _, rfl, rfl⟩
  · exact ⟨.hexadecimal, _, rfl, rfl⟩
  · exact ⟨.none, _, rfl, rfl⟩

theorem isSuffix_iff (cs : List Char) :
    IsSuffix cs ↔ (cs.length ≤ 3 && cs.all isSuffixLetter) = true := by
  simp [IsSuffix, isSuffixLetter]

theorem lower_of_mem_lowered {s : String} {c : Char} (h : c ∈ lowered s) : c.isUpper = false := by
  obtain ⟨d, _, rfl⟩ := List.mem_map.mp h
  exact not_upper_toLower d

theorem readSuffixed?_eq (s : String) :
    readSuffixed? s =
      match splitMark (lowered s) with
      | (base, body) =>
        if !(body.takeWhile isHexOrUnderscore).isEmpty &&
            (body.dropWhile isHexOrUnderscore).length ≤ 3 &&
            (body.dropWhile isHexOrUnderscore).all isSuffixLetter then
          match readInteger base (body.takeWhile isHexOrUnderscore) with
          | .ok n => some n.toNat
          | .error _ => none
        else none := rfl

/-- What a text is read as whose digits end where a suffix begins. -/
theorem readSuffixed?_of_split {s : String} {base : Nat} {digits suffix : List Char}
    (hsplit : splitMark (lowered s) = (base, digits ++ suffix)) (hne : digits ≠ [])
    (hdigits : ∀ c ∈ digits, isHexOrUnderscore c = true) (hsuffix : IsSuffix suffix) :
    readSuffixed? s = (readInteger base digits).toOption.map Int.toNat := by
  have hnone : suffix.takeWhile isHexOrUnderscore = [] ∧
      suffix.dropWhile isHexOrUnderscore = suffix := by
    cases suffix with
    | nil => exact ⟨rfl, rfl⟩
    | cons c rest =>
      have hc : isHexOrUnderscore c = false := by
        rcases hsuffix.2 c List.mem_cons_self with rfl | rfl <;> decide
      simp [hc]
  have htake : (digits ++ suffix).takeWhile isHexOrUnderscore = digits := by
    rw [List.takeWhile_append_of_pos hdigits, hnone.1, List.append_nil]
  have hdrop : (digits ++ suffix).dropWhile isHexOrUnderscore = suffix := by
    rw [List.dropWhile_append_of_pos hdigits, hnone.2]
  have hcond : (!digits.isEmpty && suffix.length ≤ 3 && suffix.all isSuffixLetter) = true := by
    rw [Bool.and_assoc, (isSuffix_iff suffix).mp hsuffix]
    simpa using hne
  rw [readSuffixed?_eq, hsplit]
  simp only [htake, hdrop, hcond, if_true]
  cases readInteger base digits <;> rfl

theorem exists_of_readSuffixed? {s : String} {n : Nat} (h : readSuffixed? s = some n) :
    ∃ (mark : Mark) (digits suffix : List Char), lowered s = mark.text ++ digits ++ suffix ∧
      (∀ c ∈ digits, isHexOrUnderscore c = true) ∧ IsSuffix suffix ∧
      ∃ m, readInteger mark.base digits = .ok m ∧ n = m.toNat := by
  obtain ⟨mark, body, hs, hsplit⟩ := splitMark_cases (lowered s)
  rw [readSuffixed?_eq, hsplit] at h
  dsimp only at h
  split at h
  case isFalse => cases h
  case isTrue hcond =>
    split at h
    case h_2 => cases h
    case h_1 m hm =>
      rw [Bool.and_assoc, Bool.and_eq_true_iff] at hcond
      refine ⟨mark, _, _, ?_, List.all_eq_true.mp List.all_takeWhile, (isSuffix_iff _).mpr hcond.2, m,
        hm, (Option.some.inj h).symm⟩
      rw [List.append_assoc, List.takeWhile_append_dropWhile, hs]

/-- Behind the digits of a decimal run no mark is read. -/
theorem splitMark_text {mark : Mark} {digits suffix : List Char} {ds : List Nat}
    (hrun : DigitRun mark.base digits ds) (hsuffix : IsSuffix suffix) :
    splitMark (mark.text ++ digits ++ suffix) = (mark.base, digits ++ suffix) := by
  cases mark with
  | binary => rfl
  | octal => rfl
  | hexadecimal => rfl
  | none =>
    have hmem (c : Char) (hc : c ∈ digits ++ suffix) : c ≠ 'b' ∧ c ≠ 'o' ∧ c ≠ 'x' := by
      rcases List.mem_append.mp hc with hc | hc
      · rcases hrun.mem hc with ⟨d, hd⟩ | rfl
        · refine ⟨?_, ?_, ?_⟩ <;> rintro rfl <;> cases hd
        · decide
      · rcases hsuffix.2 c hc with rfl | rfl <;> decide
    change splitMark (digits ++ suffix) = (10, digits ++ suffix)
    generalize digits ++ suffix = cs at hmem
    unfold splitMark
    split
    · exact absurd rfl (hmem 'b' (by simp)).1
    · exact absurd rfl (hmem 'o' (by simp)).2.1
    · exact absurd rfl (hmem 'x' (by simp)).2.2
    · rfl

theorem isHexOrUnderscore_of_run {base : Nat} {digits : List Char} {ds : List Nat}
    (hbase : base ≤ 16) (hrun : DigitRun base digits ds)
    (hlower : ∀ c ∈ digits, c.isUpper = false) : ∀ c ∈ digits, isHexOrUnderscore c = true := by
  intro c hc
  rcases hrun.mem hc with ⟨d, hd⟩ | rfl
  · exact isHexOrUnderscore_of_digit hbase (hlower c hc) hd
  · decide

theorem DigitRun.ne_nil {base : Nat} {digits : List Char} {ds : List Nat}
    (hrun : DigitRun base digits ds) : digits ≠ [] := by
  obtain ⟨c, rest, _, rfl, _⟩ := hrun.head
  exact List.cons_ne_nil c rest

theorem readSuffixed?_of_written {s : String} {n : Nat} (h : Written (lowered s) n) :
    readSuffixed? s = some n := by
  generalize ht : lowered s = t at h
  cases h with
  | @intro mark digits suffix ds hrun hcount hsuffix =>
    have hhex := isHexOrUnderscore_of_run (base_le mark) hrun fun c hc =>
      lower_of_mem_lowered (s := s) (by simp [ht, hc])
    rw [readSuffixed?_of_split (ht ▸ splitMark_text hrun hsuffix) hrun.ne_nil hhex hsuffix,
      readInteger_of_run hhex hrun hcount]
    rfl

theorem readSuffixed?_of_remarked {s : String} {n : Nat} (h : Remarked (lowered s) n) :
    readSuffixed? s = some n := by
  generalize ht : lowered s = t at h
  cases h with
  | @intro gap digits suffix ds hgap hrun hsuffix =>
    have hhex : ∀ c ∈ Mark.binary.text ++ gap ++ digits, isHexOrUnderscore c = true := by
      have hdigits := isHexOrUnderscore_of_run (by decide) hrun fun c hc =>
        lower_of_mem_lowered (s := s) (by simp [ht, hc])
      have hbegin : ∀ c ∈ Mark.binary.text ++ gap, isHexOrUnderscore c = true :=
        List.all_eq_true.mp (by rcases hgap with rfl | rfl <;> rfl)
      exact List.forall_mem_append.mpr ⟨hbegin, hdigits⟩
    have hsplit : splitMark (lowered s) =
        (2, Mark.binary.text ++ gap ++ digits ++ suffix) := by
      rw [ht]
      rfl
    rw [readSuffixed?_of_split hsplit (by simp [Mark.text]) hhex hsuffix,
      readInteger_remarked hgap hrun hhex]
    rfl

theorem readSuffixed?_eq_some_iff (s : String) (n : Nat) :
    readSuffixed? s = some n ↔ Written (lowered s) n ∨ Remarked (lowered s) n := by
  constructor
  · intro h
    obtain ⟨mark, digits, suffix, hs, hdigits, hsuffix, m, hm, rfl⟩ := exists_of_readSuffixed? h
    rcases run_or_remarked hdigits hm with
      ⟨ds, hrun, hcount, rfl⟩ | ⟨gap, run, ds, rfl, rfl, hgap, hrun, rfl⟩
    · rw [hs, Int.toNat_natCast]
      exact .inl (.intro mark hrun hcount hsuffix)
    · rw [hs, Int.toNat_natCast]
      simp only [← List.append_assoc]
      exact .inr (.intro hgap hrun hsuffix)
  · rintro (h | h)
    · exact readSuffixed?_of_written h
    · exact readSuffixed?_of_remarked h

/-! ## Numbers of texts -/

theorem splitMark_remarked {t : List Char} {n : Nat} (h : Remarked t n) :
    ∃ rest, splitMark t = (2, '0' :: 'b' :: rest) := by
  cases h with
  | intro => exact ⟨_, rfl⟩

/-- A second mark is no digit. -/
theorem not_written_of_remarked {t : List Char} {n m : Nat} (h : Remarked t n) :
    ¬ Written t m := by
  intro hwritten
  obtain ⟨rest, hrest⟩ := splitMark_remarked h
  cases hwritten with
  | @intro mark digits suffix ds hrun hcount hsuffix =>
    rw [splitMark_text hrun hsuffix, Prod.mk.injEq] at hrest
    obtain ⟨hbase, hrest⟩ := hrest
    have hmem : 'b' ∈ digits ++ suffix := by simp [hrest]
    rw [hbase] at hrun
    rcases List.mem_append.mp hmem with hb | hb
    · rcases hrun.mem hb with ⟨d, hd⟩ | hd <;> cases hd
    · rcases hsuffix.2 _ hb with hb | hb <;> cases hb

/-- What is asked of the number of a text: the value of its numeral and, where it is none, the
default or a fault that names the text. -/
def IsNumberOf (s : String) (default : Option Int) (number : Except Fault Int) : Prop :=
  (∀ n, Written (lowered s) n → number = .ok n) ∧
    ((∀ n, ¬ Written (lowered s) n) → number = default.elim (.error (.notNumber (.text s))) .ok)

theorem toInt?_text (s : String) :
    (Value.text s).toInt? = (readSuffixed? s).map Int.ofNat := rfl

theorem toInt_of_readSuffixed? {s : String} {n : Nat} (h : readSuffixed? s = some n)
    (default : Option Int) : (Value.text s).toInt default = .ok n := by
  unfold Value.toInt
  rw [toInt?_text, h]
  rfl

theorem toInt_of_not_read {s : String} (h : readSuffixed? s = none) (default : Option Int) :
    (Value.text s).toInt default = default.elim (.error (.notNumber (.text s))) .ok := by
  unfold Value.toInt
  rw [toInt?_text, h]
  cases default <;> rfl

/-- The number of a text is that of its numeral, unless its binary digits have a second mark. -/
theorem isNumberOf_toInt_iff (s : String) :
    (∀ default, IsNumberOf s default ((Value.text s).toInt default)) ↔
      ∀ n, ¬ Remarked (lowered s) n := by
  constructor
  · intro h n hremarked
    have hread := toInt_of_readSuffixed? (readSuffixed?_of_remarked hremarked) none
    have hrefused := (h none).2 fun m => not_written_of_remarked hremarked
    rw [hread] at hrefused
    cases hrefused
  · intro hremarked default
    refine ⟨fun n hn => toInt_of_readSuffixed? (readSuffixed?_of_written hn) default, ?_⟩
    intro hwritten
    refine toInt_of_not_read (Option.eq_none_iff_forall_ne_some.mpr fun n hn => ?_) default
    rcases (readSuffixed?_eq_some_iff s n).mp hn with h | h
    · exact hwritten n h
    · exact hremarked n h

/-- Binary digits with a second mark are read though they are no numeral. -/
theorem toInt_remarked :
    (Value.text "0b0b1").toInt none = .ok 1 ∧ ∀ n, ¬ Written (lowered "0b0b1") n := by
  have hremarked : Remarked (lowered "0b0b1") 1 :=
    .intro (.inl rfl) (.last (c := '1') rfl) ⟨by decide, by simp⟩
  exact ⟨toInt_of_readSuffixed? (readSuffixed?_of_remarked hremarked) none,
    fun n => not_written_of_remarked hremarked⟩

end FirmwareKit.Numeral
