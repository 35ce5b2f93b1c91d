import FirmwareKit.Log.Record
import Mathlib.Data.List.Infix
import Mathlib.Data.List.TakeWhile
set_option autoImplicit false

namespace FirmwareKit.Record

def IsColor (cs : List Char) : Prop :=
  ∃ digits : List Char, 1 ≤ digits.length ∧ digits.length ≤ 3 ∧
    (∀ d ∈ digits, (Text.decimalDigit? d).isSome = true) ∧
    cs = escape :: '[' :: (digits ++ ['m'])

def Colorless (cs : List Char) : Prop := ∀ color, IsColor color → ¬ color <:+: cs

def EscapesColor (cs : List Char) : Prop :=
  ∀ t ∈ cs.tails, t.head? = some escape → (afterColor? t).isSome = true

instance (cs : List Char) : Decidable (EscapesColor cs) :=
  inferInstanceAs (Decidable (∀ t ∈ cs.tails, t.head? = some escape → _ = true))

variable {cs xs ys rest color : List Char} {c : Char}

theorem IsColor.length_pos (h : IsColor color) : 0 < color.length := by
  obtain ⟨digits, -, -, -, rfl⟩ := h
  exact Nat.succ_pos _

theorem IsColor.escape_mem (h : IsColor color) : escape ∈ color := by
  obtain ⟨digits, -, -, -, rfl⟩ := h
  exact List.mem_cons_self

theorem IsColor.not_mem (h : IsColor color)
    (hc : c ≠ escape ∧ c ≠ '[' ∧ c ≠ 'm' ∧ Text.decimalDigit? c = none) : c ∉ color := by
  obtain ⟨digits, -, -, hdigits, rfl⟩ := h
  obtain ⟨hescape, hbracket, hletter, hdigit⟩ := hc
  simp only [List.mem_cons, List.mem_append, List.not_mem_nil, or_false, hescape, hbracket, hletter,
    false_or]
  intro hmem
  have hsome := hdigits c hmem
  rw [hdigit] at hsome
  cases hsome

theorem afterColor?_eq_some_iff :
    afterColor? cs = some rest ↔ ∃ color, IsColor color ∧ cs = color ++ rest := by
  constructor
  · intro h
    unfold afterColor? at h
    split at h
    case h_1 c tail =>
      dsimp only at h
      split at h
      case h_1 behind hbehind =>
        split at h
        case isTrue hcolor =>
          obtain ⟨rfl, hlow, hhigh⟩ := hcolor
          cases h
          have hdigits (d : Char)
              (hd : d ∈ tail.takeWhile fun d => (Text.decimalDigit? d).isSome) :=
            List.mem_takeWhile_imp (p := fun d => (Text.decimalDigit? d).isSome) hd
          refine ⟨_, ⟨_, hlow, hhigh, hdigits, rfl⟩, ?_⟩
          rw [List.cons_append, List.cons_append, List.append_assoc, List.singleton_append,
            ← hbehind, List.takeWhile_append_dropWhile]
        case isFalse => cases h
      case h_2 => cases h
    case h_2 => cases h
  · rintro ⟨_, ⟨digits, hlow, hhigh, hdigits, rfl⟩, rfl⟩
    have hletter : (Text.decimalDigit? 'm').isSome = false := by decide
    have htake : (digits ++ 'm' :: rest).takeWhile (fun d => (Text.decimalDigit? d).isSome) =
        digits := by
      rw [List.takeWhile_append_of_pos hdigits, List.takeWhile_cons_of_neg (by simp [hletter]),
        List.append_nil]
    have hdrop : (digits ++ 'm' :: rest).dropWhile (fun d => (Text.decimalDigit? d).isSome) =
        'm' :: rest := by
      rw [List.dropWhile_append_of_pos hdigits, List.dropWhile_cons_of_neg (by simp [hletter])]
    simp only [List.cons_append, List.append_assoc, List.nil_append, afterColor?, htake, hdrop]
    exact if_pos ⟨trivial, hlow, hhigh⟩

theorem length_of_afterColor? (h : afterColor? cs = some rest) : rest.length < cs.length := by
  obtain ⟨color, hcolor, rfl⟩ := afterColor?_eq_some_iff.mp h
  rw [List.length_append]
  exact Nat.lt_add_of_pos_left hcolor.length_pos

theorem colorless_nil : Colorless [] := by
  intro color hcolor hinside
  have hlength := hinside.length_le
  exact absurd hcolor.length_pos (Nat.not_lt.mpr hlength)

theorem colorless_cons_iff : Colorless (c :: cs) ↔ afterColor? (c :: cs) = none ∧ Colorless cs := by
  constructor
  · intro h
    refine ⟨Option.eq_none_iff_forall_ne_some.mpr fun rest hrest => ?_,
      fun color hcolor hinside => h color hcolor (List.infix_cons hinside)⟩
    obtain ⟨color, hcolor, heq⟩ := afterColor?_eq_some_iff.mp hrest
    exact h color hcolor (List.IsPrefix.isInfix ⟨rest, heq.symm⟩)
  · rintro ⟨hnone, h⟩ color hcolor hinside
    rcases List.infix_cons_iff.mp hinside with ⟨rest, heq⟩ | hinside
    · rw [afterColor?_eq_some_iff.mpr ⟨color, hcolor, heq.symm⟩] at hnone
      cases hnone
    · exact h color hcolor hinside

theorem colorless_of_not_mem (h : escape ∉ cs) : Colorless cs :=
  fun _ hcolor hinside => h (hinside.subset hcolor.escape_mem)

theorem prefix_of_not_mem (hbegin : xs <+: ys ++ c :: rest) (hc : c ∉ xs) : xs <+: ys := by
  rcases List.prefix_or_prefix_of_prefix hbegin (List.prefix_append ys (c :: rest)) with h | h
  · exact h
  · obtain ⟨behind, rfl⟩ := h
    cases behind with
    | nil => exact (List.append_nil ys).symm ▸ List.prefix_rfl
    | cons d behind =>
      obtain ⟨rfl, -⟩ := List.cons_prefix_cons.mp ((List.prefix_append_right_inj ys).mp hbegin)
      exact absurd (List.mem_append_right ys List.mem_cons_self) hc

/-- A character that no colour sequence holds keeps what is before it from what is behind. -/
theorem colorless_append_cons_iff
    (hc : c ≠ escape ∧ c ≠ '[' ∧ c ≠ 'm' ∧ Text.decimalDigit? c = none) :
    Colorless (xs ++ c :: ys) ↔ Colorless xs ∧ Colorless ys := by
  constructor
  · intro h
    refine ⟨fun color hcolor hinside => h color hcolor ?_, fun color hcolor hinside => ?_⟩
    · exact hinside.trans (List.prefix_append xs (c :: ys)).isInfix
    · exact h color hcolor
        (hinside.trans ((List.suffix_cons c ys).trans (List.suffix_append xs _)).isInfix)
  · rintro ⟨hxs, hys⟩
    -- a sequence that begins before the character ends before it as well
    induction xs with
    | nil =>
      refine colorless_cons_iff.mpr ⟨Option.eq_none_iff_forall_ne_some.mpr fun rest hrest => ?_, hys⟩
      obtain ⟨color, hcolor, heq⟩ := afterColor?_eq_some_iff.mp hrest
      have hnil : color <+: [] := prefix_of_not_mem ⟨rest, heq.symm⟩ (hcolor.not_mem hc)
      exact absurd hcolor.length_pos (Nat.not_lt.mpr hnil.length_le)
    | cons x xs ih =>
      obtain ⟨hnone, hxs⟩ := colorless_cons_iff.mp hxs
      refine colorless_cons_iff.mpr ⟨Option.eq_none_iff_forall_ne_some.mpr fun rest hrest => ?_,
        ih hxs⟩
      obtain ⟨color, hcolor, heq⟩ := afterColor?_eq_some_iff.mp hrest
      obtain ⟨behind, heq⟩ : color <+: x :: xs :=
        prefix_of_not_mem ⟨rest, heq.symm⟩ (hcolor.not_mem hc)
      rw [afterColor?_eq_some_iff.mpr ⟨color, hcolor, heq.symm⟩] at hnone
      cases hnone

theorem length_withoutColorsFrom (n : Nat) (cs : List Char) :
    (withoutColorsFrom n cs).length ≤ cs.length := by
  induction n generalizing cs with
  | zero => exact Nat.le_refl _
  | succ n ih =>
    cases cs with
    | nil => exact Nat.le_refl _
    | cons c cs =>
      rw [withoutColorsFrom]
      split
      case h_1 rest hrest => exact (ih rest).trans (length_of_afterColor? hrest).le
      case h_2 => exact Nat.succ_le_succ (ih cs)

/-- Nothing is removed exactly from the texts without colours. -/
theorem withoutColorsFrom_eq_iff {n : Nat} (hn : cs.length ≤ n) :
    withoutColorsFrom n cs = cs ↔ Colorless cs := by
  -- once a sequence is removed, the length tells the result from the text
  induction n generalizing cs with
  | zero =>
    cases List.eq_nil_of_length_eq_zero (Nat.le_zero.mp hn)
    exact iff_of_true rfl colorless_nil
  | succ n ih =>
    cases cs with
    | nil => exact iff_of_true rfl colorless_nil
    | cons c cs =>
      rw [withoutColorsFrom, colorless_cons_iff]
      split
      case h_1 rest hrest =>
        refine iff_of_false (fun heq => ?_) (fun h => ?_)
        · have hlength := length_withoutColorsFrom n rest
          rw [heq] at hlength
          exact absurd (length_of_afterColor? hrest) (Nat.not_lt.mpr hlength)
        · rw [hrest] at h
          cases h.1
      case h_2 hnone =>
        rw [List.cons_inj_right, ih (Nat.le_of_succ_le_succ hn)]
        exact (and_iff_right hnone).symm

theorem withoutColors_eq_iff (s : String) : withoutColors s = s ↔ Colorless s.toList := by
  rw [← withoutColorsFrom_eq_iff (Nat.le_of_eq String.length_toList), ← String.toList_inj,
    withoutColors, String.toList_ofList]

theorem EscapesColor.suffix (h : EscapesColor cs) (hsuffix : rest <:+ cs) : EscapesColor rest :=
  fun t ht => h t ((List.mem_tails _ _).mpr (((List.mem_tails _ _).mp ht).trans hsuffix))

/-- If all escapes begin colour sequences, none is left. -/
theorem escape_not_mem_withoutColorsFrom {n : Nat} (hn : cs.length ≤ n) (h : EscapesColor cs) :
    escape ∉ withoutColorsFrom n cs := by
  induction n generalizing cs with
  | zero =>
    cases List.eq_nil_of_length_eq_zero (Nat.le_zero.mp hn)
    exact List.not_mem_nil
  | succ n ih =>
    cases cs with
    | nil => exact List.not_mem_nil
    | cons c cs =>
      rw [withoutColorsFrom]
      split
      case h_1 rest hrest =>
        have hlength := length_of_afterColor? hrest
        obtain ⟨color, -, heq⟩ := afterColor?_eq_some_iff.mp hrest
        exact ih (Nat.le_of_lt_succ (hlength.trans_le hn)) (h.suffix ⟨color, heq.symm⟩)
      case h_2 hnone =>
        rw [List.mem_cons, not_or]
        refine ⟨?_, ih (Nat.le_of_succ_le_succ hn) (h.suffix (List.suffix_cons c cs))⟩
        rintro rfl
        have hsome := h _ ((List.mem_tails _ _).mpr List.suffix_rfl) rfl
        rw [hnone] at hsome
        cases hsome

theorem escape_not_mem_withoutColors {s : String} (h : EscapesColor s.toList) :
    escape ∉ (withoutColors s).toList := by
  rw [withoutColors, String.toList_ofList]
  exact escape_not_mem_withoutColorsFrom (Nat.le_of_eq String.length_toList) h

end FirmwareKit.Record
