import FirmwareKit.Proofs.Text.Integer
import FirmwareKit.Proofs.Text.Rows
import FirmwareKit.Value.Text
set_option autoImplicit false

namespace FirmwareKit
namespace Text

def Printable (cs : List Char) : Prop := ∀ c ∈ cs, isPrintable c = true

instance (cs : List Char) : Decidable (Printable cs) :=
  decidable_of_iff (cs.all isPrintable = true) List.all_eq_true

variable {xs ys cs : List Char}

@[simp] theorem printable_nil : Printable [] := List.forall_mem_nil _

@[simp] theorem printable_cons_iff {c : Char} :
    Printable (c :: cs) ↔ isPrintable c = true ∧ Printable cs := List.forall_mem_cons

@[simp] theorem printable_append_iff : Printable (xs ++ ys) ↔ Printable xs ∧ Printable ys :=
  List.forall_mem_append

theorem Printable.sublist (h : Printable ys) (hsub : xs.Sublist ys) : Printable xs :=
  fun c hc => h c (hsub.subset hc)

theorem printable_replicate {c : Char} (h : isPrintable c = true) (n : Nat) :
    Printable (List.replicate n c) := fun _ hd => List.eq_of_mem_replicate hd ▸ h

theorem printable_flatMap {α : Type} {f : α → List Char} {l : List α} (h : ∀ x ∈ l, Printable (f x)) :
    Printable (l.flatMap f) := by
  intro c hc
  obtain ⟨x, hx, hc⟩ := List.mem_flatMap.mp hc
  exact h x hx c hc

/-- Between the texts that are joined stands the separator. -/
theorem printable_intercalate {separator : String} {parts : List String}
    (hseparator : Printable separator.toList) (h : ∀ p ∈ parts, Printable p.toList) :
    Printable (separator.intercalate parts).toList := by
  intro c hc
  refine Decidable.byContradiction fun hnot => ?_
  exact not_mem_intercalate (fun hmem => hnot (hseparator c hmem))
    (fun p hp hmem => hnot (h p hp c hmem)) hc

theorem printable_between {before s after : String} (hbefore : Printable before.toList)
    (h : Printable s.toList) (hafter : Printable after.toList) :
    Printable (before ++ s ++ after).toList := by
  rw [String.toList_append, String.toList_append, printable_append_iff, printable_append_iff]
  exact ⟨⟨hbefore, h⟩, hafter⟩

/-! ## Numbers -/

theorem isPrintable_of_ascii {c : Char} (hlow : 0x20 ≤ c.toNat) (hhigh : c.toNat < 0x7F) :
    isPrintable c = true := by
  rw [isPrintable, if_pos hhigh]
  exact decide_eq_true hlow

theorem printable_toDigits {base : Nat} (hone : 1 < base) (hbase : base ≤ 16) (n : Nat) :
    Printable (Nat.toDigits base n) := by
  have hdigit : ∀ d < 16, isPrintable (Nat.digitChar d) = true := by decide
  induction n using Nat.strongRecOn with
  | _ n ih =>
    by_cases hn : n < base
    · rw [Nat.toDigits_of_lt_base hn]
      simp [hdigit n (by omega)]
    · have hmod : n % base < base := Nat.mod_lt n (by omega)
      rw [Nat.toDigits_of_base_le hone (by omega), printable_append_iff]
      refine ⟨ih _ (Nat.div_lt_self (by omega) hone), ?_⟩
      simp [hdigit (n % base) (by omega)]

theorem printable_decimal (n : Nat) : Printable (decimal n) :=
  printable_toDigits (by decide) (by decide) n

theorem printable_integer (n : Int) : Printable (integer n) := by
  rw [integer]
  split
  case isTrue => exact printable_cons_iff.mpr ⟨rfl, printable_decimal _⟩
  case isFalse => exact printable_decimal _

theorem printable_padLeft {c : Char} (width : Nat) (hc : isPrintable c = true)
    (h : Printable cs) : Printable (padLeft width c cs) :=
  printable_append_iff.mpr ⟨printable_replicate hc _, h⟩

theorem printable_padRight {c : Char} (width : Nat) (hc : isPrintable c = true)
    (h : Printable cs) : Printable (padRight width c cs) :=
  printable_append_iff.mpr ⟨h, printable_replicate hc _⟩

theorem printable_lowerHex (width n : Nat) : Printable (lowerHex width n) :=
  printable_padLeft width rfl (printable_toDigits (by decide) (by decide) n)

/-! ## Quoted text and bytes -/

theorem isPrintable_chooseQuote (cs : List Char) : isPrintable (chooseQuote cs) = true := by
  rw [chooseQuote]
  split <;> rfl

theorem isPrintable_escapeLetter {c l : Char} (h : escapeLetter? c = some l) :
    isPrintable l = true := by
  unfold escapeLetter? at h
  split at h <;> cases h <;> rfl

theorem printable_escapeCode (n : Nat) : Printable (escapeCode n) := by
  rw [escapeCode]
  split
  case isTrue => simp [printable_lowerHex, isPrintable]
  case isFalse =>
    split <;> simp [printable_lowerHex, isPrintable]

theorem printable_escapeChar {quote : Char} (hquote : isPrintable quote = true) (c : Char) :
    Printable (escapeChar quote c) := by
  rw [escapeChar]
  split
  case isTrue heq => exact printable_cons_iff.mpr ⟨rfl, by simpa [heq] using hquote⟩
  case isFalse =>
    split
    case h_1 l hl => exact printable_cons_iff.mpr ⟨rfl, by simpa using isPrintable_escapeLetter hl⟩
    case h_2 =>
      split
      case isTrue hc => simpa using hc
      case isFalse => exact printable_escapeCode _

theorem printable_quoted (cs : List Char) : Printable (quoted cs) := by
  have hquote := isPrintable_chooseQuote cs
  simp only [quoted, List.cons_append, printable_cons_iff, printable_append_iff, printable_nil]
  exact ⟨hquote, printable_flatMap fun c _ => printable_escapeChar hquote c, hquote, trivial⟩

theorem printable_escapeByte {quote : Char} (hquote : isPrintable quote = true) (b : UInt8) :
    Printable (escapeByte quote b) := by
  simp only [escapeByte]
  split
  case isTrue heq => exact printable_cons_iff.mpr ⟨rfl, by simpa [heq] using hquote⟩
  case isFalse =>
    split
    case h_1 l hl => exact printable_cons_iff.mpr ⟨rfl, by simpa using isPrintable_escapeLetter hl⟩
    case h_2 =>
      split
      case isTrue hb =>
        have hvalue : (Char.ofNat b.toNat).toNat = b.toNat := by
          rw [Char.ofNat, dif_pos (.inl (by omega))]
          rfl
        have hprints := isPrintable_of_ascii (c := Char.ofNat b.toNat) (by omega) (by omega)
        simpa using hprints
      case isFalse => simp [printable_lowerHex, isPrintable]

theorem printable_quotedBytes (data : List UInt8) : Printable (quotedBytes data) := by
  have hquote := isPrintable_chooseQuote (data.map fun b => Char.ofNat b.toNat)
  simp only [quotedBytes, List.cons_append, printable_cons_iff, printable_append_iff, printable_nil]
  exact ⟨rfl, hquote, printable_flatMap fun b _ => printable_escapeByte hquote b, hquote, trivial⟩

end Text

namespace Binary64
open Text

theorem printable_stripZeros {ds : List Char} (h : Printable ds) : Printable (stripZeros ds) := by
  intro c hc
  rw [stripZeros, List.mem_reverse] at hc
  exact h c (List.mem_reverse.mp ((List.dropWhile_sublist _).subset hc))

theorem printable_exponentText (e : Int) : Printable (exponentText e) := by
  rw [exponentText, printable_cons_iff]
  refine ⟨?_, printable_padLeft 2 rfl (printable_decimal _)⟩
  split <;> rfl

theorem printable_positional {ds : List Char} (h : Printable ds) (k : Int) :
    Printable (positional ds k) := by
  unfold positional
  split
  case isTrue =>
    simp only [List.cons_append, printable_cons_iff, printable_append_iff]
    exact ⟨rfl, rfl, printable_replicate rfl _, h⟩
  case isFalse =>
    simp only [printable_append_iff, printable_cons_iff]
    refine ⟨printable_padRight _ rfl (h.sublist (List.take_sublist _ _)), rfl, ?_⟩
    split
    case isTrue => exact printable_cons_iff.mpr ⟨rfl, printable_nil⟩
    case isFalse => exact h.sublist (List.drop_sublist _ _)

theorem printable_scientific {ds : List Char} (h : Printable ds) (e : Int) :
    Printable (scientific ds e) := by
  unfold scientific
  split
  case h_1 => exact printable_nil
  case h_2 d =>
    obtain ⟨hd, -⟩ := printable_cons_iff.mp h
    exact printable_cons_iff.mpr ⟨hd, printable_cons_iff.mpr ⟨rfl, printable_exponentText e⟩⟩
  case h_3 d rest _ =>
    obtain ⟨hd, hrest⟩ := printable_cons_iff.mp h
    simp only [List.cons_append, printable_cons_iff, printable_append_iff]
    exact ⟨hd, rfl, hrest, rfl, printable_exponentText e⟩

theorem printable_magnitudeText (significand : Nat) (exponent : Int) :
    Printable (magnitudeText significand exponent) := by
  have hdigits (d : Digits) := printable_stripZeros (printable_decimal d.digits)
  unfold magnitudeText
  split
  case isTrue => decide
  case isFalse =>
    dsimp only
    split
    case isTrue => exact printable_positional (hdigits _) _
    case isFalse => exact printable_scientific (hdigits _) _

theorem printable_chars (x : Binary64) : Printable x.chars := by
  cases x with
  | nan => decide
  | infinity s => cases s <;> decide
  | finite s m e =>
    rw [chars, printable_append_iff]
    exact ⟨by cases s <;> decide, printable_magnitudeText m e⟩

end Binary64

namespace Moment
open Text

theorem printable_padded (width n : Nat) : Printable (Calendar.padded width '0' n).toList := by
  rw [Calendar.padded, String.toList_ofList]
  exact printable_padLeft width rfl (printable_decimal n)

theorem printable_clock (second : Nat) : Printable (Calendar.clock second).toList := by
  refine printable_intercalate (by decide) ?_
  simp [printable_padded]

theorem printable_dateText (d : Calendar.Date) : Printable (dateText d).toList := by
  refine printable_intercalate (by decide) ?_
  simp [printable_padded]

theorem printable_zoneText (minutes : Int) : Printable (zoneText minutes).toList := by
  have hdistance : Printable (":".intercalate [Calendar.padded 2 '0' (minutes.natAbs / 60),
      Calendar.padded 2 '0' (minutes.natAbs % 60)]).toList := by
    refine printable_intercalate (by decide) ?_
    simp [printable_padded]
  rw [zoneText, String.toList_append, printable_append_iff]
  exact ⟨by split <;> decide, hdistance⟩

theorem printable_timeText (t : TimeOfDay) : Printable (timeText t).toList := by
  rw [timeText, String.toList_append, String.toList_append, printable_append_iff,
    printable_append_iff]
  refine ⟨⟨printable_clock _, ?_⟩, ?_⟩
  · split
    case isTrue => decide
    case isFalse =>
      rw [String.toList_append, printable_append_iff]
      exact ⟨by decide, printable_padded 6 t.micro⟩
  · cases t.ahead with
    | none => decide
    | some minutes => exact printable_zoneText minutes

theorem printable_text (m : Moment) : Printable m.text.toList := by
  rw [text, String.toList_append, printable_append_iff]
  refine ⟨printable_dateText m.date, ?_⟩
  cases m.time with
  | none => decide
  | some t =>
    change Printable (" " ++ timeText t).toList
    rw [String.toList_append, printable_append_iff]
    exact ⟨by decide, printable_timeText t⟩

theorem printable_distanceParts (minutes : Int) : ∀ p ∈ distanceParts minutes, Printable p.toList := by
  have hpart (name : String) (n : Int) (hname : Printable name.toList) :
      ∀ p ∈ (if n = 0 then [] else [name ++ String.ofList (integer n)]), Printable p.toList := by
    intro p hp
    split at hp
    case isTrue => cases hp
    case isFalse =>
      obtain rfl := List.mem_singleton.mp hp
      rw [String.toList_append, String.toList_ofList, printable_append_iff]
      exact ⟨hname, printable_integer n⟩
  exact List.forall_mem_append.mpr
    ⟨hpart "days=" _ (by decide), hpart "seconds=" _ (by decide)⟩

theorem printable_distanceText (minutes : Int) : Printable (distanceText minutes).toList := by
  have hparts : Printable (if (distanceParts minutes).isEmpty then "0"
      else ", ".intercalate (distanceParts minutes)).toList := by
    split
    case isTrue => decide
    case isFalse => exact printable_intercalate (by decide) (printable_distanceParts minutes)
  exact printable_between (by decide) hparts (by decide)

theorem printable_quotedZone (minutes : Int) : Printable (quotedZone minutes).toList := by
  rw [quotedZone]
  split
  case isTrue => decide
  case isFalse => exact printable_between (by decide) (printable_distanceText minutes) (by decide)

theorem printable_numbers (ns : List Nat) : Printable (numbers ns).toList := by
  refine printable_intercalate (by decide) (List.forall_mem_map.mpr fun n _ => ?_)
  rw [String.toList_ofList]
  exact printable_decimal n

theorem printable_quoted (m : Moment) : Printable m.quoted.toList := by
  unfold quoted
  dsimp only
  split
  case h_1 => exact printable_between (by decide) (printable_numbers _) (by decide)
  case h_2 t _ =>
    rw [String.toList_append, String.toList_append, String.toList_append, printable_append_iff,
      printable_append_iff, printable_append_iff]
    refine ⟨⟨⟨by decide, printable_numbers _⟩, ?_⟩, by decide⟩
    cases t.ahead with
    | none => decide
    | some minutes =>
      change Printable (", tzinfo=" ++ quotedZone minutes).toList
      rw [String.toList_append, printable_append_iff]
      exact ⟨by decide, printable_quotedZone minutes⟩

end Moment

namespace Value
open Text

theorem printable_quoteBytes (data : List UInt8) : Printable (quoteBytes data).toList := by
  rw [quoteBytes, String.toList_ofList]
  exact printable_quotedBytes data

theorem printable_quote (s : String) : Printable (quote s).toList := by
  rw [quote, String.toList_ofList]
  exact Text.printable_quoted s.toList

theorem printable_quotedMember {α : Type} [Labelled α] (m : α)
    (hname : Printable (memberText m).toList) : Printable (quotedMember m).toList := by
  have htag : Printable (Labelled.tag m).repr.toList := by
    simpa [decimal] using printable_decimal (Labelled.tag m)
  simp only [quotedMember, String.toList_append, printable_append_iff, toString, and_assoc]
  exact ⟨by decide, hname, by decide, htag, by decide, printable_quote _, by decide, by decide,
    printable_quote _, by decide⟩

mutual
theorem printable_quoted : ∀ v : Value, Printable (quoted v).toList
  | .null => by decide
  | .bool b => by cases b <;> decide
  | .int n => by
    change Printable (String.ofList (integer n)).toList
    rw [String.toList_ofList]
    exact printable_integer n
  | .float x => by
    change Printable (String.ofList x.chars).toList
    rw [String.toList_ofList]
    exact x.printable_chars
  | .text s => printable_quote s
  | .bytes data => printable_quoteBytes data
  | .buffer data => by
    change Printable ("bytearray(" ++ quoteBytes data ++ ")").toList
    exact printable_between (by decide) (printable_quoteBytes data) (by decide)
  | .list items => by
    change Printable ("[" ++ ", ".intercalate (quotedItems items) ++ "]").toList
    exact printable_between (by decide)
      (printable_intercalate (by decide) (printable_quotedItems items)) (by decide)
  | .tuple [] => by decide
  | .tuple [item] => by
    change Printable ("(" ++ quoted item ++ ",)").toList
    exact printable_between (by decide) (printable_quoted item) (by decide)
  | .tuple (item :: next :: rest) => by
    change Printable ("(" ++ ", ".intercalate (quotedItems (item :: next :: rest)) ++ ")").toList
    exact printable_between (by decide)
      (printable_intercalate (by decide) (printable_quotedItems (item :: next :: rest)))
      (by decide)
  | .map entries => by
    change Printable ("\x7b" ++ ", ".intercalate (quotedEntries entries) ++ "\x7d").toList
    exact printable_between (by decide)
      (printable_intercalate (by decide) (printable_quotedEntries entries)) (by decide)
  | .set [] => by decide
  | .set (item :: rest) => by
    change Printable ("\x7b" ++ ", ".intercalate (quotedItems (item :: rest)) ++ "\x7d").toList
    exact printable_between (by decide)
      (printable_intercalate (by decide) (printable_quotedItems (item :: rest))) (by decide)
  | .moment m => m.printable_quoted
  | .model m => printable_quotedMember m (by cases m <;> decide)
  | .bank t => printable_quotedMember t (by cases t <;> decide)
  | .fileRef p => by
    change Printable ("FileRef(path=" ++ quote p ++ ")").toList
    exact printable_between (by decide) (printable_quote p) (by decide)
  | .dataRef data => by
    change Printable ("DataRef(data=" ++ quoteBytes data ++ ")").toList
    exact printable_between (by decide) (printable_quoteBytes data) (by decide)
  | .path p => by
    change Printable ("PurePosixPath(" ++ quote p ++ ")").toList
    exact printable_between (by decide) (printable_quote p) (by decide)

theorem printable_quotedItems : ∀ items : List Value,
    ∀ p ∈ quotedItems items, Printable p.toList
  | [] => nofun
  | v :: rest => List.forall_mem_cons.mpr ⟨printable_quoted v, printable_quotedItems rest⟩

theorem printable_quotedEntries : ∀ entries : List (Value × Value),
    ∀ p ∈ quotedEntries entries, Printable p.toList
  | [] => nofun
  | (k, v) :: rest => by
    refine List.forall_mem_cons.mpr ⟨?_, printable_quotedEntries rest⟩
    rw [String.toList_append, String.toList_append, printable_append_iff, printable_append_iff]
    exact ⟨⟨printable_quoted k, by decide⟩, printable_quoted v⟩
end

end Value
end FirmwareKit
