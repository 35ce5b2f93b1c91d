import FirmwareKit.Log.Template
import FirmwareKit.Proofs.Sequence
import FirmwareKit.Proofs.Text.Printable
set_option autoImplicit false

namespace FirmwareKit
open Text

/-- What a value may show of a character that does not print: it is part of a text or a path, or
a number stands for it. -/
def Value.Brings (c : Char) : Value → Prop
  | .text s | .path s => c ∈ s.toList
  | .int n => c = Char.ofNat n.toNat
  | .bool b => c = Char.ofNat b.toNat
  | _ => False

instance (c : Char) : DecidablePred (Value.Brings c)
  | .text s | .path s => inferInstanceAs (Decidable (c ∈ s.toList))
  | .int n => inferInstanceAs (Decidable (c = Char.ofNat n.toNat))
  | .bool b => inferInstanceAs (Decidable (c = Char.ofNat b.toNat))
  | .null | .float _ | .bytes _ | .buffer _ | .list _ | .tuple _ | .map _ | .set _ | .moment _
  | .model _ | .bank _ | .fileRef _ | .dataRef _ => .isFalse id

variable {c : Char} {cs ds : List Char} {v : Value}

theorem Text.Printable.not_mem (h : Printable cs) (hc : isPrintable c = false) : c ∉ cs := by
  intro hmem
  rw [h c hmem] at hc
  cases hc

theorem Value.not_mem_display (hc : isPrintable c = false) (hv : ¬ v.Brings c) :
    c ∉ v.display.toList := by
  have hmember {s : String} (h : Printable s.toList) : c ∉ s.toList := h.not_mem hc
  cases v with
  | text s => exact hv
  | path p => exact hv
  | moment m => exact hmember m.printable_text
  | model m => exact hmember (by cases m <;> decide)
  | bank t => exact hmember (by cases t <;> decide)
  | _ => exact hmember (Value.printable_quoted _)

namespace Template

/-! ## Numbers -/

theorem isPrintable_toUpper (h : isPrintable c = true) : isPrintable c.toUpper = true := by
  by_cases hlower : 'a'.val ≤ c.val ∧ c.val ≤ 'z'.val
  · have hascii : ∀ n < 128, isPrintable (Char.ofNat n) = true →
        isPrintable (Char.ofNat n).toUpper = true := by decide +kernel
    have hlt : c.toNat < 128 := Nat.lt_of_le_of_lt (UInt32.le_iff_toNat_le.mp hlower.2) (by decide)
    have hof : Char.ofNat c.toNat = c := Char.ofNat_toNat c
    exact hof ▸ hascii c.toNat hlt (hof.symm ▸ h)
  · have hsame : c.toUpper = c := dif_neg hlower
    rw [hsame]
    exact h

theorem printable_map_toUpper (h : Printable cs) : Printable (cs.map Char.toUpper) :=
  List.forall_mem_map.mpr fun c hc => isPrintable_toUpper (h c hc)

theorem printable_withPoint (f : Flags) (h : Printable cs) : Printable (withPoint f cs) := by
  rw [withPoint]
  split
  case isTrue => simpa [isPrintable] using h
  case isFalse => exact h

theorem printable_exponential (f : Flags) (h : Printable ds) (e : Int) :
    Printable (exponential f ds e) := by
  unfold exponential
  refine printable_append_iff.mpr ⟨printable_withPoint f ?_,
    printable_cons_iff.mpr ⟨rfl, Binary64.printable_exponentText e⟩⟩
  split
  case h_1 => exact h
  case h_2 => exact h
  case h_3 d rest _ =>
    obtain ⟨hd, hrest⟩ := printable_cons_iff.mp h
    exact printable_cons_iff.mpr ⟨hd, printable_cons_iff.mpr ⟨rfl, hrest⟩⟩

theorem printable_significant (places num den : Nat) :
    Printable (significant places num den).1 := by
  unfold significant
  split
  case isTrue => exact printable_replicate rfl _
  case isFalse =>
    unfold Binary64.roundDigits
    dsimp only
    split
    case isTrue => exact (printable_decimal _).sublist (List.take_sublist _ _)
    case isFalse => exact printable_decimal _

theorem printable_dropZeros (f : Flags) (h : Printable ds) : Printable (dropZeros f ds) := by
  rw [dropZeros]
  split
  case isTrue => exact h
  case isFalse => exact Binary64.printable_stripZeros h

theorem printable_general (f : Flags) (precision num den : Nat) :
    Printable (general f precision num den) := by
  have hdigits := printable_significant (max precision 1 - 1) num den
  unfold general
  dsimp only
  generalize significant (max precision 1 - 1) num den = digits at hdigits ⊢
  split
  case isTrue =>
    split
    case isTrue =>
      simp only [List.cons_append, printable_cons_iff, printable_append_iff]
      exact ⟨rfl, rfl, printable_replicate rfl _, printable_dropZeros f hdigits⟩
    case isFalse =>
      have hwhole (n : Nat) : Printable (padRight n '0' (digits.1.take n)) :=
        printable_padRight n rfl (hdigits.sublist (List.take_sublist _ _))
      split
      case isTrue => exact printable_withPoint f (hwhole _)
      case isFalse =>
        refine printable_append_iff.mpr ⟨hwhole _, printable_cons_iff.mpr ⟨rfl, ?_⟩⟩
        exact printable_dropZeros f (hdigits.sublist (List.drop_sublist _ _))
  case isFalse => exact printable_exponential f (printable_dropZeros f hdigits) _

theorem printable_fixedPlaces (places num den : Nat) :
    Printable (Binary64.fixedPlaces places num den) := by
  have hdigits (n : Nat) : Printable (padLeft (places + 1) '0' (decimal n)) :=
    printable_padLeft _ rfl (printable_decimal n)
  unfold Binary64.fixedPlaces
  dsimp only
  split
  case isTrue => exact (hdigits _).sublist (List.take_sublist _ _)
  case isFalse =>
    refine printable_append_iff.mpr ⟨(hdigits _).sublist (List.take_sublist _ _),
      printable_cons_iff.mpr ⟨rfl, (hdigits _).sublist (List.drop_sublist _ _)⟩⟩

theorem printable_magnitude (f : Flags) (precision : Nat) (letter : Char) (num den : Nat) :
    Printable (magnitude f precision letter num den) := by
  unfold magnitude
  split
  case isTrue => exact printable_withPoint f (printable_fixedPlaces precision num den)
  case isFalse =>
    split
    case isTrue => exact printable_exponential f (printable_significant precision num den) _
    case isFalse => exact printable_general f precision num den

theorem printable_signOf (f : Flags) (isNegative : Bool) :
    Printable (signOf f isNegative).toList := by
  unfold signOf
  split
  case isTrue => decide
  case isFalse =>
    split
    case isTrue => decide
    case isFalse => split <;> decide

/-! ## Written arguments -/

/-- All that is written of an argument but what fills its width. -/
def Written.chars (w : Written) : List Char := w.sign.toList ++ w.radix ++ w.body

theorem printable_writeFloat (f : Flags) (precision : Option Nat) (letter : Char) (x : Binary64) :
    Printable (writeFloat f precision letter x).chars := by
  have hbody (body : List Char) (h : Printable body) :
      Printable (if letter.isUpper then body.map Char.toUpper else body) := by
    split
    case isTrue => exact printable_map_toUpper h
    case isFalse => exact h
  simp only [writeFloat, Written.chars, List.append_nil, printable_append_iff]
  refine ⟨printable_signOf f x.isNegative, hbody _ ?_⟩
  cases x with
  | nan => exact show Printable ['n', 'a', 'n'] by decide
  | infinity => exact show Printable ['i', 'n', 'f'] by decide
  | finite => exact printable_magnitude f _ _ _ _

theorem printable_writeInteger {f : Flags} {precision : Option Nat} {letter : Char} {n : Int}
    {w : Written} (hletter : isPrintable letter = true)
    (h : writeInteger f precision letter n = .ok w) : Printable w.chars := by
  have hdigits : Printable (padLeft (precision.getD 0) '0'
      (Nat.toDigits (radixOf letter) n.natAbs)) := by
    refine printable_padLeft _ rfl (printable_toDigits ?_ ?_ _) <;>
      (unfold radixOf; split <;> [skip; split] <;> decide)
  unfold writeInteger at h
  dsimp only at h
  split at h
  case isTrue => cases h
  case isFalse =>
    cases h
    simp only [Written.chars, printable_append_iff]
    refine ⟨⟨printable_signOf f _, ?_⟩, ?_⟩
    · split
      case isTrue => simpa [isPrintable] using hletter
      case isFalse => exact printable_nil
    · split
      case isTrue => exact printable_map_toUpper hdigits
      case isFalse => exact hdigits

theorem printable_escapeNonAscii (h : Printable cs) : Printable (escapeNonAscii cs) := by
  refine printable_flatMap fun c hc => ?_
  split
  case isTrue => exact printable_cons_iff.mpr ⟨h c hc, printable_nil⟩
  case isFalse => exact printable_escapeCode _

theorem chars_plain (cs : List Char) : (Written.plain cs).chars = cs := rfl

theorem not_mem_writeText (precision : Option Nat) (h : c ∉ cs) :
    c ∉ (writeText precision cs).chars := by
  cases precision with
  | none => exact h
  | some n => exact fun hmem => h ((List.take_sublist n cs).subset hmem)

theorem not_mem_writeChar {w : Written} (hv : ¬ v.Brings c) (h : writeChar v = .ok w) :
    c ∉ w.chars := by
  cases v with
  | text s =>
    simp only [writeChar] at h
    split at h
    case h_1 d hd =>
      cases h
      rwa [chars_plain, ← hd]
    case h_2 => cases h
  | bool b =>
    cases h
    rw [chars_plain, List.mem_singleton]
    exact hv
  | int n =>
    simp only [writeChar] at h
    split at h
    case isTrue =>
      cases h
      rw [chars_plain, List.mem_singleton]
      exact hv
    case isFalse => cases h
  | _ => cases h

theorem not_mem_write {f : Flags} {precision : Option Nat} {letter : Char} {w : Written}
    (hc : isPrintable c = false) (hv : ¬ v.Brings c) (h : write f precision letter v = .ok w) :
    c ∉ w.chars := by
  have hshown {s : String} (hs : c ∉ s.toList)
      (h : (if v.isOverlong then .error .overlongInteger else .ok (writeText precision s.toList)) =
        (.ok w : Except SystemFault Written)) : c ∉ w.chars := by
    split at h
    case isTrue => cases h
    case isFalse =>
      cases h
      exact not_mem_writeText precision hs
  simp only [write] at h
  split at h
  case isTrue => exact hshown (Value.not_mem_display hc hv) h
  split at h
  case isTrue => exact hshown ((Value.printable_quoted v).not_mem hc) h
  split at h
  case isTrue =>
    refine hshown ?_ h
    rw [String.toList_ofList]
    exact (printable_escapeNonAscii (Value.printable_quoted v)).not_mem hc
  split at h
  case isTrue => exact not_mem_writeChar hv h
  split at h
  case isTrue hletter =>
    obtain ⟨n, -, h⟩ := (Outcome.bind_eq_ok_iff _ _ _).mp h
    have hletters : Printable "diuoxX".toList := by decide
    exact (printable_writeInteger (hletters _ (List.contains_iff_mem.mp hletter)) h).not_mem hc
  split at h
  case isTrue =>
    obtain ⟨x, -, h⟩ := (Outcome.bind_eq_ok_iff _ _ _).mp h
    cases h
    exact (printable_writeFloat f precision letter x).not_mem hc
  case isFalse => cases h

theorem not_mem_justify {w : Written} (hc : isPrintable c = false) (h : c ∉ w.chars) (f : Flags)
    (width : Nat) : c ∉ justify f width w := by
  have hfill {d : Char} (hd : isPrintable d = true) (n : Nat) : c ∉ List.replicate n d :=
    (printable_replicate hd n).not_mem hc
  rw [Written.chars, List.mem_append, not_or] at h
  obtain ⟨hhead, hbody⟩ := h
  unfold justify
  dsimp only
  split
  case isTrue =>
    simp only [List.mem_append, not_or]
    exact ⟨⟨by simpa using hhead, hbody⟩, hfill rfl _⟩
  case isFalse =>
    split <;> simp only [List.mem_append, not_or]
    case isTrue => exact ⟨⟨by simpa using hhead, hfill rfl _⟩, hbody⟩
    case isFalse => exact ⟨⟨hfill rfl _, by simpa using hhead⟩, hbody⟩

/-! ## Pieces -/

theorem suffix_readFlags (f : Flags) (cs : List Char) : (readFlags f cs).2 <:+ cs := by
  induction cs generalizing f with
  | nil => exact List.suffix_rfl
  | cons d rest ih =>
    rw [readFlags]
    split
    case h_1 f' _ => exact (ih f').trans (List.suffix_cons d rest)
    case h_2 => exact List.suffix_rfl

theorem suffix_readAmount (cs : List Char) : (readAmount cs).2 <:+ cs := by
  unfold readAmount
  split
  case h_1 rest => exact List.suffix_cons '*' rest
  case h_2 =>
    split
    case h_1 => exact List.suffix_rfl
    case h_2 => exact List.dropWhile_suffix _

theorem suffix_readPrecision (cs : List Char) : (readPrecision cs).2 <:+ cs := by
  unfold readPrecision
  split
  case h_1 rest =>
    have hrest := suffix_readAmount rest
    split
    case h_1 behind hread =>
      rw [hread] at hrest
      exact hrest.trans (List.suffix_cons '.' rest)
    case h_2 => exact hrest.trans (List.suffix_cons '.' rest)
  case h_2 => exact List.suffix_rfl

theorem suffix_readKey (depth : Nat) (key cs : List Char) : (readKey depth key cs).2 <:+ cs := by
  fun_induction readKey depth key cs with
  | case1 => exact List.suffix_rfl
  | case2 _ _ rest ih => exact ih.trans (List.suffix_cons _ rest)
  | case3 _ rest => exact List.suffix_cons _ rest
  | case4 _ rest _ ih => exact ih.trans (List.suffix_cons _ rest)
  | case5 _ _ d rest _ _ ih => exact ih.trans (List.suffix_cons d rest)

theorem suffix_dropSize (cs : List Char) : dropSize cs <:+ cs := by
  unfold dropSize
  split
  case h_1 rest => exact List.suffix_cons 'h' rest
  case h_2 rest => exact List.suffix_cons 'l' rest
  case h_3 rest => exact List.suffix_cons 'L' rest
  case h_4 => exact List.suffix_rfl

theorem suffix_readPlaceholder (cs : List Char) : (readPlaceholder cs).2 <:+ cs := by
  have hbehind {ds : List Char} (h : ds <:+ cs) :
      (dropSize (readPrecision (readAmount (readFlags .none ds).2).2).2).tail <:+ cs :=
    (List.tail_suffix _).trans <| (suffix_dropSize _).trans <| (suffix_readPrecision _).trans <|
      (suffix_readAmount _).trans <| (suffix_readFlags _ ds).trans h
  unfold readPlaceholder
  split
  case h_1 ds hkey =>
    refine hbehind ?_
    split at hkey
    case h_1 rest =>
      have hrest := suffix_readKey 0 [] rest
      rw [hkey] at hrest
      exact hrest.trans (List.suffix_cons '(' rest)
    case h_2 =>
      cases hkey
      exact List.suffix_rfl

/-- The text between the placeholders is part of the template. -/
theorem mem_of_mem_piecesWithin {n : Nat} (h : .text c ∈ piecesWithin n cs) : c ∈ cs := by
  fun_induction piecesWithin n cs with
  | case1 => cases h
  | case2 => cases h
  | case3 _ rest ih =>
    rcases List.mem_cons.mp h with h | h
    · cases h
      exact List.mem_cons_self
    · exact List.mem_cons_of_mem _ (List.mem_cons_of_mem _ (ih h))
  | case4 _ rest _ p behind hread ih =>
    have hsuffix := suffix_readPlaceholder rest
    rw [hread] at hsuffix
    rcases List.mem_cons.mp h with h | h
    · cases h
    · exact List.mem_cons_of_mem _ (hsuffix.subset (ih h))
  | case5 _ d rest _ _ ih =>
    rcases List.mem_cons.mp h with h | h
    · cases h
      exact List.mem_cons_self
    · exact List.mem_cons_of_mem _ (ih h)

/-! ## Arguments -/

namespace Arguments

def values : Arguments → List Value
  | .ordered rest => rest
  | .keyed entries current _ => current :: entries.map Prod.snd

variable {a a' : Arguments}

theorem values_of_take (h : a.take = .ok (v, a')) : v ∈ a.values ∧ a'.values ⊆ a.values := by
  unfold take at h
  split at h
  case h_1 => cases h
  case h_2 =>
    cases h
    exact ⟨List.mem_cons_self, List.subset_cons_self _ _⟩
  case h_3 =>
    cases h
    exact ⟨List.mem_cons_self, List.Subset.refl _⟩
  case h_4 => cases h

theorem values_of_select {key : Key} (h : a.select key = .ok a') : a'.values ⊆ a.values := by
  unfold select at h
  split at h
  case h_1 =>
    cases h
    exact List.Subset.refl _
  case h_2 =>
    split at h
    case h_1 => cases h
    case h_2 => cases h
    case h_3 entries current isTaken k _ =>
      split at h
      case h_1 u hu =>
        cases h
        obtain ⟨e, he, rfl⟩ := Option.map_eq_some_iff.mp hu
        have hmem : e.2 ∈ entries.map Prod.snd :=
          List.mem_map_of_mem (List.mem_of_find?_eq_some he)
        exact List.cons_subset.mpr ⟨List.mem_cons_of_mem _ hmem, List.subset_cons_self _ _⟩
      case h_2 => cases h
    case h_4 =>
      cases h
      exact List.Subset.refl _

theorem values_of_amount {limit : Nat} {p : Amount} {n : Option Int}
    (h : a.amount limit p = .ok (n, a')) : a'.values ⊆ a.values := by
  cases p with
  | absent =>
    cases h
    exact List.Subset.refl _
  | fixed m =>
    simp only [amount] at h
    split at h
    case isTrue => cases h
    case isFalse =>
      cases h
      exact List.Subset.refl _
  | taken =>
    obtain ⟨⟨u, b⟩, htake, h⟩ := (Outcome.bind_eq_ok_iff _ _ _).mp h
    have hvalues := (values_of_take htake).2
    split at h
    case h_1 heq =>
      cases heq
      split at h
      case isTrue => cases h
      case isFalse =>
        cases h
        exact hvalues
    case h_2 heq =>
      cases heq
      cases h
      exact hvalues
    case h_3 => cases h

end Arguments

/-! ## Filling -/

variable {a a' : Arguments}

theorem not_mem_fillPlaceholder {p : Placeholder} (hc : isPrintable c = false)
    (ha : ∀ v ∈ a.values, ¬ v.Brings c) (h : fillPlaceholder p a = .ok (cs, a')) :
    c ∉ cs ∧ a'.values ⊆ a.values := by
  obtain ⟨b, hselect, h⟩ := (Outcome.bind_eq_ok_iff _ _ _).mp h
  obtain ⟨⟨width, d⟩, hwidth, h⟩ := (Outcome.bind_eq_ok_iff _ _ _).mp h
  obtain ⟨⟨precision, e⟩, hprecision, h⟩ := (Outcome.bind_eq_ok_iff _ _ _).mp h
  have hvalues : e.values ⊆ a.values :=
    List.Subset.trans (Arguments.values_of_amount hprecision) <|
      List.Subset.trans (Arguments.values_of_amount hwidth) (Arguments.values_of_select hselect)
  dsimp only at h
  split at h
  case h_1 => cases h
  case h_2 letter _ =>
    obtain ⟨⟨v, f⟩, htake, h⟩ := (Outcome.bind_eq_ok_iff _ _ _).mp h
    obtain ⟨w, hwrite, h⟩ := (Outcome.bind_eq_ok_iff _ _ _).mp h
    cases h
    obtain ⟨hv, hrest⟩ := Arguments.values_of_take htake
    exact ⟨not_mem_justify hc (not_mem_write hc (ha v (hvalues hv)) hwrite) _ _,
      List.Subset.trans hrest hvalues⟩

theorem not_mem_fillPieces {ps : List Piece} (hc : isPrintable c = false) (htext : .text c ∉ ps)
    (ha : ∀ v ∈ a.values, ¬ v.Brings c) (h : fillPieces ps a = .ok cs) : c ∉ cs := by
  -- what a placeholder leaves to those behind it, it was given itself
  induction ps generalizing a cs with
  | nil =>
    cases a with
    | ordered rest =>
      cases rest with
      | nil =>
        cases h
        exact List.not_mem_nil
      | cons => cases h
    | keyed =>
      cases h
      exact List.not_mem_nil
  | cons p rest ih =>
    obtain ⟨hp, hrest⟩ := List.ne_and_not_mem_of_not_mem_cons htext
    cases p with
    | text d =>
      cases hbehind : fillPieces rest a with
      | error => rw [fillPieces, hbehind] at h; cases h
      | ok behind =>
        rw [fillPieces, hbehind] at h
        cases h
        rw [List.mem_cons, not_or]
        exact ⟨fun heq => hp (congrArg Piece.text heq), ih hrest ha hbehind⟩
    | placeholder p =>
      rw [fillPieces] at h
      obtain ⟨⟨own, b⟩, hown, h⟩ := (Outcome.bind_eq_ok_iff _ _ _).mp h
      obtain ⟨hmem, hvalues⟩ := not_mem_fillPlaceholder hc ha hown
      dsimp only at h
      split at h
      case h_1 => cases h
      case h_2 =>
        obtain ⟨behind, hbehind, h⟩ := (Outcome.bind_eq_ok_iff _ _ _).mp h
        cases h
        rw [List.mem_append, not_or]
        exact ⟨hmem, ih hrest (fun v hv => ha v (hvalues hv)) hbehind⟩

/-- A character that does not print stands in the text only if it does so in the template, or if an
argument brings it. -/
theorem not_mem_fill {template text : String} {arguments : List Value}
    (hc : isPrintable c = false) (htemplate : c ∉ template.toList)
    (harguments : ∀ v ∈ (Arguments.ofValues arguments).values, ¬ v.Brings c)
    (h : fill template arguments = .ok text) : c ∉ text.toList := by
  unfold fill at h
  split at h
  case isTrue =>
    cases h
    exact htemplate
  case isFalse =>
    have htext : .text c ∉ pieces template := fun hmem => htemplate (mem_of_mem_piecesWithin hmem)
    cases hcs : fillPieces (pieces template) (.ofValues arguments) with
    | error => rw [hcs] at h; cases h
    | ok cs =>
      rw [hcs] at h
      cases h
      rw [String.toList_ofList]
      exact not_mem_fillPieces hc htext harguments hcs

end Template
end FirmwareKit
