import FirmwareKit.Proofs.Config.Home
import FirmwareKit.Proofs.Files.Parts
import FirmwareKit.Proofs.Numeral.Agreement
import FirmwareKit.Proofs.Text.Integer
import FirmwareKit.Proofs.Value.Address
set_option autoImplicit false

/-!
# Values at addresses

An address leads from a configuration to a value inside it, by names of entries and positions in
lists. Its parts with slashes between them are a key. That key finds the value at the address if no
name on the way reads as a number, since a part that does is sought as that number only. The literal
name, which is tried then, makes up for it where the address is that one name.
-/
namespace FirmwareKit

namespace Numeral

theorem digitRun_of_mapM {base : Nat} {cs : List Char} {ds : List Nat} (hne : cs ≠ [])
    (h : cs.mapM (Text.digitIn? base) = some ds) : DigitRun base cs ds := by
  induction cs generalizing ds with
  | nil => exact absurd rfl hne
  | cons c rest ih =>
    obtain ⟨d, ds, hd, hrest, rfl⟩ := mapM_cons_eq_some h
    cases rest with
    | nil =>
      cases hrest
      exact .last hd
    | cons e rest => exact .next hd (ih (List.cons_ne_nil e rest) hrest)

theorem length_decimal_le_iff (n : Nat) {k : Nat} (hk : 0 < k) :
    (Text.decimal n).length ≤ k ↔ ¬ Nat.pow 10 k ≤ (n : Int).natAbs := by
  rw [Nat.not_le, Int.natAbs_natCast]
  exact Nat.length_toDigits_le_iff (by decide) hk

/-- A number in decimal is a numeral if it is not too long to be written. -/
theorem toInt?_decimal (n : Nat) :
    (Value.text (String.ofList (Text.decimal n))).toInt? =
      if Value.isLongInteger n then none else some (n : Int) := by
  have hread : Text.readDigits? 10 (Text.decimal n) = some n :=
    Text.readDigits?_toDigits (by decide) (by decide) n
  obtain ⟨ds, hds, hvalue⟩ := Option.map_eq_some_iff.mp hread
  have hrun : DigitRun Mark.none.base (Text.decimal n) ds :=
    digitRun_of_mapM (Text.decimal_ne_nil n) hds
  have hcount : ds.length ≤ Value.greatestDigitCount ↔ Value.isLongInteger n = false := by
    rw [length_of_mapM hds, length_decimal_le_iff n (by decide), ← decide_eq_false_iff_not]
    exact Iff.rfl
  have hplain (c : Char) (hc : c ∈ Text.decimal n) :
      isHexOrUnderscore c = true ∧ Text.isBlank c = false ∧ c.toLower = c := by
    have hdigit := Text.isDigit_of_mem_decimal hc
    obtain ⟨d, hd⟩ | rfl := hrun.mem hc
    · have hupper : c.isUpper = false := by
        rw [Bool.eq_false_iff, ne_eq, isUpper_iff]
        simp [Char.isDigit, UInt32.le_iff_toNat_le] at hdigit
        omega
      exact ⟨isHexOrUnderscore_of_digit (by decide) hupper hd,
        not_blank_of_inked (isInked_of_digit hd),
        toLower_of_not_upper hupper⟩
    · cases hdigit
  have hlowered : lowered (String.ofList (Text.decimal n)) = Text.decimal n := by
    have hlower : (Text.decimal n).map Char.toLower = (Text.decimal n).map id :=
      List.map_congr_left fun c hc => (hplain c hc).2.2
    rw [lowered, String.toList_ofList, trimBy_eq_self fun c hc => (hplain c hc).2.1, hlower,
      List.map_id]
  have hsuffix : IsSuffix [] := ⟨by decide, nofun⟩
  have hsplit : splitMark (lowered (String.ofList (Text.decimal n))) =
      (Mark.none.base, Text.decimal n ++ []) := by
    have hmarked : splitMark (Text.decimal n ++ []) = (Mark.none.base, Text.decimal n ++ []) :=
      splitMark_text hrun hsuffix
    rw [List.append_nil] at hmarked
    rw [hlowered, List.append_nil, hmarked]
  rw [toInt?_text, readSuffixed?_of_split hsplit (Text.decimal_ne_nil n)
    (fun c hc => (hplain c hc).1) hsuffix]
  cases hlong : Value.isLongInteger n with
  | true =>
    rw [if_pos rfl]
    cases hinteger : readInteger Mark.none.base (Text.decimal n) with
    | error => rfl
    | ok m =>
      rcases run_or_remarked (fun c hc => (hplain c hc).1) hinteger with
        ⟨es, hes, hshort, -⟩ | ⟨_, _, _, hmark, -⟩
      · rw [hes.unique hrun, hcount, hlong] at hshort
        exact Bool.noConfusion (hshort rfl)
      · cases hmark
  | false =>
    have hinteger : readInteger Mark.none.base (Text.decimal n) = .ok (Text.ofDigits 10 ds) :=
      readInteger_of_run (fun c hc => (hplain c hc).1) hrun
        fun _ => hcount.mpr hlong
    rw [hinteger, hvalue]
    rfl

end Numeral

namespace Value.Step

def text : Step → String
  | name s => s
  | position i => String.ofList (Text.decimal i)

def key : Step → Value
  | name s => .text s
  | position i => .int i

def IsPlain : Step → Prop
  | name s => (Value.text s).toInt? = none
  | position i => Value.isLongInteger i = false

instance (s : Step) : Decidable s.IsPlain := by
  cases s <;> exact inferInstanceAs (Decidable (_ = _))

end Value.Step

namespace Config
open Value (Step inside? below?)

def keyOf (address : List Step) : String := "/".intercalate (address.map Step.text)

def isPartName : Value → Bool
  | .text s => decide (IsPart s)
  | _ => false

variable {entries : Value.Entries} {v u w : Value} {s : Step} {address : List Step}

theorem hasParts_of_allKeys (h : (Value.map entries).allKeys isPartName = true) :
    HasParts entries := by
  intro e he
  have hname := ((Value.allKeys_map_iff isPartName entries).mp h e he).1
  cases hkey : e.1 with
  | text name =>
    rw [hkey] at hname
    exact ⟨name, rfl, of_decide_eq_true hname⟩
  | _ =>
    rw [hkey] at hname
    cases hname

theorem isPart_of_inside? (h : v.allKeys isPartName = true) (hu : inside? v s = some u) :
    IsPart s.text := by
  rcases Value.inside?_cases hu with ⟨es, name, rfl, rfl, hname⟩ | ⟨items, i, rfl, rfl, -⟩
  · obtain ⟨_, hkey, hpart⟩ := hasParts_of_allKeys h _ (Value.Entries.mem_of_getText? hname)
    cases hkey
    exact hpart
  · rw [IsPart, Step.text, String.toList_ofList]
    intro hmem
    exact absurd (Text.isDigit_of_mem_decimal hmem) (by decide)

theorem isPart_of_below? (h : v.allKeys isPartName = true)
    (hw : below? v address = some w) : ∀ s ∈ address, IsPart s.text := by
  induction address generalizing v with
  | nil => simp
  | cons s rest ih =>
    obtain ⟨u, hu, hrest⟩ := (Value.below?_cons_iff v s rest).mp hw
    exact List.forall_mem_cons.mpr
      ⟨isPart_of_inside? h hu, ih (Value.allKeys_of_inside? h hu) hrest⟩

/-! ## Keys of addresses -/

theorem keyPart_text (s : Step) (h : s.IsPlain) : keyPart s.text = s.key := by
  cases s with
  | name s =>
    have hword : (Value.text s).toInt? = none := h
    rw [Step.text, keyPart, hword]
    rfl
  | position i =>
    have hshort : Value.isLongInteger i = false := h
    rw [Step.text, keyPart, Numeral.toInt?_decimal, hshort]
    rfl

/-- A step is the same along a path if its part is taken for what it stands for. -/
theorem held?_key (hu : inside? v s = some u) : held? v s.key = some u := by
  rcases Value.inside?_cases hu with ⟨es, name, rfl, rfl, hname⟩ | ⟨items, i, rfl, rfl, hi⟩
  · exact hname
  · have hleast : ¬ (i : Int) < 0 := Int.not_lt.mpr (Int.natCast_nonneg i)
    have hplace : place? items.length (i : Int) = some i := by simp [place?, hleast]
    rw [Step.key, held?, hplace]
    exact hi

/-- A name that is taken for a number is not found, and neither is a position that is not. -/
theorem held?_of_not_plain (h : v.allKeys isPartName = true) (hu : inside? v s = some u)
    (hplain : ¬ s.IsPlain) : held? v (keyPart s.text) = none := by
  rcases Value.inside?_cases hu with ⟨es, name, rfl, rfl, -⟩ | ⟨items, i, rfl, rfl, -⟩
  · obtain ⟨n, hn⟩ := Option.ne_none_iff_exists'.mp hplain
    rw [Step.text, keyPart, hn]
    exact get?_int (hasParts_of_allKeys h) n
  · have hlong : Value.isLongInteger i = true := eq_true_of_ne_false hplain
    rw [Step.text, keyPart, Numeral.toInt?_decimal, hlong]
    rfl

/-- Along the key of an address the walk reaches the value there, or stops at the first part that is
not taken for what it stands for. -/
theorem walk_address (h : v.allKeys isPartName = true) (hvalue : below? v address = some w)
    (hw : w ≠ .null) :
    ((∀ s ∈ address, s.IsPlain) → walk v (address.map fun s => keyPart s.text) = .ok w) ∧
      (¬ (∀ s ∈ address, s.IsPlain) →
        ∃ stop, walk v (address.map fun s => keyPart s.text) = .error stop) := by
  induction address generalizing v with
  | nil =>
    cases hvalue
    exact ⟨fun _ => rfl, fun hplain => absurd nofun hplain⟩
  | cons s rest ih =>
    obtain ⟨u, hu, hrest⟩ := (Value.below?_cons_iff v s rest).mp hvalue
    rw [List.map_cons, walk]
    by_cases hplain : s.IsPlain
    · rw [keyPart_text s hplain, held?_key hu, given?_of_ne_null (Value.ne_null_of_below? hrest hw)]
      simpa [hplain] using ih (Value.allKeys_of_inside? h hu) hrest
    · rw [held?_of_not_plain h hu hplain]
      exact ⟨fun hall => absurd (hall s List.mem_cons_self) hplain, fun _ => ⟨_, rfl⟩⟩

theorem keyPath_keyOf (hne : address ≠ []) (h : ∀ s ∈ address, IsPart s.text) :
    keyPath (.text (keyOf address)) = address.map fun s => keyPart s.text := by
  have hparts : Path.parts (keyOf address) = address.map Step.text :=
    Path.parts_ofParts (by simpa using hne) (List.forall_mem_map.mpr h)
  have hpath : keyPath (.text (keyOf address)) = (Path.parts (keyOf address)).map keyPart := by
    rw [Path.parts, List.map_map]
    rfl
  rw [hpath, hparts, List.map_map]
  rfl

/-- The key of an address of several parts has a separator, so it is no name of one part. -/
theorem getText?_keyOf (h : HasParts entries) (s t : Step) (rest : List Step) :
    entries.getText? (keyOf (s :: t :: rest)) = none := by
  cases hfound : entries.getText? (keyOf (s :: t :: rest)) with
  | none => rfl
  | some u =>
    obtain ⟨_, hkey, hpart⟩ := h _ (Value.Entries.mem_of_getText? hfound)
    cases hkey
    refine absurd ?_ hpart
    rw [keyOf, List.map_cons, List.map_cons, String.intercalate_cons_cons, String.toList_append,
      String.toList_append]
    exact List.mem_append_left _ (List.mem_append_right _ (by decide))

/-! ## Look-ups at addresses -/

/-- A configuration is no entry of its own, so the empty key does not find it. -/
theorem item_empty_ne (u : Value) (hu : item entries (.text "") = .ok u) : u ≠ .map entries := by
  have hname : keyPath (.text "") = [.text ""] := keyPath_of_word (by decide) (by decide)
  rw [item_name hname] at hu
  cases hgiven : given? (entries.getText? "") with
  | none =>
    rw [hgiven] at hu
    cases hu
  | some v =>
    rw [hgiven] at hu
    cases hu
    rintro rfl
    have hlt := List.sizeOf_lt_of_mem (Value.Entries.mem_of_getText? (held?_of_given? hgiven))
    simp at hlt
    omega

section LookUp
variable (h : (Value.map entries).allKeys isPartName = true)
  (hvalue : below? (.map entries) address = some w) (hw : w ≠ .null)
include h hvalue hw

theorem item_of_plain (hne : address ≠ []) (hplain : ∀ s ∈ address, s.IsPlain) :
    item entries (.text (keyOf address)) = .ok w := by
  rw [item_text, keyPath_keyOf hne (isPart_of_below? h hvalue),
    (walk_address h hvalue hw).1 hplain]

theorem item_of_not_plain (hlong : 2 ≤ address.length) (hplain : ¬ ∀ s ∈ address, s.IsPlain) :
    ∃ f, item entries (.text (keyOf address)) = .error f := by
  obtain ⟨⟨v, part⟩, hstop⟩ := (walk_address h hvalue hw).2 hplain
  obtain ⟨s, t, rest, rfl⟩ : ∃ s t rest, address = s :: t :: rest := by
    match address, hlong with
    | s :: t :: rest, _ => exact ⟨s, t, rest, rfl⟩
  rw [item_text, keyPath_keyOf (List.cons_ne_nil s _) (isPart_of_below? h hvalue), hstop,
    getText?_keyOf (hasParts_of_allKeys h)]
  dsimp only
  split
  · exact ⟨_, rfl⟩
  · exact ⟨_, rfl⟩

end LookUp

/-- Every value at an address that is not null is found by the key of the address, and no other
value is, if the address is a name or all of its parts are taken for what they stand for. Even a
single name is not found where its absence as a number could not be told. -/
theorem item_keyOf (h : (Value.map entries).allKeys isPartName = true)
    (hvalue : below? (.map entries) address = some w) (hw : w ≠ .null) :
    (item entries (.text (keyOf address)) = .ok w ↔
        (∃ name, address = [.name name] ∧ ¬ IsObscured entries name) ∨
          (address ≠ [] ∧ ∀ s ∈ address, s.IsPlain)) ∧
      (address ≠ [] → ∀ u, item entries (.text (keyOf address)) = .ok u → u = w) := by
  have hparts := hasParts_of_allKeys h
  match address, hvalue with
  | [], hvalue =>
    cases hvalue
    have hempty : item entries (.text (keyOf [])) ≠ .ok (.map entries) :=
      fun hu => item_empty_ne _ hu rfl
    simp [hempty]
  | [.position i], hvalue => cases hvalue
  | [.name name], hvalue =>
    have hpart : IsPart name := isPart_of_below? h hvalue _ List.mem_cons_self
    obtain ⟨u, hu, hrest⟩ := (Value.below?_cons_iff _ _ _).mp hvalue
    cases hrest
    have hname : entries.getText? name = some w := hu
    have hkey : keyOf [.name name] = name := String.intercalate_singleton
    rw [hkey]
    by_cases hobscured : IsObscured entries name
    · have hnumber : ¬ Step.IsPlain (.name name) := by
        obtain ⟨n, hn, -⟩ := hobscured
        exact fun hplain : (Value.text name).toInt? = none => nomatch hn.symm.trans hplain
      rw [item_of_obscured hparts hpart hobscured]
      simp [hobscured, hnumber]
    · rw [item_of_clear hparts hpart hobscured, hname, given?_of_ne_null hw]
      simp [hobscured, eq_comm]
  | s :: t :: rest, hvalue =>
    have hne : s :: t :: rest ≠ [] := List.cons_ne_nil s _
    by_cases hplain : ∀ r ∈ s :: t :: rest, r.IsPlain
    · rw [item_of_plain h hvalue hw hne hplain]
      exact ⟨⟨fun _ => .inr ⟨hne, hplain⟩, fun _ => rfl⟩, fun _ u hu => (Except.ok.inj hu).symm⟩
    · obtain ⟨f, hf⟩ := item_of_not_plain h hvalue hw (by simp) hplain
      rw [hf]
      refine ⟨⟨nofun, ?_⟩, fun _ _ hu => (nomatch hu)⟩
      rintro (⟨_, heq, -⟩ | ⟨-, hall⟩)
      · cases heq
      · exact absurd hall hplain

/-- The heap of a layout is found by the key of its length. -/
theorem item_keyOf_heap :
    (Value.map [(.text "memory", .map [(.text "heap", .list [.int 1024, .int 512])])]).allKeys
        isPartName = true ∧
      item [(.text "memory", .map [(.text "heap", .list [.int 1024, .int 512])])]
        (.text "memory/heap/1") = .ok (.int 512) := by
  have hkeys : (Value.map
      [(.text "memory", .map [(.text "heap", .list [.int 1024, .int 512])])]).allKeys
        isPartName = true := by
    decide
  have hplain : ∀ s ∈ [Step.name "memory", .name "heap", .position 1], s.IsPlain := by
    decide +kernel
  have hvalue : below? (.map [(.text "memory", .map [(.text "heap", .list [.int 1024, .int 512])])])
      [.name "memory", .name "heap", .position 1] = some (.int 512) := rfl
  have haddress := item_keyOf hkeys hvalue nofun
  exact ⟨hkeys, haddress.1.mpr (.inr ⟨List.cons_ne_nil _ _, hplain⟩)⟩

/-- The entry of an entry is not found if it is named like a number. -/
theorem item_of_number :
    (Value.map [(.text "a", .map [(.text "5", .int 1)])]).allKeys isPartName = true ∧
      below? (.map [(.text "a", .map [(.text "5", .int 1)])]) [.name "a", .name "5"] =
        some (.int 1) ∧
      (item [(.text "a", .map [(.text "5", .int 1)])]
        (.text (keyOf [.name "a", .name "5"]))).isOk = false :=
  ⟨by decide, rfl, by decide +kernel⟩

end Config

end FirmwareKit
