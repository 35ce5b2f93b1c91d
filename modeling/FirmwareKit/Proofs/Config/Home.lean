import FirmwareKit.Proofs.Config.Walk
import FirmwareKit.Proofs.Text.Rows
set_option autoImplicit false

/-!
# Keys that lead to their own values

A key of a configuration need not lead to the value that it stands for: a name with slashes is a
path, a name that reads as a number is sought as that number first, and null counts as nothing.
Names of one part lead to their own values, if these are not null; where such a name reads as a
number, all integers have to be short.
-/
namespace FirmwareKit.Config
variable {es : Value.Entries} {key v w : Value} {name : String}

/-- The names that are looked up lead to their own values, and where all entries are looked up, so
does every key. -/
structure LeadsHome (IsListed : String → Prop) (all : Prop) (es : Value.Entries) : Prop where
  listed : ∀ name v, IsListed name → es.getText? name = some v → item es (.text name) = .ok v
  found : all → ∀ e ∈ es, get es e.1 .null = .ok e.2

theorem put_of_get (h : get es key .null = .ok v) : put es key v = es := by
  cases hitem : item es key with
  | error f => rw [put, hitem]
  | ok w =>
    rw [get, hitem] at h
    cases h
    exact put_item hitem

def IsPart (name : String) : Prop := separator ∉ name.toList

instance (name : String) : Decidable (IsPart name) :=
  inferInstanceAs (Decidable (separator ∉ name.toList))

/-- A name of one part that does not read as a number. -/
structure IsWord (name : String) : Prop where
  part : IsPart name
  word : (Value.text name).toInt? = none

def HasParts (es : Value.Entries) : Prop := ∀ e ∈ es, ∃ name, e.1 = .text name ∧ IsPart name

theorem keyPath_of_part (h : IsPart name) : keyPath (.text name) = [keyPart name] := by
  rw [keyPath, Text.splitOnChar_of_not_mem h, List.map_singleton, String.ofList_toList]

theorem keyPath_of_word (h : IsPart name) (hword : (Value.text name).toInt? = none) :
    keyPath (.text name) = [.text name] := by
  rw [keyPath_of_part h, keyPart, hword]

theorem given?_of_ne_null (h : v ≠ .null) : given? (some v) = some v := by
  cases v <;> first | rfl | exact absurd rfl h

namespace IsWord
variable (hname : IsWord name)
include hname

theorem keyPath_eq : keyPath (.text name) = [.text name] := keyPath_of_word hname.part hname.word

theorem item_eq (hv : es.getText? name = some v) (hnull : v ≠ .null) :
    item es (.text name) = .ok v := by
  rw [item_name hname.keyPath_eq, hv, given?_of_ne_null hnull]

/-- Null is not found. -/
theorem item_eq_error (hv : es.getText? name = some .null) :
    item es (.text name) = .error (missing es name) := by
  rw [item_name hname.keyPath_eq, hv]
  rfl

theorem put_eq (hv : es.getText? name = some v) (hnull : v ≠ .null) :
    put es (.text name) w = es.insert (.text name) w := by
  have hfound : Value.Entries.get? es (.text name) = some v := hv
  rw [put, hname.item_eq hv hnull]
  dsimp only
  rw [follow_eq, hname.keyPath_eq, walk, held?, hfound, given?_of_ne_null hnull, replace, hfound]
  rfl

end IsWord

/-- The name reads as a number, but an integer is too long for the fault of its absence. -/
def IsObscured (es : Value.Entries) (name : String) : Prop :=
  ∃ n, (Value.text name).toInt? = some n ∧
    (Value.isLongInteger n = true ∨ (Value.map es).isOverlong = true)

section Part
variable (hparts : HasParts es)
include hparts

theorem get?_int (n : Int) : es.get? (.int n) = none := by
  rw [Value.Entries.get?, Option.map_eq_none_iff, List.find?_eq_none]
  intro e he hsame
  obtain ⟨name, hkey, -⟩ := hparts e he
  rw [hkey, Value.text_sameKey_iff] at hsame
  cases hsame

/-- No number is a key, so a name that reads as one is only found literally. -/
theorem walk_number (hname : IsPart name) {n : Int} (h : (Value.text name).toInt? = some n) :
    walk (.map es) (keyPath (.text name)) = .error (.map es, .int n) := by
  rw [keyPath_of_part hname, keyPart, h]
  dsimp only
  rw [walk, held?, get?_int hparts]
  rfl

theorem item_of_clear (hname : IsPart name) (h : ¬ IsObscured es name) :
    item es (.text name) =
      match given? (es.getText? name) with
      | some v => .ok v
      | none => .error (missing es name) := by
  cases hnumber : (Value.text name).toInt? with
  | none => exact item_name (keyPath_of_word hname hnumber) es
  | some n =>
    have hshort : (Value.int n).isOverlong = false ∧ (Value.map es).isOverlong = false := by
      simpa [IsObscured, hnumber, Value.isOverlong] using h
    have hkind : (obstacle (.map es) (.map es) (.int n)).kind = .key := by
      rw [obstacle_of_absent _ (.inl ⟨es, rfl⟩), shown_of_short hshort.1 hshort.2]
      rfl
    rw [item_text, walk_number hparts hname hnumber]
    exact if_pos hkind

theorem item_of_obscured (hname : IsPart name) (h : IsObscured es name) :
    item es (.text name) = .error (.system .overlongInteger) := by
  obtain ⟨n, hnumber, hlong⟩ := h
  have hobstacle : obstacle (.map es) (.map es) (.int n) = .system .overlongInteger := by
    rw [obstacle_of_absent _ (.inl ⟨es, rfl⟩), shown_of_overlong]
    exact hlong
  rw [item_text, walk_number hparts hname hnumber]
  dsimp only
  rw [hobstacle]
  rfl

end Part

structure IsDirectName (short : Bool) (name : String) : Prop where
  part : IsPart name
  number : ∀ n, (Value.text name).toInt? = some n → short = true ∧ Value.isLongInteger n = false

/-- A mapping of direct names, those that are looked up not for null. -/
structure Direct (short : Bool) (IsListed : String → Prop) (all : Prop) (es : Value.Entries) :
    Prop where
  names : ∀ e ∈ es, ∃ name, e.1 = .text name ∧ IsDirectName short name
  null : ∀ name, (.text name, .null) ∈ es → ¬ IsListed name ∧ (all → short = true)
  short : short = true → (Value.map es).isOverlong = false

namespace Direct
variable {short : Bool} {IsListed : String → Prop} {all : Prop} (h : Direct short IsListed all es)
include h

theorem hasParts : HasParts es := fun e he =>
  (h.names e he).imp fun _ hname => ⟨hname.1, hname.2.part⟩

theorem exists_of_key (hkey : key ∈ es.map Prod.fst) :
    ∃ name v, key = .text name ∧ IsDirectName short name ∧ es.getText? name = some v := by
  obtain ⟨e, he, rfl⟩ := List.mem_map.mp hkey
  obtain ⟨name, hname, hdirect⟩ := h.names e he
  cases hv : es.getText? name with
  | some v => exact ⟨name, v, hname, hdirect, hv⟩
  | none =>
    rw [Value.Entries.getText?, Value.Entries.get?, Option.map_eq_none_iff,
      List.find?_eq_none] at hv
    exact absurd ((Value.sameKey_text_iff _ name).mpr hname) (hv e he)

theorem not_isObscured (hname : IsDirectName short name) : ¬ IsObscured es name := by
  rintro ⟨n, hnumber, hlong⟩
  obtain ⟨hshort, hn⟩ := hname.number n hnumber
  rw [hn, h.short hshort] at hlong
  simp at hlong

theorem item_eq (hname : IsDirectName short name) (hv : es.getText? name = some v) (hnull : v ≠ .null) :
    item es (.text name) = .ok v := by
  rw [item_of_clear h.hasParts hname.part (h.not_isObscured hname), hv, given?_of_ne_null hnull]

/-- Null is not found, so its place stays as it is. -/
theorem item_eq_error (hname : IsDirectName short name) (hv : es.getText? name = some .null) :
    item es (.text name) = .error (missing es name) := by
  rw [item_of_clear h.hasParts hname.part (h.not_isObscured hname), hv]
  rfl

theorem get_eq (hname : IsDirectName short name) (hall : all) (hv : es.getText? name = some v) :
    get es (.text name) .null = .ok v := by
  by_cases hnull : v = .null
  · subst hnull
    have hshort := h.short ((h.null name (Value.Entries.mem_of_getText? hv)).2 hall)
    rw [get, h.item_eq_error hname hv, missing, hshort]
    rfl
  · rw [get, h.item_eq hname hv hnull]

theorem put_eq (hname : IsDirectName short name) (hv : es.getText? name = some v) {w : Value}
    (hw : v = .null → w = .null) : put es (.text name) w = es.insert (.text name) w := by
  have hfound : Value.Entries.get? es (.text name) = some v := hv
  by_cases hnull : v = .null
  · rw [put, h.item_eq_error hname (hnull ▸ hv), hw hnull, ← hnull,
      Value.Entries.insert_of_get? hfound]
  cases hnumber : (Value.text name).toInt? with
  | some n =>
    rw [put, h.item_eq hname hv hnull]
    dsimp only
    rw [follow_eq, walk_number h.hasParts hname.part hnumber]
    rfl
  | none => exact IsWord.put_eq ⟨hname.part, hnumber⟩ hv hnull

theorem insert (hname : IsDirectName short name)
    (hnull : w = .null → ¬ IsListed name ∧ (all → short = true))
    (hshort : short = true → w.isOverlong = false) :
    Direct short IsListed all (es.insert (.text name) w) where
  names := by
    intro e he
    rcases Value.Entries.mem_insert he with ⟨-, hkey | ⟨hkey, -⟩⟩ | he
    · exact ⟨name, hkey, hname⟩
    · obtain ⟨d, hd, hsame⟩ := List.mem_map.mp hkey
      exact hsame ▸ h.names d hd
    · exact h.names e he
  null := by
    intro other he
    rcases Value.Entries.mem_insert he with ⟨hw, hkey | ⟨-, hkey⟩⟩ | he
    · cases hkey
      exact hnull hw.symm
    · cases (Value.sameKey_text_iff _ name).mp hkey
      exact hnull hw.symm
    · exact h.null other he
  short := fun hmode => Value.isOverlong_insert (h.short hmode) rfl (hshort hmode)

end Direct

end FirmwareKit.Config
