import FirmwareKit.Proofs.Schema.Keyed
import FirmwareKit.Proofs.Schema.Validation
set_option autoImplicit false

namespace FirmwareKit

namespace Config
open Schema
variable {es : Value.Entries} {IsListed : String → Prop} {all : Prop}

/-- Without defaults a mapping stays the one whose keys lead to their own values. -/
def LeadsHome.order (h : LeadsHome IsListed all es) (hproper : (Value.map es).isProper = true) :
    Order where
  IsDefault _ := False
  IsAddition _ _ := True
  IsListed := IsListed
  all := all
  Holds ds := ds = es
  item := by
    rintro _ name v rfl hname hv
    exact h.listed name v hname hv
  get := by
    rintro _ key rfl hall hkey
    obtain ⟨e, he, rfl⟩ := List.mem_map.mp hkey
    rw [Value.proper_get? hproper e he, h.found hall e he]
    rfl
  put := by
    rintro _ key w rfl hasked hkey hw
    obtain ⟨e, he, rfl⟩ := List.mem_map.mp hkey
    have hfound := Value.proper_get? hproper e he
    rw [hfound, Option.getD_some] at hw
    obtain rfl := hw.eq_of_none (((Value.isProper_map_iff _).mp hproper).2.2 e he)
    have hsame := Value.Entries.insert_of_get? hfound
    refine ⟨?_, hsame⟩
    rw [hsame]
    rcases hasked with hall | ⟨name, hkey, hname⟩
    · exact put_of_get (h.found hall e he)
    · rw [hkey] at hfound ⊢
      exact put_item (h.listed name e.2 hname hfound)
  add _ _ hd _ := hd.elim

def Direct.order (short : Bool) (IsListed : String → Prop) (all : Prop) : Order where
  IsDefault d := short = true → d.isOverlong = false
  IsAddition name d := IsDirectName short name ∧ d ≠ .null
  IsListed := IsListed
  all := all
  Holds := Direct short IsListed all
  item := by
    intro es name v h hlisted hv
    obtain ⟨own, _, hown, hname, -⟩ := h.exists_of_key (mem_keys_of_getText? hv)
    cases hown
    refine h.item_eq hname hv ?_
    rintro rfl
    exact (h.null name (Value.Entries.mem_of_getText? hv)).1 hlisted
  get := by
    intro es key h hall hkey
    obtain ⟨name, v, rfl, hname, hv⟩ := h.exists_of_key hkey
    rw [h.get_eq hname hall hv]
    exact congrArg (fun w? : Option Value => Except.ok (w?.getD .null)) hv.symm
  put := by
    intro es key w h _ hkey hw
    obtain ⟨name, v, rfl, hname, hv⟩ := h.exists_of_key hkey
    have hfound : (es.get? (.text name)).getD .null = v := congrArg (·.getD .null) hv
    rw [hfound] at hw
    refine ⟨h.put_eq hname hv hw.eq_null, h.insert hname (fun hnull => ?_) fun hshort => ?_⟩
    · have hvnull : v = .null := by_contra fun hv => hw.ne_null hv hnull
      exact h.null name (Value.Entries.mem_of_getText? (hvnull ▸ hv))
    · have hvshort : v.isOverlong = false := hfound ▸ Value.isOverlong_getD_get? (h.short hshort) _
      exact hw.isOverlong (fun d hd => hd hshort) hvshort
  add h _ hd hadd := h.insert hadd.1 (fun hnull => absurd hnull hadd.2) hd

end Config

namespace Schema
open Config

/-- What is asked of an entry with a name of one part that does not read as a number, and that is not
null; null is nothing to a key path, so it can only be replaced by itself. -/
inductive Query.IsPlain : Query → Prop
  | item {es : Value.Entries} {name : String} {v : Value} (hname : IsWord name)
    (hv : es.getText? name = some v) (hnull : v ≠ .null) : IsPlain (.item es (.text name))
  | get {es : Value.Entries} {name : String} {v : Value} (hname : IsWord name)
    (hv : es.getText? name = some v) (hnull : v = .null → (Value.map es).isOverlong = false) :
    IsPlain (.get es (.text name))
  | put {es : Value.Entries} {name : String} {v new : Value} (hname : IsWord name)
    (hv : es.getText? name = some v) (hnull : v = .null → new = .null) :
    IsPlain (.put es (.text name) new)

end Schema

namespace Validation
open Schema Config

def escape (cs : List Char) : List Char := cs.flatMap fun c => if c = '\\' then ['\\', '\\'] else [c]

def listing (name : String) : Value :=
  .map [(.text "properties", .map [(.text (String.ofList (escape name.toList)), .map [])])]

variable {es : Value.Entries} {name : String} {v : Value}

def fillingSchema : Value :=
  .map [(.text "properties", .map
    [(.text "rom", .map [(.text "properties", .map
      [(.text "length", .map [(.text "default", .int 65536)])])]),
    (.text "model", .map [(.text "default", .text "small")])])]

def filler : Validation := ⟨[fillingSchema], [], true, false⟩

end Validation
end FirmwareKit
