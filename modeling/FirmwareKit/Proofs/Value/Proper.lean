import FirmwareKit.Proofs.Value.Entries
import FirmwareKit.Value.Text
set_option autoImplicit false

/-!
# Proper values

A mapping is proper if its keys cannot change and none of them is there twice. Every key of a proper
mapping leads to its own entry, so putting an entry where it is already changes nothing.
-/
namespace FirmwareKit.Value

theorem compare?_self (x : Binary64) (h : x ≠ .nan) : x.compare? x = some .eq := by
  cases x with
  | nan => exact absurd rfl h
  | infinity s => exact congrArg some Std.ReflCmp.compare_self
  | finite s m e => exact congrArg some Std.ReflCmp.compare_self

theorem sameFloat_self (x : Binary64) : sameFloat true x x = true := by
  by_cases h : x = .nan
  · simp [sameFloat, h]
  · simp [sameFloat, compare?_self x h]

theorem sameNumber_int (n : Int) : sameNumber (.int n) (.int n) = true := by
  simp [sameNumber, toNumber?, Number.compare?]

theorem moment_same_self (m : Moment) : m.same m = true := by
  obtain ⟨date, time⟩ := m
  cases time <;> simp [Moment.same]

mutual
/-- What may be a key is the same key as itself. -/
theorem sameKey_self : (v : Value) → v.isKey = true → v.sameKey v = true
  | .null, _ => rfl
  | .bool b, _ => by cases b <;> rfl
  | .int n, _ => by simp [sameKey, same, sameNumber_int]
  | .float x, _ => by simp [sameKey, same, sameFloat_self]
  | .tuple items, h => by
    rw [sameKey, same]
    exact sameItems_self items h
  | .moment m, _ => moment_same_self m
  | .text _, _ | .bytes _, _ | .model _, _ | .bank _, _ | .fileRef _, _ | .dataRef _, _
  | .path _, _ => by simp [sameKey, same]

theorem sameItems_self : (vs : List Value) → isKey.isKeys vs = true → sameItems true vs vs = true
  | [], _ => rfl
  | v :: rest, h => by
    obtain ⟨hv, hrest⟩ := Bool.and_eq_true_iff.mp h
    exact Bool.and_eq_true_iff.mpr ⟨sameKey_self v hv, sameItems_self rest hrest⟩
end

mutual
/-- Whether the keys of every mapping in a value can be keys, and no two of them are the same. -/
def isProper : Value → Bool
  | .list items => areProper items
  | .tuple items => areProper items
  | .map entries =>
    entries.all (fun e => e.1.isKey) && decide (Entries.Distinct entries) && haveProper entries
  | _ => true

def areProper : List Value → Bool
  | [] => true
  | v :: rest => isProper v && areProper rest

def haveProper : List (Value × Value) → Bool
  | [] => true
  | (_, v) :: rest => isProper v && haveProper rest
end

theorem haveProper_iff (entries : Value.Entries) :
    haveProper entries = true ↔ ∀ e ∈ entries, e.2.isProper = true := by
  induction entries with
  | nil => simp [haveProper]
  | cons e rest ih => simp only [haveProper, Bool.and_eq_true_iff, ih, List.forall_mem_cons]

theorem areProper_iff (items : List Value) :
    areProper items = true ↔ ∀ v ∈ items, v.isProper = true := by
  induction items with
  | nil => simp [areProper]
  | cons v rest ih => simp only [areProper, Bool.and_eq_true_iff, ih, List.forall_mem_cons]

theorem isProper_map_iff (entries : Value.Entries) :
    (Value.map entries).isProper = true ↔
      (∀ e ∈ entries, e.1.isKey = true) ∧ entries.Distinct ∧
        ∀ e ∈ entries, e.2.isProper = true := by
  simp only [isProper, Bool.and_eq_true_iff, List.all_eq_true, decide_eq_true_iff, haveProper_iff,
    and_assoc]

namespace Entries
variable {entries : Value.Entries}

theorem get?_cons (e : Value × Value) (rest : Value.Entries) (key : Value) :
    get? (e :: rest) key = if e.1.sameKey key then some e.2 else get? rest key := by
  simp only [get?, List.find?_cons]
  split <;> simp_all

theorem insert_of_get? {key value : Value} (h : entries.get? key = some value) :
    entries.insert key value = entries := by
  induction entries with
  | nil => simp [get?] at h
  | cons e rest ih =>
    rw [get?_cons] at h
    by_cases hkey : e.1.sameKey key = true
    · rw [if_pos hkey, Option.some.injEq] at h
      simp [insert, hkey, ← h]
    · rw [if_neg hkey] at h
      simp [insert, hkey, ih h]

/-- In a proper mapping every key leads to its own entry. -/
theorem get?_of_mem (hkeys : ∀ e ∈ entries, e.1.isKey = true) (hdistinct : entries.Distinct)
    {e : Value × Value} (he : e ∈ entries) : entries.get? e.1 = some e.2 := by
  induction entries with
  | nil => cases he
  | cons f rest ih =>
    obtain ⟨hfkey, hrestkeys⟩ := List.forall_mem_cons.mp hkeys
    obtain ⟨hf, hrest⟩ := List.pairwise_cons.mp hdistinct
    rw [get?_cons]
    rcases List.mem_cons.mp he with rfl | he
    · rw [if_pos (sameKey_self e.1 hfkey)]
    · rw [if_neg (by simp [hf e he]), ih hrestkeys hrest he]

theorem mem_of_getText? {name : String} {value : Value} (h : entries.getText? name = some value) :
    (.text name, value) ∈ entries := by
  obtain ⟨e, he, rfl⟩ := Option.map_eq_some_iff.mp h
  have hkey : e.1 = .text name := by simpa [sameKey_text_iff] using List.find?_some he
  rw [← hkey]
  exact List.mem_of_find?_eq_some he

theorem getText?_of_mem (h : (Value.map entries).isProper = true) {name : String} {value : Value}
    (hmem : (.text name, value) ∈ entries) : entries.getText? name = some value := by
  obtain ⟨hkeys, hdistinct, _⟩ := (isProper_map_iff entries).mp h
  exact get?_of_mem hkeys hdistinct hmem

/-- A name has one entry, so asking all entries of that name is asking the one it leads to. -/
theorem any_name (h : (Value.map entries).isProper = true) (name : String) (p : Value → Bool) :
    entries.any (fun e => e.1.sameKey (.text name) && p e.2) = (entries.getText? name).any p := by
  rw [Bool.eq_iff_iff, List.any_eq_true, Option.any_eq_true]
  constructor
  · rintro ⟨⟨key, value⟩, hmem, hentry⟩
    obtain ⟨hkey, hvalue⟩ := Bool.and_eq_true_iff.mp hentry
    obtain rfl := (sameKey_text_iff key name).mp hkey
    exact ⟨value, getText?_of_mem h hmem, hvalue⟩
  · rintro ⟨value, hfound, hvalue⟩
    refine ⟨_, mem_of_getText? hfound, Bool.and_eq_true_iff.mpr ⟨?_, hvalue⟩⟩
    exact (sameKey_text_iff _ name).mpr rfl

/-! A name that is given another value -/

theorem getText?_insert_self (entries : Value.Entries) (name : String) (value : Value) :
    (entries.insert (.text name) value).getText? name = some value := by
  have hname : (Value.text name).sameKey (.text name) = true := (sameKey_text_iff _ name).mpr rfl
  induction entries with
  | nil =>
    rw [insert, getText?, get?_cons, if_pos hname]
  | cons e rest ih =>
    rw [insert]
    split
    case isTrue hkey => rw [getText?, get?_cons, if_pos hkey]
    case isFalse hkey =>
      rw [getText?, get?_cons, if_neg hkey]
      exact ih

theorem getText?_insert_of_ne (entries : Value.Entries) {name other : String} (h : other ≠ name)
    (value : Value) :
    (entries.insert (.text name) value).getText? other = entries.getText? other := by
  have hother : ¬ (Value.text name).sameKey (.text other) = true := by
    rw [sameKey_text_iff, text.injEq]
    exact h.symm
  induction entries with
  | nil =>
    rw [insert, getText?, get?_cons, if_neg hother]
    rfl
  | cons e rest ih =>
    rw [insert]
    split
    case isTrue hkey =>
      rw [sameKey_text_iff] at hkey
      rw [getText?, getText?, get?_cons, get?_cons, hkey, if_neg hother, if_neg hother]
    case isFalse =>
      rw [getText?, getText?, get?_cons, get?_cons]
      change (if _ then _ else getText? _ other) = if _ then _ else getText? _ other
      rw [ih]

theorem keys_insert {key old : Value} (h : entries.get? key = some old) (value : Value) :
    (entries.insert key value).map Prod.fst = entries.map Prod.fst := by
  induction entries with
  | nil => cases h
  | cons e rest ih =>
    rw [insert]
    split
    case isTrue => rfl
    case isFalse hkey =>
      rw [get?_cons, if_neg hkey] at h
      rw [List.map_cons, List.map_cons, ih h]

theorem mem_insert {key value : Value} {e : Value × Value} (h : e ∈ entries.insert key value) :
    (e.2 = value ∧ (e.1 = key ∨ e.1 ∈ entries.map Prod.fst ∧ e.1.sameKey key = true)) ∨
      e ∈ entries := by
  induction entries with
  | nil =>
    obtain rfl := List.mem_singleton.mp h
    exact .inl ⟨rfl, .inl rfl⟩
  | cons d rest ih =>
    rw [insert] at h
    split at h
    case isTrue hkey =>
      rcases List.mem_cons.mp h with rfl | h
      · exact .inl ⟨rfl, .inr ⟨List.mem_cons_self, hkey⟩⟩
      · exact .inr (List.mem_cons_of_mem _ h)
    case isFalse =>
      rcases List.mem_cons.mp h with rfl | h
      · exact .inr List.mem_cons_self
      · rcases ih h with ⟨hvalue, hkey⟩ | h
        · exact .inl ⟨hvalue, hkey.imp_right fun hold => ⟨List.mem_cons_of_mem _ hold.1, hold.2⟩⟩
        · exact .inr (List.mem_cons_of_mem _ h)

end Entries

theorem proper_get? {entries : Value.Entries} (h : (Value.map entries).isProper = true) :
    ∀ e ∈ entries, entries.get? e.1 = some e.2 := by
  obtain ⟨hkeys, hdistinct, _⟩ := (isProper_map_iff entries).mp h
  exact fun e he => Entries.get?_of_mem hkeys hdistinct he

theorem proper_getText? {entries : Value.Entries} (h : (Value.map entries).isProper = true)
    {name : String} {value : Value} (hvalue : entries.getText? name = some value) :
    value.isProper = true :=
  ((isProper_map_iff entries).mp h).2.2 _ (Entries.mem_of_getText? hvalue)

theorem distinct_iff (entries : Value.Entries) :
    entries.Distinct ↔ (entries.map Prod.fst).Pairwise fun k l => k.sameKey l = false := by
  rw [List.pairwise_map]
  rfl

theorem isProper_insert {entries : Value.Entries} (h : (Value.map entries).isProper = true)
    {name : String} {old value : Value} (hold : entries.getText? name = some old)
    (hvalue : value.isProper = true) :
    (Value.map (entries.insert (.text name) value)).isProper = true := by
  obtain ⟨hkeys, hdistinct, hvalues⟩ := (isProper_map_iff entries).mp h
  have hsame := Entries.keys_insert hold value
  refine (isProper_map_iff _).mpr ⟨fun e he => ?_, ?_, fun e he => ?_⟩
  · have hmem : e.1 ∈ entries.map Prod.fst := hsame ▸ List.mem_map_of_mem he
    obtain ⟨d, hd, hkey⟩ := List.mem_map.mp hmem
    exact hkey ▸ hkeys d hd
  · rw [distinct_iff, hsame, ← distinct_iff]
    exact hdistinct
  · rcases Entries.mem_insert he with ⟨hnew, -⟩ | hmem
    · exact hnew ▸ hvalue
    · exact hvalues e hmem

theorem areOverlong_iff (items : List Value) :
    areOverlong items = true ↔ ∃ v ∈ items, v.isOverlong = true := by
  induction items with
  | nil => simp [areOverlong]
  | cons v rest ih => simp [areOverlong, ih]

theorem isOverlong_map_iff (entries : Value.Entries) :
    (Value.map entries).isOverlong = true ↔
      ∃ e ∈ entries, e.1.isOverlong = true ∨ e.2.isOverlong = true := by
  change haveOverlong entries = true ↔ _
  induction entries with
  | nil => simp [haveOverlong]
  | cons e rest ih =>
    simp only [haveOverlong, Bool.or_eq_true_iff, ih, List.mem_cons, or_and_right, exists_or,
      exists_eq_left]

theorem areOverlong_eq_false_iff (xs : List Value) :
    areOverlong xs = false ↔ ∀ x ∈ xs, x.isOverlong = false := by
  rw [← Bool.not_eq_true, areOverlong_iff]
  simp

theorem isOverlong_map_eq_false_iff (es : Value.Entries) :
    (Value.map es).isOverlong = false ↔
      ∀ e ∈ es, e.1.isOverlong = false ∧ e.2.isOverlong = false := by
  rw [← Bool.not_eq_true, isOverlong_map_iff]
  simp

theorem isOverlong_getD_get? {es : Value.Entries} (h : (Value.map es).isOverlong = false)
    (key : Value) : ((es.get? key).getD .null).isOverlong = false := by
  rw [isOverlong_map_eq_false_iff] at h
  rw [Entries.get?]
  cases hfound : es.find? fun e => e.1.sameKey key with
  | none => rfl
  | some e => exact (h e (List.mem_of_find?_eq_some hfound)).2

theorem isOverlong_insert {es : Value.Entries} (h : (Value.map es).isOverlong = false)
    {key value : Value} (hkey : key.isOverlong = false) (hvalue : value.isOverlong = false) :
    (Value.map (es.insert key value)).isOverlong = false := by
  rw [isOverlong_map_eq_false_iff] at h ⊢
  intro e he
  rcases Entries.mem_insert he with ⟨hnew, hold⟩ | he
  · refine ⟨?_, hnew ▸ hvalue⟩
    rcases hold with rfl | ⟨hold, -⟩
    · exact hkey
    · obtain ⟨d, hd, hsame⟩ := List.mem_map.mp hold
      exact hsame ▸ (h d hd).1
  · exact h e he

theorem any_key_of_keys {es ds : Value.Entries} (h : es.map Prod.fst = ds.map Prod.fst)
    (q : Value → Bool) : (es.any fun e => q e.1) = ds.any fun e => q e.1 := by
  have hany (fs : Value.Entries) : (fs.any fun e => q e.1) = (fs.map Prod.fst).any q := by
    rw [List.any_map]
    rfl
  rw [hany, hany, h]

end FirmwareKit.Value
