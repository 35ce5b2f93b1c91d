import FirmwareKit.Proofs.Schema.Verdict
set_option autoImplicit false

namespace FirmwareKit.Schema

mutual
def Rule.defaults : Rule → List Value
  | .allOf schemas | .choice _ schemas => defaultsOfEach schemas
  | .not schema | .items schema | .others _ schema => defaults schema
  | .itemsAt schemas => defaultsOfItems schemas
  | .properties schemas => defaultsOfEntries schemas
  | _ => []

def defaults : List Rule → List Value
  | [] => []
  | r :: rest => r.defaults ++ defaults rest

def defaultsOfEach : List (List Rule) → List Value
  | [] => []
  | schema :: rest => defaults schema ++ defaultsOfEach rest

def defaultsOfItems : List (List Rule × Option Value) → List Value
  | [] => []
  | (schema, default) :: rest => default.toList ++ defaults schema ++ defaultsOfItems rest

def defaultsOfEntries : List (String × List Rule × Option Value) → List Value
  | [] => []
  | (_, schema, default) :: rest => default.toList ++ defaults schema ++ defaultsOfEntries rest
end

/-- The names that are looked up, whether all other entries are, and what may be added. -/
structure Touch where
  names : List String
  others : Bool
  additions : List (String × Value)

instance : Append Touch where
  append a b := ⟨a.names ++ b.names, a.others || b.others, a.additions ++ b.additions⟩

mutual
def Rule.touch : Rule → Touch
  | .allOf schemas | .choice _ schemas => touchOfEach schemas
  | .not schema => touch schema
  | .properties schemas =>
    ⟨schemas.map Prod.fst, false, schemas.filterMap fun e => e.2.2.map fun d => (e.1, d)⟩
  | .others _ _ => ⟨[], true, []⟩
  | _ => ⟨[], false, []⟩

def touch : List Rule → Touch
  | [] => ⟨[], false, []⟩
  | r :: rest => r.touch ++ touch rest

def touchOfEach : List (List Rule) → Touch
  | [] => ⟨[], false, []⟩
  | schema :: rest => touch schema ++ touchOfEach rest
end

/-- What becomes of a value where defaults with a property come in and nothing else changes. -/
inductive Grows (p : Value → Prop) : Value → Value → Prop
  | refl (v : Value) : Grows p v v
  | trans {u v w : Value} (huv : Grows p u v) (hvw : Grows p v w) : Grows p u w
  | item {v x y : Value} {xs : List Value} {i : Nat} (hv : itemsOf? v = some xs)
    (hx : xs[i]? = some x) (h : Grows p x y) : Grows p v (withItems v (xs.set i y))
  | append {v d : Value} {xs : List Value} (hv : itemsOf? v = some xs) (hd : p d) :
    Grows p v (withItems v (xs ++ [d]))
  | entry {es : Value.Entries} {key w : Value} (hkey : key ∈ es.map Prod.fst)
    (h : Grows p ((es.get? key).getD .null) w) : Grows p (.map es) (.map (es.insert key w))
  | enter {es : Value.Entries} {name : String} {d : Value} (hnew : es.getText? name = none)
    (hd : p d) : Grows p (.map es) (.map (es.insert (.text name) d))

theorem itemsOf?_withItems (v : Value) (xs : List Value) : itemsOf? (withItems v xs) = some xs := by
  cases v <;> rfl

theorem withItems_withItems (v : Value) (xs ys : List Value) :
    withItems (withItems v xs) ys = withItems v ys := by
  cases v <;> rfl

theorem withItems_ne_null (v : Value) (xs : List Value) : withItems v xs ≠ .null := by
  cases v <;> nofun

theorem isProper_of_itemsOf? {v : Value} {xs : List Value} (h : itemsOf? v = some xs) :
    v.isProper = Value.areProper xs := by
  cases v <;> cases h <;> rfl

theorem isOverlong_of_itemsOf? {v : Value} {xs : List Value} (h : itemsOf? v = some xs) :
    v.isOverlong = Value.areOverlong xs := by
  cases v <;> cases h <;> rfl

section Grows
variable {p : Value → Prop} {v w : Value}

theorem Grows.ne_null (h : Grows p v w) (hv : v ≠ .null) : w ≠ .null := by
  induction h with
  | refl => exact hv
  | trans _ _ ihuv ihvw => exact ihvw (ihuv hv)
  | item => exact withItems_ne_null _ _
  | append => exact withItems_ne_null _ _
  | entry => nofun
  | enter => nofun

theorem Grows.eq_null (h : Grows p v w) (hv : v = .null) : w = .null := by
  induction h with
  | refl => exact hv
  | trans _ _ ihuv ihvw => exact ihvw (ihuv hv)
  | item hitems => subst hv; cases hitems
  | append hitems => subst hv; cases hitems
  | entry => cases hv
  | enter => cases hv

theorem Grows.isOverlong (h : Grows p v w) (hp : ∀ d, p d → d.isOverlong = false)
    (hv : v.isOverlong = false) : w.isOverlong = false := by
  induction h with
  | refl => exact hv
  | trans _ _ ihuv ihvw => exact ihvw (ihuv hv)
  | item hitems hx _ ih =>
    rw [isOverlong_of_itemsOf? hitems, Value.areOverlong_eq_false_iff] at hv
    rw [isOverlong_of_itemsOf? (itemsOf?_withItems _ _), Value.areOverlong_eq_false_iff]
    intro y hy
    rcases List.mem_or_eq_of_mem_set hy with hy | rfl
    · exact hv y hy
    · exact ih (hv _ (List.mem_of_getElem? hx))
  | append hitems hd =>
    rw [isOverlong_of_itemsOf? hitems, Value.areOverlong_eq_false_iff] at hv
    rw [isOverlong_of_itemsOf? (itemsOf?_withItems _ _), Value.areOverlong_eq_false_iff]
    intro y hy
    rcases List.mem_append.mp hy with hy | hy
    · exact hv y hy
    · exact List.mem_singleton.mp hy ▸ hp _ hd
  | entry hkey _ ih =>
    obtain ⟨e, he, rfl⟩ := List.mem_map.mp hkey
    exact Value.isOverlong_insert hv ((Value.isOverlong_map_eq_false_iff _).mp hv e he).1
      (ih (Value.isOverlong_getD_get? hv _))
  | enter _ hd => exact Value.isOverlong_insert hv rfl (hp _ hd)

/-- Without defaults nothing changes. -/
theorem Grows.eq_of_none (h : Grows (fun _ => False) v w) (hv : v.isProper = true) : w = v := by
  induction h with
  | refl => rfl
  | trans _ _ ihuv ihvw =>
    obtain rfl := ihuv hv
    exact ihvw hv
  | @item v x y xs i hitems hx _ ih =>
    rw [isProper_of_itemsOf? hitems, Value.areProper_iff] at hv
    obtain ⟨hi, hxi⟩ := List.getElem?_eq_some_iff.mp hx
    rw [ih (hv x (List.mem_of_getElem? hx)), ← hxi, List.set_getElem_self,
      withItems_of_itemsOf? hitems]
  | append _ hd => exact hd.elim
  | entry hkey _ ih =>
    obtain ⟨e, he, rfl⟩ := List.mem_map.mp hkey
    have hfound := Value.proper_get? hv e he
    rw [hfound] at ih
    have hsame := ih (((Value.isProper_map_iff _).mp hv).2.2 e he)
    rw [hsame]
    exact congrArg Value.map (Value.Entries.insert_of_get? hfound)
  | enter _ hd => exact hd.elim

end Grows

theorem mem_keys_of_getText? {es : Value.Entries} {name : String} {v : Value}
    (h : es.getText? name = some v) : .text name ∈ es.map Prod.fst :=
  List.mem_map_of_mem (Value.Entries.mem_of_getText? h)

end FirmwareKit.Schema
