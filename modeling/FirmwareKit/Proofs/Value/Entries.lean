import FirmwareKit.Value.Basic
set_option autoImplicit false

namespace FirmwareKit.Value

theorem sameKey_text_iff (k : Value) (s : String) :
    k.sameKey (.text s) = true ↔ k = .text s := by
  cases k <;> simp [sameKey, same, sameNumber, toNumber?]

theorem text_sameKey_iff (s : String) (k : Value) :
    (Value.text s).sameKey k = true ↔ k = .text s := by
  cases k with
  | text t => simp [sameKey, same, eq_comm (a := s)]
  | null | bool | int | float | bytes | buffer | list | tuple | map | set | moment | model | bank
  | fileRef | dataRef | path => simp [sameKey, same, sameNumber, toNumber?]

namespace Entries

/-- No two entries have the same key. -/
def Distinct (entries : Value.Entries) : Prop :=
  entries.Pairwise fun e f => e.1.sameKey f.1 = false

instance (entries : Value.Entries) : Decidable entries.Distinct :=
  inferInstanceAs (Decidable (List.Pairwise _ _))

theorem Distinct.ne_text {entries : Value.Entries} (h : entries.Distinct) :
    entries.Pairwise fun e f => ∀ s, e.1 = .text s → f.1 ≠ .text s := by
  refine h.imp ?_
  intro e f hef s he hf
  rw [he, hf, Bool.eq_false_iff] at hef
  exact hef ((sameKey_text_iff _ s).mpr rfl)

def named (pairs : List (String × Value)) : Value.Entries := pairs.map fun p => (.text p.1, p.2)

/-- A name that has an entry keeps its place, a new one comes last. -/
def entered (pairs : List (String × Value)) (name : String) (value : Value) :
    List (String × Value) :=
  pairs.map (fun p => if p.1 = name then (p.1, value) else p) ++
    if name ∈ pairs.map Prod.fst then [] else [(name, value)]

theorem mem_entered {pairs : List (String × Value)} {name : String} {value : Value}
    {p : String × Value} (h : p ∈ entered pairs name value) :
    p = (name, value) ∨ (p ∈ pairs ∧ p.1 ≠ name) := by
  rcases List.mem_append.mp h with h | h
  · obtain ⟨q, hq, rfl⟩ := List.mem_map.mp h
    by_cases hname : q.1 = name
    · rw [if_pos hname, hname]
      exact .inl rfl
    · rw [if_neg hname]
      exact .inr ⟨hq, hname⟩
  · split at h
    · cases h
    · exact .inl (List.mem_singleton.mp h)

theorem self_mem_entered (pairs : List (String × Value)) (name : String) (value : Value) :
    (name, value) ∈ entered pairs name value := by
  by_cases hold : name ∈ pairs.map Prod.fst
  · obtain ⟨p, hp, rfl⟩ := List.mem_map.mp hold
    exact List.mem_append_left _ (List.mem_map.mpr ⟨p, hp, if_pos rfl⟩)
  · rw [entered, if_neg hold]
    exact List.mem_append_right _ List.mem_cons_self

theorem nodup_entered {pairs : List (String × Value)} (h : (pairs.map Prod.fst).Nodup)
    (name : String) (value : Value) : ((entered pairs name value).map Prod.fst).Nodup := by
  have hnames : pairs.map (Prod.fst ∘ fun p => if p.1 = name then (p.1, value) else p) =
      pairs.map Prod.fst := by
    refine List.map_congr_left fun p _ => ?_
    rw [Function.comp_apply]
    split <;> rfl
  rw [entered, List.map_append, List.map_map, hnames]
  split
  · rwa [List.map_nil, List.append_nil]
  · rename_i hnew
    refine List.nodup_append.mpr ⟨h, by simp, ?_⟩
    intro old hold new hmem heq
    rw [List.map_singleton, List.mem_singleton] at hmem
    rw [heq, hmem] at hold
    exact hnew hold

theorem insert_named {pairs : List (String × Value)} (h : (pairs.map Prod.fst).Nodup)
    (name : String) (value : Value) :
    (named pairs).insert (.text name) value = named (entered pairs name value) := by
  induction pairs with
  | nil => rfl
  | cons p rest ih =>
    obtain ⟨hp, hrest⟩ := List.nodup_cons.mp h
    change (if (Value.text p.1).sameKey (.text name) = true then _ else _) = _
    simp only [sameKey_text_iff, text.injEq]
    by_cases hname : p.1 = name
    · have hkept : ∀ q ∈ rest, (if q.1 = name then (q.1, value) else q) = q := by
        intro q hq
        exact if_neg fun hqname => hp (List.mem_map.mpr ⟨q, hq, hqname.trans hname.symm⟩)
      simp [entered, named, hname, List.map_congr_left hkept]
    · have hcons : entered (p :: rest) name value = p :: entered rest name value := by
        simp only [entered, List.map_cons, List.mem_cons, or_iff_right (Ne.symm hname),
          if_neg hname, List.cons_append]
      rw [if_neg hname, hcons]
      exact congrArg ((Value.text p.1, p.2) :: ·) (ih hrest)

end Entries
end FirmwareKit.Value
