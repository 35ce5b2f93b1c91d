import FirmwareKit.Proofs.Value.Proper
set_option autoImplicit false

namespace FirmwareKit.Value
variable {v u w : Value}

section Keys
variable (p : Value → Bool)

mutual
def allKeys : Value → Bool
  | .list items => itemsAllKeys items
  | .tuple items => itemsAllKeys items
  | .map entries => entriesAllKeys entries
  | _ => true

def itemsAllKeys : List Value → Bool
  | [] => true
  | v :: rest => allKeys v && itemsAllKeys rest

def entriesAllKeys : List (Value × Value) → Bool
  | [] => true
  | (k, v) :: rest => p k && allKeys v && entriesAllKeys rest
end

theorem allKeys_map_iff (entries : Value.Entries) :
    (Value.map entries).allKeys p = true ↔ ∀ e ∈ entries, p e.1 = true ∧ e.2.allKeys p = true := by
  rw [allKeys]
  induction entries with
  | nil => simp [entriesAllKeys]
  | cons e rest ih =>
    simp only [entriesAllKeys, Bool.and_eq_true_iff, ih, List.forall_mem_cons]

theorem allKeys_list_iff (items : List Value) :
    (Value.list items).allKeys p = true ↔ ∀ v ∈ items, v.allKeys p = true := by
  rw [allKeys]
  induction items with
  | nil => simp [itemsAllKeys]
  | cons v rest ih => simp only [itemsAllKeys, Bool.and_eq_true_iff, ih, List.forall_mem_cons]

end Keys

inductive Step where
  | name (s : String)
  | position (i : Nat)
deriving DecidableEq, Repr

def inside? : Value → Step → Option Value
  | .map es, .name s => Entries.getText? es s
  | .list items, .position i => items[i]?
  | _, _ => none

def below? : Value → List Step → Option Value
  | v, [] => some v
  | v, s :: rest => (inside? v s).bind fun u => below? u rest

variable {s : Step} {address : List Step}

/-- A step leads from a mapping to the entry with a name or from a list to an element. -/
theorem inside?_cases (hu : inside? v s = some u) :
    (∃ es name, v = .map es ∧ s = .name name ∧ Entries.getText? es name = some u) ∨
      ∃ items i, v = .list items ∧ s = .position i ∧ items[i]? = some u := by
  cases v with
  | map es =>
    cases s with
    | name name => exact .inl ⟨es, name, rfl, rfl, hu⟩
    | position => cases hu
  | list items =>
    cases s with
    | name => cases hu
    | position i => exact .inr ⟨items, i, rfl, rfl, hu⟩
  | _ => cases s <;> cases hu

theorem ne_null_of_inside? (hu : inside? v s = some u) : v ≠ .null := by
  rintro rfl
  cases s <;> cases hu

theorem allKeys_of_inside? {p : Value → Bool} (h : v.allKeys p = true)
    (hu : inside? v s = some u) : u.allKeys p = true := by
  rcases inside?_cases hu with ⟨es, name, rfl, rfl, hname⟩ | ⟨items, i, rfl, rfl, hi⟩
  · exact ((allKeys_map_iff p es).mp h _ (Entries.mem_of_getText? hname)).2
  · exact (allKeys_list_iff p items).mp h u (List.mem_of_getElem? hi)

theorem below?_cons_iff (v : Value) (s : Step) (rest : List Step) :
    below? v (s :: rest) = some w ↔ ∃ u, inside? v s = some u ∧ below? u rest = some w := by
  rw [below?, Option.bind_eq_some_iff]

/-- What lies on the way to a value is not null if the value is not. -/
theorem ne_null_of_below? (h : below? v address = some w) (hw : w ≠ .null) : v ≠ .null := by
  cases address with
  | nil =>
    cases h
    exact hw
  | cons s rest =>
    obtain ⟨u, hu, -⟩ := (below?_cons_iff v s rest).mp h
    exact ne_null_of_inside? hu

def along? (v : Value) (names : List String) : Option Value := below? v (names.map .name)

mutual
/-- The paths of all entries that are reached by names, depth first and in order. -/
def namePaths : Value → List (List String)
  | .map entries => entriesNamePaths entries
  | _ => []

def entriesNamePaths : List (Value × Value) → List (List String)
  | [] => []
  | (.text name, v) :: rest =>
    ([name] :: (namePaths v).map (name :: ·)) ++ entriesNamePaths rest
  | _ :: rest => entriesNamePaths rest
end

theorem mem_entriesNamePaths_iff (entries : List (Value × Value)) (path : List String) :
    path ∈ entriesNamePaths entries ↔
      ∃ name v rest, path = name :: rest ∧ (.text name, v) ∈ entries ∧
        (rest = [] ∨ rest ∈ namePaths v) := by
  induction entries with
  | nil => simp [entriesNamePaths]
  | cons e es ih =>
    obtain ⟨key, u⟩ := e
    cases key with
    | text own =>
      simp only [entriesNamePaths, List.cons_append, List.mem_cons, List.mem_append, List.mem_map, ih]
      constructor
      · rintro (rfl | ⟨rest, hrest, rfl⟩ | ⟨name, v, rest, rfl, hv, hrest⟩)
        · exact ⟨own, u, [], rfl, .inl rfl, .inl rfl⟩
        · exact ⟨own, u, rest, rfl, .inl rfl, .inr hrest⟩
        · exact ⟨name, v, rest, rfl, .inr hv, hrest⟩
      · rintro ⟨name, v, rest, rfl, hv, hrest⟩
        rcases hv with hv | hv
        · cases hv
          rcases hrest with rfl | hrest
          · exact .inl rfl
          · exact .inr (.inl ⟨rest, hrest, rfl⟩)
        · exact .inr (.inr ⟨name, v, rest, rfl, hv, hrest⟩)
    | _ => simp [entriesNamePaths, ih]

theorem ne_nil_of_mem_namePaths {path : List String} (h : path ∈ namePaths v) : path ≠ [] := by
  cases v with
  | map entries =>
    obtain ⟨name, _, rest, rfl, -⟩ := (mem_entriesNamePaths_iff entries path).mp h
    exact List.cons_ne_nil name rest
  | _ => cases h

theorem along?_cons_iff (v : Value) (name : String) (rest : List String) :
    along? v (name :: rest) = some w ↔
      ∃ es u, v = .map es ∧ Entries.getText? es name = some u ∧ along? u rest = some w := by
  rw [along?, List.map_cons, below?_cons_iff]
  constructor
  · rintro ⟨u, hu, hw⟩
    rcases inside?_cases hu with ⟨es, own, rfl, hown, hname⟩ | ⟨_, _, _, hstep, _⟩
    · cases hown
      exact ⟨es, u, rfl, hname, hw⟩
    · cases hstep
  · rintro ⟨es, u, rfl, hu, hw⟩
    exact ⟨u, hu, hw⟩

/-- The paths are those that lead to a value. -/
theorem mem_namePaths_iff (hv : v.isProper = true) (path : List String) :
    path ∈ namePaths v ↔ path ≠ [] ∧ ∃ w, along? v path = some w := by
  induction path generalizing v with
  | nil => exact ⟨fun h => absurd rfl (ne_nil_of_mem_namePaths h), fun h => absurd rfl h.1⟩
  | cons name rest ih =>
    have hrest {u : Value} (hu : u.isProper = true) :
        (rest = [] ∨ rest ∈ namePaths u) ↔ ∃ w, along? u rest = some w := by
      rw [ih hu]
      by_cases hnil : rest = []
      · subst hnil
        exact ⟨fun _ => ⟨u, rfl⟩, fun _ => .inl rfl⟩
      · simp [hnil]
    cases v with
    | map es =>
      change name :: rest ∈ entriesNamePaths es ↔ _
      rw [mem_entriesNamePaths_iff]
      constructor
      · rintro ⟨own, u, own_rest, hpath, hu, hend⟩
        cases hpath
        have hname := Entries.getText?_of_mem hv hu
        obtain ⟨w, hw⟩ := (hrest (proper_getText? hv hname)).mp hend
        exact ⟨List.cons_ne_nil _ _, w, (along?_cons_iff _ _ _).mpr ⟨es, u, rfl, hname, hw⟩⟩
      · rintro ⟨-, w, hw⟩
        obtain ⟨es', u, hmap, hname, hw⟩ := (along?_cons_iff _ _ _).mp hw
        cases hmap
        exact ⟨name, u, rest, rfl, Entries.mem_of_getText? hname,
          (hrest (proper_getText? hv hname)).mpr ⟨w, hw⟩⟩
    | _ =>
      refine ⟨nofun, fun ⟨_, w, hw⟩ => ?_⟩
      obtain ⟨es, u, hmap, -⟩ := (along?_cons_iff _ _ _).mp hw
      cases hmap

mutual
theorem nodup_namePaths : ∀ v : Value, v.isProper = true → (namePaths v).Nodup
  | .map entries, h => by
    obtain ⟨-, hdistinct, hvalues⟩ := (isProper_map_iff entries).mp h
    exact nodup_entriesNamePaths entries hdistinct hvalues
  | .null, _ | .bool _, _ | .int _, _ | .float _, _ | .text _, _ | .bytes _, _ | .buffer _, _
  | .list _, _ | .tuple _, _ | .set _, _ | .moment _, _ | .model _, _ | .bank _, _
  | .fileRef _, _ | .dataRef _, _ | .path _, _ => List.nodup_nil

theorem nodup_entriesNamePaths : ∀ entries : List (Value × Value),
    Entries.Distinct entries → (∀ e ∈ entries, e.2.isProper = true) →
    (entriesNamePaths entries).Nodup
  | [], _, _ => List.nodup_nil
  | (key, v) :: rest, hdistinct, hvalues => by
    obtain ⟨hv, hrest⟩ := List.forall_mem_cons.mp hvalues
    obtain ⟨hkey, hother⟩ := List.pairwise_cons.mp hdistinct
    have hbehind := nodup_entriesNamePaths rest hother hrest
    cases key with
    | text name =>
      have hinside : ((namePaths v).map (name :: ·)).Nodup :=
        List.Pairwise.map _ (fun _ _ hne hcons => hne (List.cons.inj hcons).2)
          (nodup_namePaths v hv)
      have hself : [name] ∉ (namePaths v).map (name :: ·) := by
        intro hmem
        obtain ⟨path, hpath, hnil⟩ := List.mem_map.mp hmem
        exact ne_nil_of_mem_namePaths hpath (List.cons.inj hnil).2
      rw [entriesNamePaths]
      refine List.nodup_append.mpr ⟨List.nodup_cons.mpr ⟨hself, hinside⟩, hbehind, ?_⟩
      rintro path hpath _ hlater rfl
      obtain ⟨own, _, _, rfl, hown, -⟩ := (mem_entriesNamePaths_iff _ _).mp hlater
      have hsame : own = name := by
        rcases List.mem_cons.mp hpath with hpath | hpath
        · exact (List.cons.inj hpath).1
        · obtain ⟨_, _, hpath⟩ := List.mem_map.mp hpath
          exact (List.cons.inj hpath).1.symm
      subst hsame
      have hdifferent : Value.sameKey (.text own) (.text own) = false := hkey _ hown
      rw [(sameKey_text_iff _ own).mpr rfl] at hdifferent
      cases hdifferent
    | _ => exact hbehind
end

end FirmwareKit.Value
