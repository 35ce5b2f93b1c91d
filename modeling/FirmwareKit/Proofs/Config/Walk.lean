import FirmwareKit.Proofs.Config.Lookup
set_option autoImplicit false

namespace FirmwareKit.Config

/-- What a value holds under one part of a path, null included. -/
def held? : Value → Value → Option Value
  | .list items, .int n => (place? items.length n).bind (items[·]?)
  | .map es, key => Value.Entries.get? es key
  | _, _ => none

/-- The value at the end of a path, or the value at which the walk stops and the part that it has
nothing under. -/
def walk : Value → List Value → Except (Value × Value) Value
  | v, [] => .ok v
  | v, key :: rest =>
    match given? (held? v key) with
    | some w => walk w rest
    | none => .error (v, key)

/-- Under the part stands nothing or null; a list does not count as having nothing. -/
def IsAbsent (v key : Value) : Prop := (∃ es, v = .map es) ∨ held? v key = some .null

def IsBeyond (v key : Value) : Prop := ∃ items n, v = .list items ∧ key = .int n ∧ held? v key = none

def obstacle (root v key : Value) : Fault :=
  match v, key with
  | .list items, .int n =>
    match held? (.list items) (.int n) with
    | some _ => (Fault.missingKey key root).shown
    | none => outOfRange n
  | .list _, _ => .listKeyNotNumber
  | .map _, key => (Fault.missingKey key root).shown
  | _, _ => .invalidKeyPath

theorem step_eq (root v key : Value) :
    step root v key =
      match given? (held? v key) with
      | some w => .ok w
      | none => .error (obstacle root v key) := by
  cases v with
  | map es =>
    simp only [step, held?, obstacle, Fault.raise]
    cases Value.Entries.get? es key with
    | none => rfl
    | some w => cases w <;> rfl
  | list items =>
    cases key with
    | int n =>
      simp only [step, obstacle, Fault.raise]
      change _ = match given? (held? (.list items) (.int n)) with
        | some w => _
        | none => _
      generalize hheld : held? (.list items) (.int n) = h
      simp only [held?] at hheld
      rw [hheld]
      cases h with
      | none => rfl
      | some w => cases w <;> rfl
    | _ => rfl
  | _ => rfl

theorem held?_of_given? {v? : Option Value} {w : Value} (h : given? v? = some w) :
    v? = some w := by
  cases v? with
  | none => cases h
  | some v => cases v <;> first | exact h | cases h

theorem follow_eq (root v : Value) (path : List Value) :
    follow root v path = (walk v path).mapError fun stop => obstacle root stop.1 stop.2 := by
  induction path generalizing v with
  | nil => rfl
  | cons key rest ih =>
    rw [follow, step_eq, walk]
    cases given? (held? v key) with
    | none => rfl
    | some w => exact ih w

theorem follow_of_stop {root v w part : Value} {path : List Value}
    (hstop : walk v path = .error (w, part)) : follow root v path = .error (obstacle root w part) := by
  rw [follow_eq, hstop]
  rfl

/-! ## Values put back -/

theorem modify_eq_self {items : List Value} {i : Nat} {u : Value} (hu : items[i]? = some u)
    {f : Value → Value} (hf : f u = u) : items.modify i f = items := by
  refine List.ext_getElem? fun j => ?_
  rw [List.getElem?_modify]
  by_cases hj : i = j
  · rw [← hj, hu]
    simpa using hf
  · cases items[j]? <;> simp [hj]

/-- Where a walk ends, its own value can be put back without a change. -/
theorem replace_of_walk {w : Value} {path : List Value} :
    ∀ {v : Value}, walk v path = .ok w → replace w v path = v := by
  induction path with
  | nil =>
    rintro v ⟨⟩
    rfl
  | cons key rest ih =>
    intro v h
    rw [walk] at h
    cases hgiven : given? (held? v key) with
    | none =>
      rw [hgiven] at h
      cases h
    | some u =>
      rw [hgiven] at h
      have hheld := held?_of_given? hgiven
      cases v with
      | map es =>
        have hput : replace w u rest = u := ih h
        simp only [held?] at hheld
        simp only [replace, hheld, hput, Value.Entries.insert_of_get? hheld]
      | list items =>
        cases key with
        | int n =>
          obtain ⟨i, hi, hu⟩ := Option.bind_eq_some_iff.mp hheld
          simp only [replace, hi]
          rw [modify_eq_self hu (ih h)]
        | _ => cases hheld
      | _ => cases hheld

/-- What a look-up finds stands at the end of the path or, if the walk stops, under the key itself. -/
theorem found_of_item {entries : Value.Entries} {key v : Value} (h : item entries key = .ok v) :
    walk (.map entries) (keyPath key) = .ok v ∨
      (∃ stop, walk (.map entries) (keyPath key) = .error stop) ∧ entries.get? key = some v := by
  rw [item] at h
  cases hdivided : undivided? key with
  | some f =>
    rw [hdivided] at h
    cases h
  | none =>
    rw [hdivided] at h
    cases hwalk : walk (.map entries) (keyPath key) with
    | ok w =>
      rw [follow_eq, hwalk] at h
      cases h
      exact .inl rfl
    | error stop =>
      rw [follow_of_stop hwalk] at h
      dsimp only at h
      split at h
      · rw [step_eq] at h
        cases hgiven : given? (held? (.map entries) key) with
        | none =>
          rw [hgiven] at h
          cases h
        | some w =>
          rw [hgiven] at h
          cases h
          exact .inr ⟨⟨stop, rfl⟩, held?_of_given? hgiven⟩
      · cases h

/-- What a look-up finds can be put back without a change. -/
theorem put_item {entries : Value.Entries} {key v : Value} (h : item entries key = .ok v) :
    put entries key v = entries := by
  rw [put, h]
  dsimp only
  rcases found_of_item h with hwalk | ⟨⟨stop, hstop⟩, hfound⟩
  · rw [follow_eq, hwalk]
    exact congrArg entriesOf (replace_of_walk hwalk)
  · rw [follow_of_stop hstop]
    exact Value.Entries.insert_of_get? hfound

variable {entries : Value.Entries} {v key : Value}

theorem given?_eq_none_iff (v? : Option Value) : given? v? = none ↔ v? = none ∨ v? = some .null := by
  cases v? with
  | none => simp [given?]
  | some v => cases v <;> simp [given?]

theorem ne_null_of_given? {v? : Option Value} {w : Value} (h : given? v? = some w) : w ≠ .null := by
  rintro rfl
  cases v? with
  | none => cases h
  | some v => cases v <;> cases h

/-- A walk only stops where it has nothing or null. -/
theorem given?_of_walk {path : List Value} {u : Value} (h : walk u path = .error (v, key)) :
    given? (held? v key) = none := by
  induction path generalizing u with
  | nil => cases h
  | cons part rest ih =>
    rw [walk] at h
    cases hheld : given? (held? u part) with
    | some w =>
      rw [hheld] at h
      exact ih h
    | none =>
      rw [hheld] at h
      cases h
      exact hheld

theorem obstacle_of_absent (root : Value) (h : IsAbsent v key) :
    obstacle root v key = (Fault.missingKey key root).shown := by
  rcases h with ⟨es, rfl⟩ | hnull
  · cases key <;> rfl
  · cases v with
    | map => cases key <;> rfl
    | list items =>
      cases key with
      | int n =>
        rw [obstacle, hnull]
      | _ => cases hnull
    | _ => cases hnull

theorem obstacle_of_beyond (root : Value) (h : IsBeyond v key) :
    ∃ n, obstacle root v key = outOfRange n := by
  obtain ⟨items, n, rfl, rfl, hnone⟩ := h
  exact ⟨n, by rw [obstacle, hnone]⟩

theorem obstacle_of_unfit (root : Value) (hstop : given? (held? v key) = none)
    (habsent : ¬ IsAbsent v key) (hbeyond : ¬ IsBeyond v key) :
    (obstacle root v key).kind = .general := by
  cases v with
  | map es => exact absurd (.inl ⟨es, rfl⟩) habsent
  | list items =>
    cases key with
    | int n =>
      rcases (given?_eq_none_iff _).mp hstop with hnone | hnull
      · exact absurd ⟨items, n, rfl, rfl, hnone⟩ hbeyond
      · exact absurd (.inr hnull) habsent
    | _ => rfl
  | _ => rfl

theorem shown_of_short (hkey : key.isOverlong = false) (hv : v.isOverlong = false) :
    (Fault.missingKey key v).shown = .missingKey key v := by
  simp [Fault.shown, Fault.shownValues, hkey, hv]

theorem shown_of_overlong (h : key.isOverlong = true ∨ v.isOverlong = true) :
    (Fault.missingKey key v).shown = .system .overlongInteger := by
  rw [Fault.shown, if_pos (by simpa [Fault.shownValues] using h)]

/-! ## Look-ups -/

def valueAt? (entries : Value.Entries) (key : String) : Option Value :=
  (walk (.map entries) (keyPath (.text key))).toOption <|> given? (entries.getText? key)

theorem item_text (entries : Value.Entries) (key : String) :
    item entries (.text key) =
      match walk (.map entries) (keyPath (.text key)) with
      | .ok v => .ok v
      | .error (v, part) =>
        if (obstacle (.map entries) v part).kind = .key then
          match given? (entries.getText? key) with
          | some w => .ok w
          | none => .error (missing entries key)
        else .error (obstacle (.map entries) v part) := by
  rw [item, follow_eq]
  cases walk (.map entries) (keyPath (.text key)) with
  | ok v => rfl
  | error stop => exact ite_congr rfl (fun _ => step_map ..) fun _ => rfl

section Stop
variable {name : String} (hstop : walk (.map entries) (keyPath (.text name)) = .error (v, key))
include hstop

theorem get_of_absent (habsent : IsAbsent v key) (hkey : key.isOverlong = false)
    (hentries : (Value.map entries).isOverlong = false) (default : Value) :
    get entries (.text name) default = .ok ((given? (entries.getText? name)).getD default) := by
  have hkind : (Fault.missingKey key (.map entries)).kind = .key := rfl
  rw [get, item_text, hstop]
  dsimp only
  rw [obstacle_of_absent _ habsent, shown_of_short hkey hentries, if_pos hkind]
  cases given? (entries.getText? name) with
  | some w => rfl
  | none =>
    simp only [missing, hentries]
    rfl

theorem get_of_overlong (habsent : IsAbsent v key)
    (hlong : key.isOverlong = true ∨ (Value.map entries).isOverlong = true) (default : Value) :
    get entries (.text name) default = .error (.system .overlongInteger) := by
  rw [get, item_text, hstop]
  dsimp only
  rw [obstacle_of_absent _ habsent, shown_of_overlong hlong]
  rfl

theorem get_of_beyond (hbeyond : IsBeyond v key) (default : Value) :
    ∃ n, get entries (.text name) default = .error (outOfRange n) := by
  obtain ⟨n, hn⟩ := obstacle_of_beyond (.map entries) hbeyond
  refine ⟨n, ?_⟩
  rw [get, item_text, hstop]
  dsimp only
  rw [hn]
  rfl

theorem get_of_unfit (habsent : ¬ IsAbsent v key) (hbeyond : ¬ IsBeyond v key) (default : Value) :
    get entries (.text name) default = .ok default := by
  have hkind := obstacle_of_unfit (.map entries) (given?_of_walk hstop) habsent hbeyond
  rw [get, item_text, hstop]
  dsimp only
  rw [if_neg (by rw [hkind]; decide)]
  dsimp only
  rw [hkind]
  rfl

end Stop

/-- A stop that is answered: not behind the end of a list and, where an entry is not there, with a
part and a configuration that can be written. -/
def IsAnswered (entries : Value.Entries) (v key : Value) : Prop :=
  ¬ IsBeyond v key ∧
    (IsAbsent v key → key.isOverlong = false ∧ (Value.map entries).isOverlong = false)

theorem get_of_walk {name : String} {v : Value}
    (h : walk (.map entries) (keyPath (.text name)) = .ok v) (default : Value) :
    get entries (.text name) default = .ok v := by
  rw [get, item_text, h]

theorem valueAt?_of_stop {name : String}
    (h : walk (.map entries) (keyPath (.text name)) = .error (v, key)) :
    valueAt? entries name = given? (entries.getText? name) := by
  rw [valueAt?, h]
  rfl

theorem exists_get_of_stop {name : String}
    (h : walk (.map entries) (keyPath (.text name)) = .error (v, key)) (default : Value) :
    (∃ w, get entries (.text name) default = .ok w) ↔ IsAnswered entries v key := by
  by_cases hbeyond : IsBeyond v key
  · obtain ⟨n, hn⟩ := get_of_beyond h hbeyond default
    rw [hn]
    exact ⟨fun ⟨_, hw⟩ => (by cases hw), fun hanswered => absurd hbeyond hanswered.1⟩
  by_cases habsent : IsAbsent v key
  · by_cases hlong : key.isOverlong = true ∨ (Value.map entries).isOverlong = true
    · rw [get_of_overlong h habsent hlong]
      refine ⟨fun ⟨_, hw⟩ => (by cases hw), fun hanswered => ?_⟩
      obtain ⟨hkey, hentries⟩ := hanswered.2 habsent
      simp [hkey, hentries] at hlong
    · simp only [not_or, Bool.not_eq_true] at hlong
      rw [get_of_absent h habsent hlong.1 hlong.2]
      exact ⟨fun _ => ⟨hbeyond, fun _ => hlong⟩, fun _ => ⟨_, rfl⟩⟩
  · rw [get_of_unfit h habsent hbeyond]
    exact ⟨fun _ => ⟨hbeyond, fun hhere => absurd hhere habsent⟩, fun _ => ⟨_, rfl⟩⟩

theorem get_of_stop_iff {name : String}
    (h : walk (.map entries) (keyPath (.text name)) = .error (v, key)) :
    (∀ default, get entries (.text name) default =
        .ok ((given? (entries.getText? name)).getD default)) ↔
      IsAnswered entries v key ∧ (¬ IsAbsent v key → given? (entries.getText? name) = none) := by
  constructor
  · intro hget
    have hanswered := (exists_get_of_stop h .null).mp ⟨_, hget .null⟩
    refine ⟨hanswered, fun habsent => ?_⟩
    cases hliteral : given? (entries.getText? name) with
    | none => rfl
    | some w =>
      -- the default is answered, so it cannot be null and the literal value at once
      have hnull := hget .null
      rw [get_of_unfit h habsent hanswered.1, hliteral] at hnull
      exact absurd (Except.ok.inj hnull).symm (ne_null_of_given? hliteral)
  · rintro ⟨hanswered, hliteral⟩ default
    by_cases habsent : IsAbsent v key
    · obtain ⟨hkey, hentries⟩ := hanswered.2 habsent
      exact get_of_absent h habsent hkey hentries default
    · rw [get_of_unfit h habsent hanswered.1, hliteral habsent]
      rfl

theorem forall_stop_iff {p : Value → Value → Prop} :
    (∀ u part, (Except.error (v, key) : Except (Value × Value) Value) = .error (u, part) →
      p u part) ↔ p v key := by
  constructor
  · exact fun h => h v key rfl
  · rintro h u part ⟨⟩
    exact h

/-- A look-up with a default answers if the walk along its path is answered where it stops. It
answers what the key leads to, the default only where that is nothing, unless the walk stops at a
value without such parts and the literal name has a value. -/
theorem get_iff (entries : Value.Entries) (name : String) :
    ((∀ default, ∃ v, get entries (.text name) default = .ok v) ↔
        ∀ v key, walk (.map entries) (keyPath (.text name)) = .error (v, key) →
          IsAnswered entries v key) ∧
      ((∀ default, get entries (.text name) default =
          .ok ((valueAt? entries name).getD default)) ↔
        ∀ v key, walk (.map entries) (keyPath (.text name)) = .error (v, key) →
          IsAnswered entries v key ∧
            (¬ IsAbsent v key → given? (entries.getText? name) = none)) := by
  cases hwalk : walk (.map entries) (keyPath (.text name)) with
  | ok w =>
    have hget := get_of_walk hwalk
    have hvalue : valueAt? entries name = some w := by
      rw [valueAt?, hwalk]
      rfl
    simp [hget, hvalue]
  | error stop =>
    obtain ⟨v, key⟩ := stop
    have hvalue := valueAt?_of_stop hwalk
    rw [forall_stop_iff, forall_stop_iff, hvalue]
    exact ⟨⟨fun hget => (exists_get_of_stop hwalk .null).mp (hget .null),
      fun hanswered default => (exists_get_of_stop hwalk default).mpr hanswered⟩,
      get_of_stop_iff hwalk⟩

/-- Behind the end of a list even a look-up with a default has no answer. -/
theorem get_behind_list :
    get [(.text "a", .list [.int 1])] (.text "a/5") (.int 7) =
      .error (.system (.indexOutOfRange "list index out of range")) := by
  rfl

end FirmwareKit.Config
