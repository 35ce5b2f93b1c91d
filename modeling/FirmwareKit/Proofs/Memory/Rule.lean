import FirmwareKit.Proofs.Memory.Canonical
set_option autoImplicit false

namespace FirmwareKit.Memory

def Identifier (name : String) : Prop :=
  ∃ c rest, name.toList = c :: rest ∧ c.isAlpha = true ∧
    ∀ d ∈ rest, d.isAlphanum = true ∨ d = '_'

theorem isIdentifier_iff (name : String) : isIdentifier name = true ↔ Identifier name := by
  unfold isIdentifier Identifier
  cases name.toList with
  | nil => simp
  | cons c rest => simp [isIdentifierStart, isIdentifierRest]

theorem Identifier.all_rest {name : String} (h : Identifier name) :
    ∀ c ∈ name.toList, isIdentifierRest c = true := by
  obtain ⟨c, rest, hname, hc, hrest⟩ := h
  rw [hname, List.forall_mem_cons]
  exact ⟨by simp [isIdentifierRest, Char.isAlphanum, hc],
    fun d hd => by simpa [isIdentifierRest] using hrest d hd⟩

theorem normalize_identifier {entries : Value.Entries} {model : Value} {l : Layout}
    (h : normalize entries model = .ok l) : ∀ r ∈ l.regions, Identifier r.name := fun r hr =>
  (isIdentifier_iff r.name).mp (normalize_sound_of_mem h hr).named

inductive Rule where
  | identifier
  | pair
  | nonNegative
  | ordered
  | belowRom
  | oneSegment
deriving DecidableEq, Repr

def rules : List Rule := [.identifier, .pair, .nonNegative, .ordered, .belowRom, .oneSegment]

def Rule.Refuses (start last : Int) : Rule → Prop
  | .identifier | .pair => False
  | .nonNegative => start < 0 ∨ last < 0
  | .ordered => last < start
  | .belowRom => 0x20000 ≤ start
  | .oneSegment => segmentBase start ≠ segmentBase last

/-- Only a pair of integers can break a rule on addresses. -/
def Rule.Broken (entry : Value × Value) : Rule → Prop
  | .identifier => ¬ ∃ name, entry.1 = .text name ∧ Identifier name
  | .pair => ¬ ∃ start last, entry.2 = .list [.int start, .int last]
  | rule => ∃ start last, entry.2 = .list [.int start, .int last] ∧ rule.Refuses start last

def Rule.fault (name : Value) : Rule → Fault
  | .identifier => .invalidIdentifier name
  | .pair => .notPair name.display
  | .nonNegative => .negativeAddress name.display
  | .ordered => .negativeSize name
  | .belowRom => .inRomArea name
  | .oneSegment => .crossesSegment name

def Offends (entry : Value × Value) : Prop := ∃ rule : Rule, rule.Broken entry

/-- The fault that is raised where a message shows a value: it may be too long to be written. -/
def told (shown : Value) (f : Fault) : Fault :=
  if shown.isOverlong then .system .overlongInteger else f

theorem told_text (s : String) (f : Fault) : told (.text s) f = f := by
  simp [told, Value.isOverlong]

theorem bounds_list_of_not_pair (name : String) (items : List Value)
    (h : ¬ ∃ start last, items = [.int start, .int last]) :
    bounds name (.list items) = .error (.notPair name) := by
  have hno : ¬ (items.length = 2 ∧ (elements (.list items)).all isInteger = true) := by
    rintro ⟨hlen, hall⟩
    obtain ⟨x, y, rfl⟩ := List.length_eq_two.mp hlen
    cases x <;> cases y <;> simp [elements, isInteger] at hall
    exact h ⟨_, _, rfl⟩
  simp only [bounds, length?]
  rw [if_neg hno]

theorem bounds_list_pair (name : String) (start last : Int) :
    bounds name (.list [.int start, .int last]) =
      if start < 0 ∨ last < 0 then .error (.negativeAddress name) else .ok (start, last) := by
  change (if start < 0 then _ else if last < 0 then _ else _) = _
  by_cases h0 : start < 0
  · simp [h0]
  · simp [h0]

theorem Rule.broken_iff {s : String} (hs : Identifier s) (start last : Int) (rule : Rule) :
    rule.Broken (.text s, .list [.int start, .int last]) ↔ rule.Refuses start last := by
  cases rule <;> simp [Rule.Broken, Rule.Refuses, hs]

theorem checkEntry_pair {s : String} (hs : Identifier s) (start last : Int) :
    checkEntry (.text s) (.list [.int start, .int last]) =
      if start < 0 ∨ last < 0 then .error (.negativeAddress s)
      else checkRegion ⟨s, start, last⟩ := by
  simp only [checkEntry, (isIdentifier_iff s).mpr hs, if_true, bounds_list_pair]
  split
  · rfl
  · rfl

/-- The rules on addresses are tried in their order. -/
theorem checkEntry_addresses {s : String} (hs : Identifier s) (start last : Int) :
    (∃ r, checkEntry (.text s) (.list [.int start, .int last]) = .ok r ∧
        ∀ rule : Rule, ¬ rule.Refuses start last) ∨
      ∃ rule, First (Rule.Refuses start last) rules rule ∧
        checkEntry (.text s) (.list [.int start, .int last]) =
          .error (rule.fault (.text s)) := by
  rw [checkEntry_pair hs]
  by_cases hneg : Rule.nonNegative.Refuses start last
  · exact .inr ⟨.nonNegative, .tail id (.tail id (.head hneg _)), if_pos hneg⟩
  rw [if_neg (show ¬ (start < 0 ∨ last < 0) from hneg), checkRegion]
  by_cases hlt : Rule.ordered.Refuses start last
  · exact .inr ⟨.ordered, .tail id (.tail id (.tail hneg (.head hlt _))), if_pos hlt⟩
  rw [if_neg (show ¬ last < start from hlt)]
  by_cases hrom : Rule.belowRom.Refuses start last
  · exact .inr ⟨.belowRom, .tail id (.tail id (.tail hneg (.tail hlt (.head hrom _)))),
      if_pos hrom⟩
  rw [if_neg (show ¬ romSplit ≤ start from hrom)]
  by_cases hseg : Rule.oneSegment.Refuses start last
  · exact .inr ⟨.oneSegment,
      .tail id (.tail id (.tail hneg (.tail hlt (.tail hrom (.head hseg _))))), if_pos hseg⟩
  · refine .inl ⟨⟨s, start, last⟩, if_neg hseg, ?_⟩
    intro rule
    cases rule with
    | identifier | pair => exact id
    | nonNegative => exact hneg
    | ordered => exact hlt
    | belowRom => exact hrom
    | oneSegment => exact hseg

theorem checkEntry_of_not_identifier {name : Value} {items : List Value}
    (h : Rule.identifier.Broken (name, .list items)) :
    checkEntry name (.list items) = .error (told name (Rule.identifier.fault name)) := by
  cases name with
  | text s =>
    have hs : isIdentifier s = false := by
      rw [Bool.eq_false_iff, Ne, isIdentifier_iff]
      exact fun hid => h ⟨s, rfl, hid⟩
    simp [checkEntry, hs, told_text, Rule.fault]
  | null | bool | int | float | bytes | buffer | list | tuple | map | set | moment | model | bank
  | fileRef | dataRef | path =>
    simp [checkEntry, Fault.raise, Fault.shown, Fault.shownValues, told, Rule.fault]

theorem checkEntry_of_not_pair {s : String} {items : List Value} (hs : Identifier s)
    (h : Rule.pair.Broken (.text s, .list items)) :
    checkEntry (.text s) (.list items) = .error (told (.text s) (Rule.pair.fault (.text s))) := by
  have hno : ¬ ∃ start last, items = [.int start, .int last] := by
    rintro ⟨start, last, rfl⟩
    exact h ⟨start, last, rfl⟩
  simp only [checkEntry, (isIdentifier_iff s).mpr hs, if_true,
    bounds_list_of_not_pair s items hno, told_text]
  rfl

/-- An entry with a list of bounds passes its check or fails by the first rule it breaks. -/
theorem checkEntry_list (name : Value) (items : List Value) :
    (∃ r, checkEntry name (.list items) = .ok r ∧ ¬ Offends (name, .list items)) ∨
      ∃ rule, First (Rule.Broken (name, .list items)) rules rule ∧
        checkEntry name (.list items) = .error (told name (rule.fault name)) := by
  by_cases hid : Rule.identifier.Broken (name, .list items)
  case pos => exact .inr ⟨.identifier, .head hid _, checkEntry_of_not_identifier hid⟩
  obtain ⟨s, rfl, hs⟩ : ∃ s, name = .text s ∧ Identifier s := not_not.mp hid
  by_cases hpair : Rule.pair.Broken (.text s, .list items)
  case pos => exact .inr ⟨.pair, .tail hid (.head hpair _), checkEntry_of_not_pair hs hpair⟩
  obtain ⟨start, last, hitems⟩ := not_not.mp hpair
  cases hitems
  rcases checkEntry_addresses hs start last with ⟨r, hr, hall⟩ | ⟨rule, hfirst, he⟩
  · refine .inl ⟨r, hr, ?_⟩
    rintro ⟨rule, hbroken⟩
    exact hall rule ((Rule.broken_iff hs start last rule).mp hbroken)
  · refine .inr ⟨rule, hfirst.congr ?_, ?_⟩
    · exact fun rule _ => (Rule.broken_iff hs start last rule).symm
    · rw [told_text]
      exact he

theorem checkEntries_of_first {entries : Value.Entries} {entry : Value × Value} {rule : Rule}
    (hl : ∀ entry ∈ entries, ∃ items, entry.2 = .list items) (he : First Offends entries entry)
    (hr : First (Rule.Broken entry) rules rule) :
    checkEntries entries = .error (told entry.1 (rule.fault entry.1)) := by
  have hfails : ∀ entry ∈ entries,
      (Offends entry ↔ ∃ f, checkEntry entry.1 entry.2 = .error f) := by
    rintro ⟨name, value⟩ hmem
    obtain ⟨items, rfl⟩ : ∃ items, value = .list items := hl _ hmem
    rcases checkEntry_list name items with ⟨r, hr, hno⟩ | ⟨rule, hfirst, he⟩
    · exact ⟨fun h => absurd h hno, fun ⟨f, hf⟩ => by rw [hr] at hf; cases hf⟩
    · exact ⟨fun _ => ⟨_, he⟩, fun _ => ⟨rule, hfirst.holds⟩⟩
  refine Outcome.mapM_eq_error_of_first (he.congr hfails) ?_
  obtain ⟨name, value⟩ := entry
  obtain ⟨items, rfl⟩ : ∃ items, value = .list items := hl _ he.mem
  rcases checkEntry_list name items with ⟨r, hok, hno⟩ | ⟨rule', hfirst, hf⟩
  · exact absurd he.holds hno
  · rw [hr.unique hfirst]
    exact hf

theorem checkEntries_of_kept {entries : Value.Entries}
    (hl : ∀ entry ∈ entries, ∃ items, entry.2 = .list items)
    (he : ∀ entry ∈ entries, ¬ Offends entry) :
    checkEntries entries = .ok (declared entries) ∧ ∀ r ∈ declared entries, Sound r := by
  have hpass : ∀ entry ∈ entries, ∃ r, checkEntry entry.1 entry.2 = .ok r := by
    rintro ⟨name, value⟩ hmem
    obtain ⟨items, rfl⟩ : ∃ items, value = .list items := hl _ hmem
    rcases checkEntry_list name items with ⟨r, hr, _⟩ | ⟨rule, hfirst, _⟩
    · exact ⟨r, hr⟩
    · exact absurd ⟨rule, hfirst.holds⟩ (he _ hmem)
  obtain ⟨rs, hrs⟩ := Outcome.mapM_ok_of_forall hpass
  obtain ⟨_, rfl, hs⟩ := checkEntries_eq_ok entries rs hrs
  exact ⟨hrs, hs⟩

end FirmwareKit.Memory
