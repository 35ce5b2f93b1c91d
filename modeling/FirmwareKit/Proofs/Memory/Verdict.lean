import Mathlib.Algebra.Group.Int.Defs
import FirmwareKit.Proofs.Memory.Overlap
import FirmwareKit.Proofs.Memory.Rule
set_option autoImplicit false

/-!
# Verdicts on memory maps

What is wrong with a map and a model, said without running the check: the model is unknown, or an
entry is the first to break a rule, or two regions are the first to share an address, or there is no
place for the stack. The check follows the verdict unless its message cannot be written.
-/
namespace FirmwareKit.Memory

/-- Members and, without regard to case, their labels. -/
def Known (model : Value) : Prop :=
  (∃ m, model = .model m) ∨
    ∃ s, model = .text s ∧ ∃ m : MemoryModel, Text.upper (Labelled.label m) = Text.upper s

inductive Verdict where
  | unknownModel
  | broken (rule : Rule) (name : Value)
  | overlapping (r s : Region)
  | missingStack
  | accepted

inductive Judged (entries : Value.Entries) (model : Value) : Verdict → Prop where
  | unknownModel (hm : ¬ Known model) : Judged entries model .unknownModel
  | broken {entry : Value × Value} {rule : Rule} (hm : Known model)
      (he : First Offends entries entry) (hr : First (Rule.Broken entry) rules rule) :
      Judged entries model (.broken rule entry.1)
  | overlapping {r s : Region} (hm : Known model) (he : ∀ entry ∈ entries, ¬ Offends entry)
      (hp : First (fun p => p.1.Share p.2) (pairs (withoutStack (declared entries))) (r, s)) :
      Judged entries model (.overlapping r s)
  | missingStack (hm : Known model) (he : ∀ entry ∈ entries, ¬ Offends entry)
      (hp : ∀ p ∈ pairs (withoutStack (declared entries)), ¬ p.1.Share p.2)
      (hs : ∀ r ∈ declared entries, r.name ≠ "stack" ∧ r.name ≠ "c_heap") :
      Judged entries model .missingStack
  | accepted (hm : Known model) (he : ∀ entry ∈ entries, ¬ Offends entry)
      (hp : ∀ p ∈ pairs (withoutStack (declared entries)), ¬ p.1.Share p.2)
      (hs : ∃ r ∈ declared entries, r.name = "stack" ∨ r.name = "c_heap") :
      Judged entries model .accepted

def Verdict.fault? (model : Value) : Verdict → Option (Value × Fault)
  | .unknownModel => some (model, .unknownModel (.text model.display))
  | .broken rule name => some (name, rule.fault name)
  | .overlapping r s => some (.text r.name, .overlapping (.text r.name) (.text s.name))
  | .missingStack => some (.null, .missingStack)
  | .accepted => none

def Verdict.Realised (model : Value) (v : Verdict) (outcome : Except Fault Layout) : Prop :=
  match v.fault? model with
  | some (_, f) => outcome = .error f
  | none => ∃ l, outcome = .ok l

/-- A message shows no integer that is too long to be written. -/
def Verdict.Writable (model : Value) (v : Verdict) : Prop :=
  ∀ shown f, v.fault? model = some (shown, f) → shown.isOverlong = false

theorem ofLabel?_isSome_iff (s : String) :
    (Labelled.ofLabel? s : Option MemoryModel).isSome = true ↔
      ∃ m : MemoryModel, Text.upper (Labelled.label m) = Text.upper s := by
  rw [Labelled.ofLabel?, List.find?_isSome]
  constructor
  · rintro ⟨m, _, hm⟩
    exact ⟨m, eq_of_beq hm⟩
  · rintro ⟨m, hm⟩
    exact ⟨m, by cases m <;> decide, beq_iff_eq.mpr hm⟩

theorem parse_of_known {model : Value} (h : Known model) :
    ∃ m, MemoryModel.parse model = .ok m := by
  rcases h with ⟨m, rfl⟩ | ⟨s, rfl, hs⟩
  · exact ⟨m, rfl⟩
  · obtain ⟨m, hm⟩ := Option.isSome_iff_exists.mp ((ofLabel?_isSome_iff s).mpr hs)
    exact ⟨m, by simp only [MemoryModel.parse, hm]⟩

theorem parse_of_not_known {model : Value} (h : ¬ Known model) :
    MemoryModel.parse model = .error (told model (.unknownModel (.text model.display))) := by
  cases model with
  | model m => exact absurd (.inl ⟨m, rfl⟩) h
  | text s =>
    have hs : (Labelled.ofLabel? s : Option MemoryModel) = none := by
      rw [← Option.not_isSome_iff_eq_none, ofLabel?_isSome_iff]
      exact fun hm => h (.inr ⟨s, rfl, hm⟩)
    simp only [MemoryModel.parse, hs, told_text, Value.display]
  | null | bool | int | float | bytes | buffer | list | tuple | map | set | moment | bank
  | fileRef | dataRef | path =>
    simp only [MemoryModel.parse, told]
    split <;> rfl

theorem Judged.unique {entries : Value.Entries} {model : Value} {v w : Verdict}
    (hv : Judged entries model v) (hw : Judged entries model w) : v = w := by
  cases hv with
  | unknownModel hm =>
    cases hw with
    | unknownModel => rfl
    | broken hm' | overlapping hm' | missingStack hm' | accepted hm' => exact absurd hm' hm
  | broken hm he hr =>
    cases hw with
    | unknownModel hm' => exact absurd hm hm'
    | broken _ he' hr' =>
      cases he.unique he'
      cases hr.unique hr'
      rfl
    | overlapping _ he' | missingStack _ he' | accepted _ he' =>
      exact absurd he.holds (he' _ he.mem)
  | overlapping hm he hp =>
    cases hw with
    | unknownModel hm' => exact absurd hm hm'
    | broken _ he' => exact absurd he'.holds (he _ he'.mem)
    | overlapping _ _ hp' =>
      cases hp.unique hp'
      rfl
    | missingStack _ _ hp' | accepted _ _ hp' => exact absurd hp.holds (hp' _ hp.mem)
  | missingStack hm he hp hs =>
    cases hw with
    | unknownModel hm' => exact absurd hm hm'
    | broken _ he' => exact absurd he'.holds (he _ he'.mem)
    | overlapping _ _ hp' => exact absurd hp'.holds (hp _ hp'.mem)
    | missingStack => rfl
    | accepted _ _ _ hs' =>
      obtain ⟨r, hr, h⟩ := hs'
      exact absurd h (not_or.mpr (hs r hr))
  | accepted hm he hp hs =>
    cases hw with
    | unknownModel hm' => exact absurd hm hm'
    | broken _ he' => exact absurd he'.holds (he _ he'.mem)
    | overlapping _ _ hp' => exact absurd hp'.holds (hp _ hp'.mem)
    | missingStack _ _ _ hs' =>
      obtain ⟨r, hr, h⟩ := hs
      exact absurd h (not_or.mpr (hs' r hr))
    | accepted => rfl

theorem Judged.exists (entries : Value.Entries) (model : Value) :
    ∃ v, Judged entries model v := by
  by_cases hm : Known model
  case neg => exact ⟨_, .unknownModel hm⟩
  rcases First.forall_not_or_exists Offends entries with he | ⟨entry, he⟩
  case inr =>
    rcases First.forall_not_or_exists (Rule.Broken entry) rules with hno | ⟨rule, hr⟩
    · obtain ⟨rule, hbroken⟩ := he.holds
      exact absurd hbroken (hno rule (by cases rule <;> decide))
    · exact ⟨_, .broken hm he hr⟩
  rcases First.forall_not_or_exists (fun p : Region × Region => p.1.Share p.2)
    (pairs (withoutStack (declared entries))) with hp | ⟨p, hp⟩
  case inr => exact ⟨_, .overlapping hm he hp⟩
  by_cases hs : ∃ r ∈ declared entries, r.name = "stack" ∨ r.name = "c_heap"
  · exact ⟨_, .accepted hm he hp hs⟩
  · refine ⟨_, .missingStack hm he hp ?_⟩
    intro r hr
    exact not_or.mp fun h => hs ⟨r, hr, h⟩

theorem find?_eq_none_iff (name : String) (rs : List Region) :
    find? name rs = none ↔ ∀ r ∈ rs, r.name ≠ name := by
  simp [find?]

theorem stackTop?_eq_none_iff (rs : List Region) :
    stackTop? rs = none ↔ ∀ r ∈ rs, r.name ≠ "stack" ∧ r.name ≠ "c_heap" := by
  have hsplit : stackTop? rs = none ↔ find? stackName rs = none ∧ find? heapName rs = none := by
    rw [stackTop?, Option.map_eq_none_iff]
    cases find? stackName rs <;> simp
  rw [hsplit, find?_eq_none_iff, find?_eq_none_iff]
  constructor
  · exact fun h r hr => ⟨h.1 r hr, h.2 r hr⟩
  · exact fun h => ⟨fun r hr => (h r hr).1, fun r hr => (h r hr).2⟩

theorem normalize_of_known {entries : Value.Entries} {model : Value} (hm : Known model)
    (hl : ∀ entry ∈ entries, ∃ items, entry.2 = .list items)
    (he : ∀ entry ∈ entries, ¬ Offends entry) :
    (∃ m, normalize entries model = arrange m (declared entries)) ∧
      ∀ r ∈ withoutStack (declared entries), r.start ≤ r.last := by
  obtain ⟨m, hparse⟩ := parse_of_known hm
  obtain ⟨hcheck, hsound⟩ := checkEntries_of_kept hl he
  refine ⟨⟨m, by simp [normalize, hparse, hcheck]⟩, ?_⟩
  intro r hr
  exact (hsound r (List.mem_filter.mp hr).1).ordered

/-- The check ends as the verdict says, if need be with the fault of an integer too long. -/
theorem normalize_of_judged {entries : Value.Entries} {model : Value} {v : Verdict}
    (hl : ∀ entry ∈ entries, ∃ items, entry.2 = .list items) (hv : Judged entries model v) :
    match v.fault? model with
    | some (shown, f) => normalize entries model = .error (told shown f)
    | none => ∃ l, normalize entries model = .ok l := by
  cases hv with
  | unknownModel hm =>
    change normalize entries model = .error (told model _)
    simp [normalize, parse_of_not_known hm]
  | @broken entry rule hm he hr =>
    obtain ⟨m, hparse⟩ := parse_of_known hm
    change normalize entries model = .error (told entry.1 _)
    simp [normalize, hparse, checkEntries_of_first hl he hr]
  | @overlapping r s hm he hp =>
    obtain ⟨⟨m, hn⟩, ho⟩ := normalize_of_known hm hl he
    change normalize entries model = .error (told (.text r.name) _)
    rw [hn, arrange, firstOverlap?_of_first ho hp, told_text]
  | missingStack hm he hp hs =>
    obtain ⟨⟨m, hn⟩, ho⟩ := normalize_of_known hm hl he
    change normalize entries model = .error .missingStack
    rw [hn, arrange, firstOverlap?_of_apart ho hp, (stackTop?_eq_none_iff _).mpr hs]
  | accepted hm he hp hs =>
    obtain ⟨⟨m, hn⟩, ho⟩ := normalize_of_known hm hl he
    change ∃ l, normalize entries model = .ok l
    cases htop : stackTop? (declared entries) with
    | none =>
      obtain ⟨r, hr, h⟩ := hs
      exact absurd h (not_or.mpr ((stackTop?_eq_none_iff _).mp htop r hr))
    | some top =>
      exact ⟨place m (declared entries) top,
        by rw [hn, arrange, firstOverlap?_of_apart ho hp, htop]⟩

theorem Verdict.fault?_ne_overlong {model shown : Value} {v : Verdict} {f : Fault}
    (h : v.fault? model = some (shown, f)) : f ≠ .system .overlongInteger := by
  cases v with
  | broken rule name =>
    cases h
    cases rule <;> simp [Rule.fault]
  | unknownModel | overlapping | missingStack =>
    cases h
    simp
  | accepted => cases h

/-- Every map of lists and model have one verdict. The check ends as it says exactly when its
message can be written, and else with the fault of the integer that is too long. -/
theorem normalize_verdict (entries : Value.Entries) (model : Value)
    (hl : ∀ entry ∈ entries, ∃ items, entry.2 = .list items) :
    (∃! v, Judged entries model v) ∧
      ∀ v, Judged entries model v →
        (v.Realised model (normalize entries model) ↔ v.Writable model) ∧
        (¬ v.Writable model → normalize entries model = .error (.system .overlongInteger)) := by
  constructor
  · obtain ⟨v, hv⟩ := Judged.exists entries model
    exact ⟨v, hv, fun w hw => hw.unique hv⟩
  intro v hv
  have hn := normalize_of_judged hl hv
  unfold Verdict.Realised Verdict.Writable
  cases hf : v.fault? model with
  | none =>
    rw [hf] at hn
    simp [hn]
  | some p =>
    obtain ⟨shown, f⟩ := p
    rw [hf] at hn
    have hn : normalize entries model = .error (told shown f) := hn
    have hne := Verdict.fault?_ne_overlong hf
    rw [hn, told]
    cases hlong : shown.isOverlong with
    | true => simp [hlong, hne.symm]
    | false => simp [hlong]

def twofoldMap : Value.Entries := [
  (.text "stack", .list [.int 0x0E00, .int 0x0FFF]),
  (.text "a", .list [.int 0x1000, .int 0x1FFF]),
  (.text "b", .list [.int 0x1800, .int 0x1900]),
  (.text "c", .list [.int 0x30000, .int 0x30010])]

theorem normalize_verdict_twofoldMap :
    (∀ entry ∈ twofoldMap, ∃ items, entry.2 = .list items) ∧
      normalize twofoldMap (.text "Medium") = .error (.inRomArea (.text "c")) ∧
      ∃! v, Judged twofoldMap (.text "Medium") v :=
  have hl : ∀ entry ∈ twofoldMap, ∃ items, entry.2 = .list items := by simp [twofoldMap]
  ⟨hl, rfl, (normalize_verdict twofoldMap (.text "Medium") hl).1⟩

/-- A name that is an integer is no identifier, but one of too many digits is not reported so. -/
theorem normalize_unwritable_name :
    Judged [(.int (10 ^ Value.greatestDigitCount), .list [.int 0x1000, .int 0x1FFF])]
        (.model .medium) (.broken .identifier (.int (10 ^ Value.greatestDigitCount))) ∧
      ¬ Verdict.Realised (.model .medium)
        (.broken .identifier (.int (10 ^ Value.greatestDigitCount)))
        (normalize [(.int (10 ^ Value.greatestDigitCount), .list [.int 0x1000, .int 0x1FFF])]
          (.model .medium)) := by
  have hbroken : Rule.identifier.Broken
      (.int (10 ^ Value.greatestDigitCount), .list [.int 0x1000, .int 0x1FFF]) := by
    rintro ⟨s, hs, _⟩
    cases hs
  have hlong : Value.isOverlong (.int (10 ^ Value.greatestDigitCount)) = true := by
    simp [Value.isOverlong, Value.isLongInteger, Int.natAbs_pow]
  refine ⟨.broken (.inl ⟨_, rfl⟩) (.head ⟨.identifier, hbroken⟩ _) (.head hbroken _), ?_⟩
  change ¬ normalize _ _ = .error (.invalidIdentifier _)
  simp [normalize, MemoryModel.parse, checkEntries, checkEntry, Fault.raise, Fault.shown,
    Fault.shownValues, hlong]

end FirmwareKit.Memory
