import FirmwareKit.Proofs.Config.Conversion
import FirmwareKit.Proofs.Memory.Verdict
set_option autoImplicit false

namespace FirmwareKit

namespace Memory
open Schema Fault

/-- The faults of a layout whose names can be written are no faults of writing. -/
theorem normalize_kind {entries : Value.Entries} {s : String}
    (hl : ∀ entry ∈ entries, ∃ items, entry.2 = .list items)
    (hshort : ∀ entry ∈ entries, entry.1.isOverlong = false) {f : Fault}
    (h : normalize entries (.text s) = .error f) : f.kind ≠ overlongKind := by
  obtain ⟨v, hv⟩ := Judged.exists entries (.text s)
  have hnormalize := normalize_of_judged hl hv
  cases hv with
  | unknownModel =>
    obtain rfl := Except.error.inj (h.symm.trans hnormalize)
    rw [told_text]
    rintro ⟨⟩
  | @broken entry rule _ he =>
    obtain rfl := Except.error.inj (h.symm.trans hnormalize)
    rw [told, hshort entry he.mem, if_neg Bool.false_ne_true]
    cases rule <;> rintro ⟨⟩
  | overlapping =>
    obtain rfl := Except.error.inj (h.symm.trans hnormalize)
    rw [told_text]
    rintro ⟨⟩
  | missingStack =>
    obtain rfl := Except.error.inj (h.symm.trans hnormalize)
    rintro ⟨⟩
  | accepted =>
    obtain ⟨l, hl⟩ := hnormalize
    rw [hl] at h
    cases h

end Memory

namespace LinkConfig
open Schema Fault

def withBound (rom : Value.Entries) (name : String) (given : Option Int) : Value.Entries :=
  given.elim rom fun n => rom.insert (.text name) (.int n)

def romWith (rom : Value.Entries) (romStart romLength : Option Int) : Value.Entries :=
  withBound (withBound rom "start" romStart) "length" romLength

def withRomBounds (es : Value.Entries) (romStart romLength : Option Int) : Value.Entries :=
  match es.getText? "rom" with
  | some (.map rom) => es.insert (.text "rom") (.map (romWith rom romStart romLength))
  | _ => es

/-! A mapping with a bound -/

section Bound
variable {rom : Value.Entries} {name : String}

theorem getText?_withBound_self {old : Value} (h : rom.getText? name = some old)
    (given : Option Int) :
    (withBound rom name given).getText? name = some (given.elim old Value.int) := by
  cases given with
  | none => exact h
  | some n => exact Value.Entries.getText?_insert_self rom name _

theorem getText?_withBound_of_ne {other : String} (h : other ≠ name) (given : Option Int) :
    (withBound rom name given).getText? other = rom.getText? other := by
  cases given with
  | none => rfl
  | some n => exact Value.Entries.getText?_insert_of_ne rom h _

theorem keys_withBound {old : Value} (h : rom.getText? name = some old) (given : Option Int) :
    (withBound rom name given).map Prod.fst = rom.map Prod.fst := by
  cases given with
  | none => rfl
  | some n => exact Value.Entries.keys_insert h _

theorem isProper_withBound (hproper : (Value.map rom).isProper = true) {old : Value}
    (h : rom.getText? name = some old) (given : Option Int) :
    (Value.map (withBound rom name given)).isProper = true := by
  cases given with
  | none => exact hproper
  | some n => exact Value.isProper_insert hproper h rfl

end Bound

/-! Parts with other bounds -/

namespace Parts

def withRomBounds (p : Parts) (romStart romLength : Option Int) : Parts :=
  { p with
    romStart := romStart.elim p.romStart Value.int
    romLength := romLength.elim p.romLength Value.int }

variable {p : Parts} {es : Value.Entries}

theorem fit_withRomBounds (h : p.Fit) (romStart romLength : Option Int) :
    (p.withRomBounds romStart romLength).Fit := by
  have hbound {v : Value} (hv : isNumber v = true) (given : Option Int) :
      isNumber (given.elim v Value.int) = true := by
    cases given with
    | none => exact hv
    | some => rfl
  exact { h with
    romStart := hbound h.romStart romStart
    romLength := hbound h.romLength romLength }

theorem withRomBounds_eq {rom : Value.Entries} (hrom : es.getText? "rom" = some (.map rom))
    (romStart romLength : Option Int) :
    LinkConfig.withRomBounds es romStart romLength =
      es.insert (.text "rom") (.map (romWith rom romStart romLength)) := by
  rw [LinkConfig.withRomBounds, hrom]

theorem getText?_withRomBounds (h : p.In es) {name : String} (hne : name ≠ "rom")
    (romStart romLength : Option Int) :
    (LinkConfig.withRomBounds es romStart romLength).getText? name = es.getText? name := by
  obtain ⟨rom, hrom, _⟩ := h.rom
  rw [withRomBounds_eq hrom]
  exact Value.Entries.getText?_insert_of_ne es hne _

theorem in_withRomBounds (h : p.In es) (romStart romLength : Option Int) :
    (p.withRomBounds romStart romLength).In (LinkConfig.withRomBounds es romStart romLength) := by
  obtain ⟨memory, hmemory, hmodel, hlayout⟩ := h.memory
  obtain ⟨rom, hrom, hstart, hlength⟩ := h.rom
  have hstart' : (withBound rom "start" romStart).getText? "length" = some p.romLength :=
    (getText?_withBound_of_ne (by decide) romStart).trans hlength
  exact {
    memory := ⟨memory, (getText?_withRomBounds h (by decide) ..).trans hmemory, hmodel, hlayout⟩
    rom := by
      refine ⟨romWith rom romStart romLength, ?_, ?_, ?_⟩
      · rw [withRomBounds_eq hrom]
        exact Value.Entries.getText?_insert_self es "rom" _
      · exact (getText?_withBound_of_ne (by decide) romLength).trans
          (getText?_withBound_self hstart romStart)
      · exact getText?_withBound_self hstart' romLength
    constants := (getText?_withRomBounds h (by decide) ..).trans h.constants }

theorem isProper_withRomBounds (hproper : (Value.map es).isProper = true) (h : p.In es)
    (romStart romLength : Option Int) :
    (Value.map (LinkConfig.withRomBounds es romStart romLength)).isProper = true := by
  obtain ⟨rom, hrom, hstart, hlength⟩ := h.rom
  have hproperRom := Value.proper_getText? hproper hrom
  have hlength' : (withBound rom "start" romStart).getText? "length" = some p.romLength :=
    (getText?_withBound_of_ne (by decide) romStart).trans hlength
  rw [withRomBounds_eq hrom]
  exact Value.isProper_insert hproper hrom
    (isProper_withBound (isProper_withBound hproperRom hstart romStart) hlength' romLength)

theorem namesOverlong_withRomBounds (h : p.In es) (romStart romLength : Option Int) :
    namesOverlong (LinkConfig.withRomBounds es romStart romLength) = namesOverlong es := by
  obtain ⟨rom, hrom, hstart, hlength⟩ := h.rom
  have hlength' : (withBound rom "start" romStart).getText? "length" = some p.romLength :=
    (getText?_withBound_of_ne (by decide) romStart).trans hlength
  have hkeys : (romWith rom romStart romLength).map Prod.fst = rom.map Prod.fst :=
    (keys_withBound hlength' romLength).trans (keys_withBound hstart romStart)
  have hmemory : ("memory" : String) ≠ "rom" := by decide
  rw [withRomBounds_eq hrom, namesOverlong, namesOverlong, hrom,
    Value.Entries.getText?_insert_self, Value.Entries.getText?_insert_of_ne es hmemory,
    Value.any_key_of_keys (Value.Entries.keys_insert hrom _) Value.isOverlong]
  change (_ || (romWith rom romStart romLength).any _) = (_ || rom.any _)
  rw [Value.any_key_of_keys hkeys Value.isOverlong]

theorem converted_withRomBounds (p : Parts) (overlong : Bool) (literal? : Option Value)
    (romStart romLength : Option Int) :
    (p.withRomBounds romStart romLength).converted overlong literal? none none =
      p.converted overlong literal? romStart romLength := by
  have hbound (v : Value) (given : Option Int) :
      (given.elim v Value.int).toInt none = given.elim (v.toInt none) .ok := by
    cases given <;> rfl
  rw [converted, converted]
  simp only [withRomBounds, Option.elim_none, hbound]

def SeeksDefault (p : Parts) (romStart romLength : Option Int) : Prop :=
  ∃ raw, layoutEntries p.layout = .ok raw ∧
    (p.model? = none ∨ ∃ s layout start length, p.model? = some s ∧
      Memory.normalize raw (.text s) = .ok layout ∧
      romStart.elim (p.romStart.toInt none) .ok = .ok start ∧
      romLength.elim (p.romLength.toInt none) .ok = .ok length ∧ p.constants? = none)

variable {romStart romLength : Option Int}

theorem converted_of_not_seeksDefault (h : ¬ p.SeeksDefault romStart romLength)
    (overlong overlong' : Bool) (literal? : Option Value) :
    p.converted overlong literal? romStart romLength =
      p.converted overlong' literal? romStart romLength := by
  rw [converted, converted]
  cases hraw : layoutEntries p.layout with
  | error f => rfl
  | ok raw =>
    cases hmodel : p.model? with
    | none => exact absurd ⟨raw, hraw, .inl hmodel⟩ h
    | some s =>
      simp only [Outcome.ok_bind, Option.elim_some]
      cases hlayout : Memory.normalize raw (.text s) with
      | error f => rfl
      | ok layout =>
        cases hstart : romStart.elim (p.romStart.toInt none) .ok with
        | error f => rfl
        | ok start =>
          cases hlength : romLength.elim (p.romLength.toInt none) .ok with
          | error f => rfl
          | ok length =>
            cases hconstants : p.constants? with
            | none =>
              exact absurd ⟨raw, hraw, .inr ⟨s, layout, start, length, hmodel, hlayout, hstart,
                hlength, hconstants⟩⟩ h
            | some es => rfl

theorem converted_of_seeksDefault (h : p.SeeksDefault romStart romLength)
    (literal? : Option Value) :
    p.converted true literal? romStart romLength = .error (.system .overlongInteger) := by
  obtain ⟨raw, hraw, hmodel | ⟨s, layout, start, length, hmodel, hlayout, hstart, hlength,
    hconstants⟩⟩ := h
  · rw [converted, hraw, hmodel]
    simp only [Outcome.ok_bind, Option.elim_none, standIn, if_true, Outcome.error_bind]
  · rw [converted, hraw, hmodel, hstart, hlength, hconstants]
    simp only [Outcome.ok_bind, Option.elim_some, hlayout, Option.elim_none, standIn, if_true,
      Outcome.error_bind]

/-- A layout keeps its names, and its entries become lists. -/
theorem mem_of_layoutEntries (hfit : p.Fit) {raw : Value.Entries}
    (h : layoutEntries p.layout = .ok raw) {e : Value × Value} (he : e ∈ raw) :
    (∃ items, e.2 = .list items) ∧ ∃ d ∈ p.layout, e.1 = d.1 := by
  obtain ⟨d, hd, hconvert⟩ := Outcome.exists_of_mem_mapM h he
  obtain ⟨b, hb, hentry⟩ := (Outcome.bind_eq_ok_iff _ _ _).mp hconvert
  obtain ⟨xs, _, hbounds, _⟩ := items_of_isBounds (hfit.bounds d hd)
  obtain ⟨ns, _, hlist⟩ := (Outcome.bind_eq_ok_iff _ _ _).mp (hbounds ▸ hb)
  obtain rfl := Except.ok.inj hlist
  obtain rfl := Except.ok.inj hentry
  exact ⟨⟨_, rfl⟩, d, hd, rfl⟩

theorem layout_short (h : p.In es) (hshort : (Value.map es).isOverlong = false) :
    ∀ e ∈ p.layout, e.1.isOverlong = false := by
  intro e he
  have inside {ds : Value.Entries} (hds : (Value.map ds).isOverlong = false) {d : Value × Value}
      (hd : d ∈ ds) : d.1.isOverlong = false ∧ d.2.isOverlong = false := by
    have hnot := mt (Value.isOverlong_map_iff ds).mpr (by rw [hds]; exact Bool.false_ne_true)
    exact ⟨Bool.eq_false_iff.mpr fun hkey => hnot ⟨d, hd, .inl hkey⟩,
      Bool.eq_false_iff.mpr fun hvalue => hnot ⟨d, hd, .inr hvalue⟩⟩
  obtain ⟨memory, hmemory, _, hlayout⟩ := h.memory
  have hmemory := (inside hshort (Value.Entries.mem_of_getText? hmemory)).2
  have hlayout := (inside hmemory (Value.Entries.mem_of_getText? hlayout)).2
  exact (inside hlayout he).1

/-- Where everything can be written, no conversion fails for an integer that is too long. -/
theorem converted_kind (hfit : p.Fit) (hshort : ∀ e ∈ p.layout, e.1.isOverlong = false)
    {literal? : Option Value} {f : Fault}
    (hf : p.converted false literal? romStart romLength = .error f) : f.kind ≠ overlongKind := by
  cases refused_of_converted hfit hf with
  | normalized hraw _ hf =>
    refine Memory.normalize_kind (fun e he => (mem_of_layoutEntries hfit hraw he).1)
      (fun e he => ?_) hf
    obtain ⟨d, hd, hkey⟩ := (mem_of_layoutEntries hfit hraw he).2
    exact hkey ▸ hshort d hd
  | float | literal => rintro ⟨⟩
  | overlong hlong => cases hlong

/-- What is too long decides how a conversion ends that gets to a part that is not there. -/
theorem converted_ne (hfit : p.Fit) (hshort : ∀ e ∈ p.layout, e.1.isOverlong = false)
    (hseeks : p.SeeksDefault romStart romLength) (literal? : Option Value) :
    (p.converted false literal? romStart romLength).mapError kind ≠
      (p.converted true literal? romStart romLength).mapError kind := by
  rw [converted_of_seeksDefault hseeks]
  cases hf : p.converted false literal? romStart romLength with
  | ok l => rintro ⟨⟩
  | error f => exact fun heq => converted_kind hfit hshort hf (Except.error.inj heq)

theorem converted_eq_iff {overlong overlong' : Bool} (hfit : p.Fit)
    (hshort : overlong = false → ∀ e ∈ p.layout, e.1.isOverlong = false)
    (hshort' : overlong' = false → ∀ e ∈ p.layout, e.1.isOverlong = false)
    (literal? : Option Value) :
    (p.converted overlong literal? romStart romLength).mapError kind =
        (p.converted overlong' literal? romStart romLength).mapError kind ↔
      overlong = overlong' ∨ ¬ p.SeeksDefault romStart romLength := by
  constructor
  · intro heq
    refine or_iff_not_imp_right.mpr fun hseeks => ?_
    have hseeks := not_not.mp hseeks
    cases overlong with
    | true =>
      cases overlong' with
      | true => rfl
      | false => exact absurd heq.symm (converted_ne hfit (hshort' rfl) hseeks literal?)
    | false =>
      cases overlong' with
      | true => exact absurd heq (converted_ne hfit (hshort rfl) hseeks literal?)
      | false => rfl
  · rintro (rfl | hseeks)
    · rfl
    · rw [converted_of_not_seeksDefault hseeks overlong overlong']

end Parts

end LinkConfig

def Config.withRomBounds (c : Config) (romStart romLength : Option Int) : Config :=
  { c with entries := LinkConfig.withRomBounds c.entries romStart romLength }

namespace LinkConfig
open Schema Fault

variable {c : Config} {p : Parts}

/-- Given bounds come to the same as bounds in the configuration, but where these change whether it
holds an integer too long to be written and the conversion gets to a part that is not there. -/
theorem load_romBounds_iff (hproper : (Value.map c.entries).isProper = true)
    (haccepted : Accepted c) (hin : p.In c.entries) (romStart romLength : Option Int)
    (w : Workspace) :
    ((load c romStart romLength).outcome w =
        (load (c.withRomBounds romStart romLength) none none).outcome w ↔
      namesOverlong c.entries = true ∨
        (Value.map c.entries).isOverlong =
          (Value.map (c.withRomBounds romStart romLength).entries).isOverlong ∨
        ¬ p.SeeksDefault romStart romLength) ∧
    ((load c romStart romLength).outcome w =
        (load (c.withRomBounds romStart romLength) none none).outcome w → ∀ date,
      (load c romStart romLength >>= fun l => script l date).outcome w =
        (load (c.withRomBounds romStart romLength) none none >>= fun l =>
          script l date).outcome w) := by
  have hfit := fit_of_accepted hproper haccepted hin
  have hproper' : (Value.map (c.withRomBounds romStart romLength).entries).isProper = true :=
    Parts.isProper_withRomBounds hproper hin romStart romLength
  have hin' : (p.withRomBounds romStart romLength).In
      (c.withRomBounds romStart romLength).entries := Parts.in_withRomBounds hin romStart romLength
  have hfit' := Parts.fit_withRomBounds hfit romStart romLength
  have hliteral : (c.withRomBounds romStart romLength).entries.getText? "memory/model" =
      c.entries.getText? "memory/model" := Parts.getText?_withRomBounds hin (by decide) ..
  have hnames : namesOverlong (c.withRomBounds romStart romLength).entries =
      namesOverlong c.entries := Parts.namesOverlong_withRomBounds hin romStart romLength
  have hshort := Parts.layout_short hin
  have hshort' := Parts.layout_short hin'
  rw [load_outcome hproper, load_outcome hproper']
  refine ⟨?_, fun hsame date => by rw [script_outcome hproper, script_outcome hproper', hsame]⟩
  rw [loaded_of_parts hin hfit, loaded_of_parts hin' hfit', Parts.converted_withRomBounds, hnames,
    hliteral]
  -- Of what the two configurations hold besides their parts, only the two flags differ.
  generalize Config.given? (c.entries.getText? "memory/model") = literal?
  generalize (Value.map c.entries).isOverlong = overlong at hshort ⊢
  generalize (Value.map (c.withRomBounds romStart romLength).entries).isOverlong = overlong'
    at hshort' ⊢
  cases namesOverlong c.entries with
  | true => exact ⟨fun _ => .inl rfl, fun _ => rfl⟩
  | false =>
    refine (Parts.converted_eq_iff hfit hshort hshort' literal?).trans ⟨.inr, ?_⟩
    rintro (hnever | hsame)
    · cases hnever
    · exact hsame

/-- Zero and a negative length take the place of a float and of an integer. -/
theorem load_romBounds_iff_floatEntries :
    (Value.map floatEntries).isProper = true ∧ Accepted (Config.ofEntries "/" floatEntries) ∧
      floatParts.In floatEntries ∧
      ∃ l, (load (Config.ofEntries "/" floatEntries) (some 0) (some (-1))).outcome Workspace.bare =
          .ok l ∧
        (load ((Config.ofEntries "/" floatEntries).withRomBounds (some 0) (some (-1))) none
          none).outcome Workspace.bare = .ok l ∧
        (l.romStart, l.romLength) = (0, -1) := by
  have hproper : (Value.map floatEntries).isProper = true := by decide +kernel
  have hlong : (Value.map floatEntries).isOverlong =
      (Value.map (withRomBounds floatEntries (some 0) (some (-1)))).isOverlong := by decide +kernel
  have hloaded : ((loaded floatEntries (some 0) (some (-1))).toOption.any fun l =>
      (l.romStart, l.romLength) == (0, -1)) = true := by decide +kernel
  obtain ⟨l, hl, hbounds⟩ := Outcome.exists_of_any hloaded
  have hload : (load (Config.ofEntries "/" floatEntries) (some 0) (some (-1))).outcome
      Workspace.bare = .ok l := (load_outcome hproper _ _ Workspace.bare).trans hl
  have hsame := (load_romBounds_iff (c := Config.ofEntries "/" floatEntries) hproper
    accepted_floatEntries floatParts_in (some 0) (some (-1)) Workspace.bare).1.mpr
      (.inr (.inl hlong))
  exact ⟨hproper, accepted_floatEntries, floatParts_in, l, hload, hsame ▸ hload, eq_of_beq hbounds⟩

def overlongEntries : Value.Entries := [
  entry "memory" (.map
    [entry "layout" (.map [entry "c_heap" (.list [.int 0x10000, .int 0x10FFF])])]),
  entry "rom" (.map [entry "start" (.int (Int.ofNat (Nat.pow 10 Value.greatestDigitCount))),
    entry "length" (.int 0x10000)])]

/-- The bound that is not used keeps the default model from being found. -/
theorem load_fails_for_unused_bound :
    Accepted (Config.ofEntries "/" overlongEntries) ∧
      (load (Config.ofEntries "/" overlongEntries) (some 0x20000) none).outcome Workspace.bare =
        .error overlongKind ∧
      ∃ l, (load ((Config.ofEntries "/" overlongEntries).withRomBounds (some 0x20000) none) none
          none).outcome Workspace.bare = .ok l ∧ l.romStart = 0x20000 := by
  have hproper : (Value.map overlongEntries).isProper = true := by decide +kernel
  have hproper' : (Value.map (withRomBounds overlongEntries (some 0x20000) none)).isProper =
      true := by decide +kernel
  have hverdict : verdict overlongEntries = .ok () := by decide +kernel
  have hfails : (loaded overlongEntries (some 0x20000) none).map (fun _ => ()) =
      .error overlongKind := by decide +kernel
  have hedited : ((loaded (withRomBounds overlongEntries (some 0x20000) none) none
      none).toOption.any (·.romStart == 0x20000)) = true := by decide +kernel
  obtain ⟨l, hl, hstart⟩ := Outcome.exists_of_any hedited
  refine ⟨fun w => (check_outcome hproper w).trans hverdict, ?_, l,
    (load_outcome hproper' none none Workspace.bare).trans hl, eq_of_beq hstart⟩
  rw [load_outcome hproper]
  change loaded overlongEntries _ _ = _
  generalize loaded overlongEntries (some 0x20000) none = outcome at hfails
  cases outcome with
  | ok => cases hfails
  | error k => exact congrArg Except.error (Except.error.inj hfails)

end LinkConfig
end FirmwareKit
