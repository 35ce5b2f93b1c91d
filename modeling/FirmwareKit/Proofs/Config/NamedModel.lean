import FirmwareKit.Proofs.Config.Notation
set_option autoImplicit false

namespace FirmwareKit

/-! Names of members -/

theorem MemoryModel.parse_text_eq_ok_iff (s : String) (m : MemoryModel) :
    MemoryModel.parse (.text s) = .ok m ↔ Text.upper (Labelled.label m) = Text.upper s := by
  have hparse : MemoryModel.parse (.text s) = .ok m ↔
      (Labelled.ofLabel? s : Option MemoryModel) = some m := by
    rw [MemoryModel.parse]
    cases (Labelled.ofLabel? s : Option MemoryModel) <;> simp
  rw [hparse, Labelled.ofLabel?]
  constructor
  · intro h
    have hfound := List.find?_some h
    exact eq_of_beq hfound
  · intro h
    rw [← h]
    cases m <;> decide +kernel

/-- The labels are the names that stand for a member as they are spelled. -/
theorem MemoryModel.isLabel_iff (s : String) :
    (Labelled.labels MemoryModel).contains s = true ↔
      ∃ m : MemoryModel, MemoryModel.parse (.text s) = .ok m ∧ Labelled.label m = s := by
  rw [List.contains_iff_mem, Labelled.labels, List.mem_map]
  constructor
  · rintro ⟨m, _, rfl⟩
    exact ⟨m, (parse_text_eq_ok_iff _ m).mpr rfl, rfl⟩
  · rintro ⟨m, _, rfl⟩
    exact ⟨m, by cases m <;> decide, rfl⟩

namespace Memory

/-- A layout has the model that it was given, and no part of the rest depends on it. -/
theorem normalize_model {entries : Value.Entries} {name : String} {layout : Layout}
    (h : normalize entries (.text name) = .ok layout) {s : String} {m : MemoryModel}
    (hm : MemoryModel.parse (.text s) = .ok m) :
    normalize entries (.text s) = .ok { layout with model := m } := by
  obtain ⟨n, _, h⟩ := (Outcome.bind_eq_ok_iff _ _ _).mp h
  obtain ⟨regions, hregions, h⟩ := (Outcome.bind_eq_ok_iff _ _ _).mp h
  rw [normalize, hm, hregions]
  change arrange m regions = _
  rw [arrange] at h ⊢
  cases hoverlap : firstOverlap? (withoutStack regions) with
  | some p =>
    rw [hoverlap] at h
    cases h
  | none =>
    rw [hoverlap] at h
    cases htop : stackTop? regions with
    | none =>
      rw [htop] at h
      cases h
    | some top =>
      rw [htop] at h
      obtain rfl := Except.ok.inj h
      rfl

end Memory

namespace LinkConfig
open Schema Fault

def HasModel (es : Value.Entries) (name : String) : Prop :=
  ∃ memory : Value.Entries, es.getText? "memory" = some (.map memory) ∧
    memory.getText? "model" = some (.text name)

def withModel (es : Value.Entries) (name : String) : Value.Entries :=
  match es.getText? "memory" with
  | some (.map memory) =>
    es.insert (.text "memory")
      (.map (Value.Entries.insert memory (.text "model") (.text name)))
  | _ => es

/-! Entries with a value in the place of another one -/

theorem entrywise_insert {R : Value → Value → Value → Prop} (hrefl : ∀ key v, R key v v)
    {es : Value.Entries} {name : String} {old new : Value} (h : es.getText? name = some old)
    (hR : R (.text name) old new) : Entrywise R es (es.insert (.text name) new) := by
  induction es with
  | nil => cases h
  | cons e rest ih =>
    rw [Value.Entries.getText?, Value.Entries.get?_cons] at h
    rw [Value.Entries.insert]
    split
    case isTrue hkey =>
      rw [if_pos hkey] at h
      obtain rfl := Option.some.inj h
      have hname := (Value.sameKey_text_iff e.1 name).mp hkey
      exact .cons ⟨rfl, hname ▸ hR⟩ (Entrywise.refl hrefl rest)
    case isFalse hkey =>
      rw [if_neg hkey] at h
      exact .cons ⟨rfl, hrefl _ _⟩ (ih h)

theorem kept_insert {es : Value.Entries} {name : String} {old new : Value}
    (h : es.getText? name = some old) (hkept : Kept old new) :
    Kept (.map es) (.map (es.insert (.text name) new)) :=
  kept_map (fun _ _ _ h => h) (entrywise_insert (fun _ v => kept_self v) h hkept)

section WithModel
variable {es : Value.Entries} {m : String}

theorem HasModel.kept (h : HasModel es m) (name : String) :
    Kept (.map es) (.map (withModel es name)) := by
  obtain ⟨memory, hmemory, hmodel⟩ := h
  rw [withModel, hmemory]
  exact kept_insert hmemory (kept_insert hmodel ⟨rfl, rfl⟩)

theorem HasModel.getText?_of_ne (h : HasModel es m) (name : String) {other : String}
    (hne : other ≠ "memory") : (withModel es name).getText? other = es.getText? other := by
  obtain ⟨memory, hmemory, _⟩ := h
  rw [withModel, hmemory]
  exact Value.Entries.getText?_insert_of_ne es hne _

theorem HasModel.namesOverlong_eq (h : HasModel es m) (name : String) :
    namesOverlong (withModel es name) = namesOverlong es := by
  have hrom := h.getText?_of_ne name (show "rom" ≠ "memory" by decide)
  obtain ⟨memory, hmemory, hmodel⟩ := h
  rw [namesOverlong, namesOverlong, hrom, withModel, hmemory, Value.Entries.getText?_insert_self,
    Value.any_key_of_keys (Value.Entries.keys_insert hmemory _) Value.isOverlong]
  change (_ || (Value.Entries.insert memory _ _).any _ || _) = (_ || memory.any _ || _)
  rw [Value.any_key_of_keys (Value.Entries.keys_insert hmodel _) Value.isOverlong]

/-- Parts that are held beside some name of the model are held beside the name that is there. -/
theorem HasModel.parts (h : HasModel es m) {name : String} {p : Parts}
    (hin : p.In (withModel es name)) :
    p.model? = some name ∧ ({ p with model? := some m } : Parts).In es := by
  have hother {other : String} (hne : other ≠ "memory") := h.getText?_of_ne name hne
  obtain ⟨memory, hmemory, hmodel⟩ := h
  obtain ⟨memory', hmemory', hmodel', hlayout'⟩ := hin.memory
  rw [withModel, hmemory, Value.Entries.getText?_insert_self] at hmemory'
  obtain rfl := Value.map.inj (Option.some.inj hmemory')
  rw [Value.Entries.getText?_insert_self] at hmodel'
  rw [Value.Entries.getText?_insert_of_ne memory (by decide)] at hlayout'
  obtain ⟨rom, hrom, hbounds⟩ := hin.rom
  refine ⟨?_, ⟨⟨memory, hmemory, hmodel, hlayout'⟩, ⟨rom, ?_, hbounds⟩, ?_⟩⟩
  · obtain ⟨s, hs, hname⟩ := Option.map_eq_some_iff.mp hmodel'.symm
    rw [hs, Value.text.inj hname]
  · exact (hother (by decide)).symm.trans hrom
  · exact (hother (by decide)).symm.trans hin.constants

end WithModel

/-! How a load ends under another name -/

variable {romStart romLength : Option Int}

theorem Parts.converted_model {p : Parts} {name s : String} (hname : p.model? = some name)
    {overlong : Bool} {literal? : Option Value} {l : LinkConfig}
    (h : p.converted overlong literal? romStart romLength = .ok l) {model : MemoryModel}
    (hmodel : MemoryModel.parse (.text s) = .ok model) :
    ({ p with model? := some s } : Parts).converted overlong literal? romStart romLength =
      .ok { l with layout := { l.layout with model } } := by
  obtain ⟨raw, hraw, h⟩ := (Outcome.bind_eq_ok_iff _ _ _).mp h
  obtain ⟨text, htext, h⟩ := (Outcome.bind_eq_ok_iff _ _ _).mp h
  obtain rfl : name = text := Except.ok.inj (hname ▸ htext)
  obtain ⟨layout, hlayout, h⟩ := (Outcome.bind_eq_ok_iff _ _ _).mp h
  obtain ⟨start, hstart, h⟩ := (Outcome.bind_eq_ok_iff _ _ _).mp h
  obtain ⟨length, hlength, h⟩ := (Outcome.bind_eq_ok_iff _ _ _).mp h
  obtain ⟨es, hheld, h⟩ := (Outcome.bind_eq_ok_iff _ _ _).mp h
  obtain ⟨constants, hconstants, h⟩ := (Outcome.bind_eq_ok_iff _ _ _).mp h
  obtain rfl := Except.ok.inj h
  rw [Parts.converted, hraw, hstart, hlength, hheld]
  simp only [Outcome.ok_bind, Option.elim_some, Memory.normalize_model hlayout hmodel, hconstants]
  rfl

/-- What a load makes of entries that it accepts under some name of the memory model. -/
theorem loaded_model {es : Value.Entries} {m name : String} (hmodel : HasModel es m)
    {l : LinkConfig} (hvalid : loaded (withModel es name) romStart romLength = .ok l) :
    (∀ model, MemoryModel.parse (.text m) = .ok model → Labelled.label model = m →
      loaded es romStart romLength = .ok { l with layout := { l.layout with model } }) ∧
    ∀ l', loaded es romStart romLength = .ok l' →
      (Labelled.labels MemoryModel).contains m = true := by
  have hliteral := hmodel.getText?_of_ne name (show "memory/model" ≠ "memory" by decide)
  have hlong := (hmodel.kept name).2
  obtain ⟨_, hnames, hvalid⟩ := (Outcome.bind_eq_ok_iff _ _ _).mp hvalid
  obtain ⟨_, hverdict, hconverted⟩ := (Outcome.bind_eq_ok_iff _ _ _).mp hvalid
  obtain ⟨p, hin, hfit⟩ := (verdict_eq_ok_iff _).mp hverdict
  obtain ⟨hname, hin'⟩ := hmodel.parts hin
  rw [hmodel.namesOverlong_eq] at hnames
  constructor
  · intro model hparse hlabel
    have hisLabel := (MemoryModel.isLabel_iff m).mpr ⟨model, hparse, hlabel⟩
    have hfit' : ({ p with model? := some m } : Parts).Fit :=
      { hfit with model := fun s hs => (Option.some.inj hs) ▸ hisLabel }
    rw [Parts.converted_of_parts hin hfit, hliteral, ← hlong] at hconverted
    cases hc : p.converted (Value.map es).isOverlong
        (Config.given? (es.getText? "memory/model")) romStart romLength with
    | error f =>
      rw [hc] at hconverted
      cases hconverted
    | ok l' =>
      rw [hc] at hconverted
      obtain rfl : l' = l := Except.ok.inj hconverted
      rw [loaded_of_parts hin' hfit', hnames, Parts.converted_model hname hc hparse]
      rfl
  · intro l' hl'
    obtain ⟨_, _, hl'⟩ := (Outcome.bind_eq_ok_iff _ _ _).mp hl'
    obtain ⟨_, hverdict', _⟩ := (Outcome.bind_eq_ok_iff _ _ _).mp hl'
    obtain ⟨q, hq, hfitq⟩ := (verdict_eq_ok_iff _).mp hverdict'
    obtain rfl := hq.unique hin'
    exact hfitq.model m rfl

end LinkConfig

def Config.withModel (c : Config) (name : String) : Config :=
  { c with entries := LinkConfig.withModel c.entries name }

namespace LinkConfig

variable {c : Config} {romStart romLength : Option Int}

/-- A configuration that loads under some name of the memory model loads under its own exactly when
that is the label, as it is spelled, of the member it stands for; and then it gets that member. The
names that stand for a member without being its label are those that only the checks refuse. -/
theorem load_namedModel_iff (hproper : (Value.map c.entries).isProper = true) {m name : String}
    (hmodel : HasModel c.entries m) {l : LinkConfig} (w : Workspace)
    (hvalid : (load (c.withModel name) romStart romLength).outcome w = .ok l) :
    ((∃ l', (load c romStart romLength).outcome w = .ok l') ↔
      ∃ model, MemoryModel.parse (.text m) = .ok model ∧ Labelled.label model = m) ∧
    (∀ l', (load c romStart romLength).outcome w = .ok l' →
      MemoryModel.parse (.text m) = .ok l'.layout.model) ∧
    (((∃ l', (load c romStart romLength).outcome w = .ok l') ↔
        ∃ model, MemoryModel.parse (.text m) = .ok model) ↔
      ∀ model, MemoryModel.parse (.text m) = .ok model → Labelled.label model = m) := by
  have hproper' : (Value.map (c.withModel name).entries).isProper = true :=
    (hmodel.kept name).1.symm.trans hproper
  rw [load_outcome hproper'] at hvalid
  obtain ⟨haccepts, hlabel⟩ := loaded_model hmodel hvalid
  rw [load_outcome hproper]
  have hiff : (∃ l', loaded c.entries romStart romLength = .ok l') ↔
      ∃ model, MemoryModel.parse (.text m) = .ok model ∧ Labelled.label model = m :=
    ⟨fun ⟨l', hl'⟩ => (MemoryModel.isLabel_iff m).mp (hlabel l' hl'),
      fun ⟨model, hparse, hspelled⟩ => ⟨_, haccepts model hparse hspelled⟩⟩
  refine ⟨hiff, fun l' hl' => ?_, ?_⟩
  · obtain ⟨model, hparse, hspelled⟩ := hiff.mp ⟨l', hl'⟩
    obtain rfl := Except.ok.inj ((haccepts model hparse hspelled).symm.trans hl')
    exact hparse
  · rw [hiff]
    constructor
    · intro h model hparse
      obtain ⟨model', hparse', hspelled⟩ := h.mpr ⟨model, hparse⟩
      obtain rfl := Except.ok.inj (hparse'.symm.trans hparse)
      exact hspelled
    · exact fun h => ⟨fun ⟨model, hparse, _⟩ => ⟨model, hparse⟩,
        fun ⟨model, hparse⟩ => ⟨model, hparse, h model hparse⟩⟩

def modelEntries (name : String) : Value.Entries := [
  entry "memory" (.map [entry "model" (.text name),
    entry "layout" (.map [entry "c_heap" (.list [.int 0x10000, .int 0x10FFF])])]),
  entry "rom" (.map [entry "start" (.int 0x20000), entry "length" (.int 0x10000)])]

/-- A far model, seen from a configuration that is known to load with a near one. -/
theorem load_namedModel_iff_large :
    (Value.map (modelEntries "large")).isProper = true ∧ HasModel (modelEntries "large") "large" ∧
      (∃ l, (load ((Config.ofEntries "/" (modelEntries "large")).withModel "small") none
        none).outcome Workspace.bare = .ok l) ∧
      ∃ l, (load (Config.ofEntries "/" (modelEntries "large")) none none).outcome Workspace.bare =
        .ok l ∧ l.layout.model = .large := by
  have hproper : (Value.map (modelEntries "large")).isProper = true := by decide +kernel
  have hproper' : (Value.map (withModel (modelEntries "large") "small")).isProper = true := by
    decide +kernel
  have hmodel : HasModel (modelEntries "large") "large" := ⟨_, rfl, rfl⟩
  have hloaded : ((loaded (withModel (modelEntries "large") "small") none
      none).toOption.any fun _ => true) = true := by decide +kernel
  obtain ⟨l, hl, _⟩ := Outcome.exists_of_any hloaded
  have hvalid : (load ((Config.ofEntries "/" (modelEntries "large")).withModel "small") none
      none).outcome Workspace.bare = .ok l :=
    (load_outcome hproper' none none Workspace.bare).trans hl
  have hparse : MemoryModel.parse (.text "large") = .ok .large :=
    (MemoryModel.parse_text_eq_ok_iff _ _).mpr rfl
  obtain ⟨hiff, hcarries, _⟩ := load_namedModel_iff (c := Config.ofEntries "/"
    (modelEntries "large")) hproper hmodel Workspace.bare hvalid
  obtain ⟨l', hl'⟩ := hiff.mpr ⟨.large, hparse, rfl⟩
  exact ⟨hproper, hmodel, ⟨l, hvalid⟩, l', hl',
    Except.ok.inj ((hcarries l' hl').symm.trans hparse)⟩

/-- A label with a capital stands for its member, but no configuration may name it. -/
theorem load_refuses_capital_model :
    MemoryModel.parse (.text "Small") = .ok .small ∧
      (∃ l, (load ((Config.ofEntries "/" (modelEntries "Small")).withModel "small") none
        none).outcome Workspace.bare = .ok l) ∧
      (load (Config.ofEntries "/" (modelEntries "Small")) none none).outcome Workspace.bare =
        .error .general := by
  have hparse : MemoryModel.parse (.text "Small") = .ok .small :=
    (MemoryModel.parse_text_eq_ok_iff _ _).mpr (by decide +kernel)
  have hproper : (Value.map (modelEntries "Small")).isProper = true := by decide +kernel
  have hproper' : (Value.map (withModel (modelEntries "Small") "small")).isProper = true := by
    decide +kernel
  have hloaded : ((loaded (withModel (modelEntries "Small") "small") none
      none).toOption.any fun _ => true) = true := by decide +kernel
  obtain ⟨l, hl, _⟩ := Outcome.exists_of_any hloaded
  have hrefused : (loaded (modelEntries "Small") none none).map (fun _ => ()) =
      .error .general := by decide +kernel
  refine ⟨hparse, ⟨l, (load_outcome hproper' none none Workspace.bare).trans hl⟩, ?_⟩
  rw [load_outcome hproper]
  change loaded (modelEntries "Small") none none = _
  generalize loaded (modelEntries "Small") none none = outcome at hrefused
  cases outcome with
  | ok => cases hrefused
  | error k => exact congrArg Except.error (Except.error.inj hrefused)

end LinkConfig
end FirmwareKit
