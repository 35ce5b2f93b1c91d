import FirmwareKit.Proofs.Config.Outcome
set_option autoImplicit false

namespace FirmwareKit.LinkConfig
open Schema Fault

structure Parts where
  model? : Option String
  layout : Value.Entries
  romStart : Value
  romLength : Value
  constants? : Option Value.Entries

namespace Parts

structure In (p : Parts) (es : Value.Entries) : Prop where
  memory : ∃ memory : Value.Entries, es.getText? "memory" = some (.map memory) ∧
    memory.getText? "model" = p.model?.map Value.text ∧
    memory.getText? "layout" = some (.map p.layout)
  rom : ∃ rom : Value.Entries, es.getText? "rom" = some (.map rom) ∧
    rom.getText? "start" = some p.romStart ∧ rom.getText? "length" = some p.romLength
  constants : es.getText? "constants" = p.constants?.map Value.map

structure Fit (p : Parts) : Prop where
  model : ∀ s, p.model? = some s → isModel (.text s) = true
  declares : p.layout ≠ []
  bounds : ∀ e ∈ p.layout, isBounds e.2 = true
  romStart : isNumber p.romStart = true
  romLength : isNumber p.romLength = true
  constants : ∀ es, p.constants? = some es → ∀ e ∈ es, isNumber e.2 = true

end Parts

theorem Parts.In.unique {p q : Parts} {es : Value.Entries} (hp : p.In es) (hq : q.In es) :
    p = q := by
  have option_map_inj {α β : Type} {f : α → β} (hf : ∀ a b, f a = f b → a = b) {a? b? : Option α}
      (h : a?.map f = b?.map f) : a? = b? := Option.map_injective (fun a b => hf a b) h
  obtain ⟨memory, hmemory, hmodel, hlayout⟩ := hp.memory
  obtain ⟨memory', hmemory', hmodel', hlayout'⟩ := hq.memory
  obtain rfl := Value.map.inj (Option.some.inj (hmemory.symm.trans hmemory'))
  obtain ⟨rom, hrom, hstart, hlength⟩ := hp.rom
  obtain ⟨rom', hrom', hstart', hlength'⟩ := hq.rom
  obtain rfl := Value.map.inj (Option.some.inj (hrom.symm.trans hrom'))
  obtain ⟨model?, layout, start, length, constants?⟩ := p
  obtain ⟨model?', layout', start', length', constants?'⟩ := q
  obtain rfl := option_map_inj (fun _ _ => Value.text.inj) (hmodel.symm.trans hmodel')
  obtain rfl := Value.map.inj (Option.some.inj (hlayout.symm.trans hlayout'))
  obtain rfl := Option.some.inj (hstart.symm.trans hstart')
  obtain rfl := Option.some.inj (hlength.symm.trans hlength')
  obtain rfl := option_map_inj (fun _ _ => Value.map.inj) (hp.constants.symm.trans hq.constants)
  rfl

/-! What passes the checks has parts that fit -/

theorem demand_eq_ok_iff (overlong holds : Bool) :
    demand overlong holds = .ok () ↔ holds = true := by
  cases holds <;> simp [demand]

theorem bind_unit_eq_ok_iff (v u : Verdict) :
    (v >>= fun _ => u) = .ok () ↔ v = .ok () ∧ u = .ok () := by
  cases v <;> simp

theorem onMapping_eq_ok_iff (v : Value) (verdict : Value.Entries → Verdict) :
    onMapping v verdict = .ok () ↔ ∃ es, v = .map es ∧ verdict es = .ok () := by
  cases v <;> simp [onMapping]

theorem onEntry_eq_ok_iff (v? : Option Value) (verdict : Value → Verdict) :
    onEntry v? verdict = .ok () ↔ ∀ v, v? = some v → verdict v = .ok () := by
  cases v? <;> simp [onEntry]

theorem onValues_eq_ok_iff (es : Value.Entries) (holds : Value → Bool) :
    onValues es holds = .ok () ↔ ∀ e ∈ es, holds e.2 = true := by
  induction es with
  | nil => exact ⟨fun _ => by simp, fun _ => rfl⟩
  | cons e rest ih =>
    change (demand e.1.isOverlong (holds e.2) >>= fun _ => onValues rest holds) = .ok () ↔ _
    rw [bind_unit_eq_ok_iff, demand_eq_ok_iff, ih, List.forall_mem_cons]

theorem layoutVerdict_eq_ok_iff (v : Value) :
    layoutVerdict v = .ok () ↔
      ∃ es : Value.Entries, v = .map es ∧ es ≠ [] ∧ ∀ e ∈ es, isBounds e.2 = true := by
  simp only [layoutVerdict, onMapping_eq_ok_iff, bind_unit_eq_ok_iff, demand_eq_ok_iff,
    onValues_eq_ok_iff, Bool.not_eq_true', List.isEmpty_eq_false_iff]

theorem constantsVerdict_eq_ok_iff (v : Value) :
    constantsVerdict v = .ok () ↔
      ∃ es : Value.Entries, v = .map es ∧ ∀ e ∈ es, isNumber e.2 = true := by
  simp only [constantsVerdict, onMapping_eq_ok_iff, onValues_eq_ok_iff]

theorem memoryVerdict_eq_ok_iff (v : Value) :
    memoryVerdict v = .ok () ↔ ∃ es layout : Value.Entries, v = .map es ∧
      es.getText? "layout" = some (.map layout) ∧ layout ≠ [] ∧
      (∀ e ∈ layout, isBounds e.2 = true) ∧
      ∀ m, es.getText? "model" = some m → isModel m = true := by
  simp only [memoryVerdict, onMapping_eq_ok_iff, bind_unit_eq_ok_iff, onEntry_eq_ok_iff,
    demand_eq_ok_iff, layoutVerdict_eq_ok_iff]
  constructor
  · rintro ⟨es, rfl, hthere, hmodel, hlayout⟩
    obtain ⟨v, hv⟩ := Option.isSome_iff_exists.mp hthere
    obtain ⟨layout, rfl, hdeclares, hbounds⟩ := hlayout v hv
    exact ⟨es, layout, rfl, hv, hdeclares, hbounds, hmodel⟩
  · rintro ⟨es, layout, rfl, hv, hdeclares, hbounds, hmodel⟩
    refine ⟨es, rfl, Option.isSome_iff_exists.mpr ⟨_, hv⟩, hmodel, fun w hw => ?_⟩
    obtain rfl := Option.some.inj (hv.symm.trans hw)
    exact ⟨layout, rfl, hdeclares, hbounds⟩

theorem romVerdict_eq_ok_iff (v : Value) :
    romVerdict v = .ok () ↔ ∃ (es : Value.Entries) (start length : Value), v = .map es ∧
      es.getText? "start" = some start ∧ es.getText? "length" = some length ∧
      isNumber start = true ∧ isNumber length = true := by
  simp only [romVerdict, onMapping_eq_ok_iff, bind_unit_eq_ok_iff, onEntry_eq_ok_iff,
    demand_eq_ok_iff, Bool.and_eq_true_iff]
  constructor
  · rintro ⟨es, rfl, ⟨hstart, hlength⟩, hs, hl⟩
    obtain ⟨start, hstart⟩ := Option.isSome_iff_exists.mp hstart
    obtain ⟨length, hlength⟩ := Option.isSome_iff_exists.mp hlength
    exact ⟨es, start, length, rfl, hstart, hlength, hs start hstart, hl length hlength⟩
  · rintro ⟨es, start, length, rfl, hstart, hlength, hs, hl⟩
    refine ⟨es, rfl, ⟨Option.isSome_iff_exists.mpr ⟨_, hstart⟩,
      Option.isSome_iff_exists.mpr ⟨_, hlength⟩⟩, fun w hw => ?_, fun w hw => ?_⟩
    · obtain rfl := Option.some.inj (hstart.symm.trans hw)
      exact hs
    · obtain rfl := Option.some.inj (hlength.symm.trans hw)
      exact hl

theorem onTopEntry_eq_ok_iff {verdict : Value → Verdict} (hnull : verdict .null ≠ .ok ())
    (es : Value.Entries) (name : String) :
    onTopEntry es name verdict = .ok () ↔
      ∀ v, es.getText? name = some v → verdict v = .ok () := by
  rw [onTopEntry, onEntry_eq_ok_iff]
  refine forall₂_congr fun v _ => ?_
  cases v with
  | null => exact iff_of_false (by rintro ⟨⟩) hnull
  | bool | int | float | text | bytes | buffer | list | tuple | map | set | moment | model | bank
  | fileRef | dataRef | path => rfl

theorem text_of_isModel {v : Value} (h : isModel v = true) : ∃ s, v = .text s := by
  cases v with
  | text s => exact ⟨s, rfl⟩
  | null | bool | int | float | bytes | buffer | list | tuple | map | set | moment | model | bank
  | fileRef | dataRef | path => cases h

/-- The checks accept exactly the entries that hold parts that fit. -/
theorem verdict_eq_ok_iff (es : Value.Entries) :
    verdict es = .ok () ↔ ∃ p : Parts, p.In es ∧ p.Fit := by
  have hmemory : memoryVerdict .null ≠ .ok () := by rintro ⟨⟩
  have hrom : romVerdict .null ≠ .ok () := by rintro ⟨⟩
  have hconstants : constantsVerdict .null ≠ .ok () := by rintro ⟨⟩
  simp only [verdict, bind_unit_eq_ok_iff, demand_eq_ok_iff, onTopEntry_eq_ok_iff hmemory,
    onTopEntry_eq_ok_iff hrom, onTopEntry_eq_ok_iff hconstants, Bool.and_eq_true_iff,
    memoryVerdict_eq_ok_iff, romVerdict_eq_ok_iff, constantsVerdict_eq_ok_iff]
  constructor
  · rintro ⟨⟨hmemory, hrom⟩, hm, hr, hc⟩
    obtain ⟨v, hmemory⟩ := Option.isSome_iff_exists.mp hmemory
    obtain ⟨w, hrom⟩ := Option.isSome_iff_exists.mp hrom
    obtain ⟨memory, layout, rfl, hlayout, hdeclares, hbounds, hmodel⟩ := hm v hmemory
    obtain ⟨rom, start, length, rfl, hstart, hlength, hs, hl⟩ := hr w hrom
    have hnamed : ∃ model? : Option String, memory.getText? "model" = model?.map Value.text := by
      cases hv : memory.getText? "model" with
      | none => exact ⟨none, rfl⟩
      | some m =>
        obtain ⟨s, rfl⟩ := text_of_isModel (hmodel m hv)
        exact ⟨some s, rfl⟩
    have hgiven : ∃ constants? : Option Value.Entries,
        es.getText? "constants" = constants?.map Value.map := by
      cases hv : es.getText? "constants" with
      | none => exact ⟨none, rfl⟩
      | some v =>
        obtain ⟨constants, rfl, _⟩ := hc v hv
        exact ⟨some constants, rfl⟩
    obtain ⟨model?, hmodel?⟩ := hnamed
    obtain ⟨constants?, hconstants?⟩ := hgiven
    refine ⟨⟨model?, layout, start, length, constants?⟩,
      ⟨⟨memory, hmemory, hmodel?, hlayout⟩, ⟨rom, hrom, hstart, hlength⟩, hconstants?⟩,
      ⟨fun s hs => ?_, hdeclares, hbounds, hs, hl, fun constants hgiven => ?_⟩⟩
    · obtain rfl : model? = some s := hs
      exact hmodel _ hmodel?
    · obtain rfl : constants? = some constants := hgiven
      obtain ⟨held, heq, hnumbers⟩ := hc _ hconstants?
      obtain rfl := Value.map.inj heq
      exact hnumbers
  · rintro ⟨⟨model?, layout, start, length, constants?⟩, hin, hfit⟩
    obtain ⟨memory, hmemory, hmodel, hlayout⟩ := hin.memory
    obtain ⟨rom, hrom, hstart, hlength⟩ := hin.rom
    refine ⟨⟨Option.isSome_iff_exists.mpr ⟨_, hmemory⟩, Option.isSome_iff_exists.mpr ⟨_, hrom⟩⟩,
      fun v hv => ?_, fun v hv => ?_, fun v hv => ?_⟩
    · obtain rfl := Option.some.inj (hmemory.symm.trans hv)
      refine ⟨memory, layout, rfl, hlayout, hfit.declares, hfit.bounds, fun m hm => ?_⟩
      obtain ⟨s, hs, rfl⟩ := Option.map_eq_some_iff.mp (hmodel.symm.trans hm)
      exact hfit.model s hs
    · obtain rfl := Option.some.inj (hrom.symm.trans hv)
      exact ⟨rom, start, length, rfl, hstart, hlength, hfit.romStart, hfit.romLength⟩
    · obtain ⟨constants, hc, rfl⟩ := Option.map_eq_some_iff.mp (hin.constants.symm.trans hv)
      exact ⟨constants, rfl, hfit.constants constants hc⟩

/-! What the conversion reads -/

theorem toInt_of_toInt? {v : Value} {n : Int} (h : v.toInt? = some n) : v.toInt none = .ok n := by
  simp only [Value.toInt, h]

/-- What stands in for a part that is not there; the fault of its absence must have a text. -/
def standIn {α : Type} (overlong : Bool) (e : Except Fault α) : Except Fault α :=
  if overlong then .error (.system .overlongInteger) else e

/-- The model where none is named: the top-level entry named like its path, or the default. -/
def unnamedModel : Option Value → Except Fault String
  | none => .ok (Labelled.label Memory.defaultModel)
  | some (.text s) => .ok s
  | some _ => .error (.notTextAt (.text "memory/model"))

namespace Parts

/-- The conversion of the parts of a configuration, which may be `overlong` in another place and
have an entry that is named like the path of the model. -/
def converted (p : Parts) (overlong : Bool) (literal? : Option Value)
    (romStart romLength : Option Int) : Except Fault LinkConfig := do
  let raw ← layoutEntries p.layout
  let model ← p.model?.elim (standIn overlong (unnamedModel literal?)) .ok
  let layout ← Memory.normalize raw (.text model)
  let romStart ← romStart.elim (p.romStart.toInt none) .ok
  let romLength ← romLength.elim (p.romLength.toInt none) .ok
  let constants ← p.constants?.elim (standIn overlong (.ok [])) .ok
  let constants ← constantsOf constants
  pure ⟨layout, romStart, romLength, constants⟩

variable {p : Parts} {es : Value.Entries}

theorem keyPath_layout :
    Config.keyPath (.text "memory/layout") = [.text "memory", .text "layout"] := rfl

theorem keyPath_model :
    Config.keyPath (.text "memory/model") = [.text "memory", .text "model"] := rfl

theorem keyPath_constants : Config.keyPath (.text "constants") = [.text "constants"] := rfl

theorem getDictionary_layout (hin : p.In es) (default : Value) :
    Config.getDictionary es (.text "memory/layout") default = .ok p.layout := by
  obtain ⟨memory, hmemory, _, hlayout⟩ := hin.memory
  rw [Config.getDictionary, Config.get_path keyPath_layout hmemory, hlayout]
  rfl

theorem getText_model (hin : p.In es) :
    Config.getText es (.text "memory/model") (.text (Labelled.label Memory.defaultModel)) =
      p.model?.elim (standIn (Value.map es).isOverlong
        (unnamedModel (Config.given? (es.getText? "memory/model")))) .ok := by
  obtain ⟨memory, hmemory, hmodel, _⟩ := hin.memory
  rw [Config.getText, Config.get_path keyPath_model hmemory, hmodel]
  cases p.model? with
  | some s => rfl
  | none =>
    change ((if (Value.map es).isOverlong = true then _ else _) >>= _ : Except Fault String) =
      if (Value.map es).isOverlong = true then _ else _
    split
    · simp only [Outcome.error_bind]
    · generalize Config.given? (es.getText? "memory/model") = literal?
      cases literal? with
      | none => rfl
      | some v => cases v <;> rfl

theorem ne_null_of_isNumber {v : Value} (h : isNumber v = true) : v ≠ .null := by
  rintro rfl
  cases h

theorem getInteger_number {key outer part : String} {inner : Value.Entries} {v : Value}
    (hpath : Config.keyPath (.text key) = [.text outer, .text part])
    (houter : es.getText? outer = some (.map inner)) (hv : inner.getText? part = some v)
    (hnumber : isNumber v = true) :
    Config.getInteger es (.text key) .null = v.toInt none := by
  have hgiven : Config.given? (some v) = some v := by
    cases v with
    | null => exact absurd rfl (ne_null_of_isNumber hnumber)
    | bool | int | float | text | bytes | buffer | list | tuple | map | set | moment | model
    | bank | fileRef | dataRef | path => rfl
  rw [Config.getInteger, Config.get_path hpath houter, hv, hgiven]
  cases v with
  | null => exact absurd rfl (ne_null_of_isNumber hnumber)
  | bool | int | float | text | bytes | buffer | list | tuple | map | set | moment | model | bank
  | fileRef | dataRef | path => rfl

theorem getDictionary_constants (hin : p.In es) :
    Config.getDictionary es (.text "constants") (.map []) =
      p.constants?.elim (standIn (Value.map es).isOverlong (.ok [])) .ok := by
  rw [Config.getDictionary, Config.get_name keyPath_constants, hin.constants]
  cases p.constants? with
  | some constants => rfl
  | none =>
    change ((if (Value.map es).isOverlong = true then _ else _) >>= _ : Except Fault _) =
      if (Value.map es).isOverlong = true then _ else _
    split
    · simp only [Outcome.error_bind]
    · rfl

theorem converted_of_parts (hin : p.In es) (hfit : p.Fit) (romStart romLength : Option Int) :
    LinkConfig.converted es romStart romLength =
      p.converted (Value.map es).isOverlong (Config.given? (es.getText? "memory/model")) romStart
        romLength := by
  obtain ⟨rom, hrom, hstart, hlength⟩ := hin.rom
  rw [LinkConfig.converted, converted, getDictionary_layout hin, getText_model hin,
    getDictionary_constants hin, boundOf, boundOf,
    getInteger_number rfl hrom hstart hfit.romStart,
    getInteger_number rfl hrom hlength hfit.romLength]
  rfl

end Parts

/-- How a load ends that the checks let pass. -/
theorem loaded_of_parts {p : Parts} {es : Value.Entries} (hin : p.In es) (hfit : p.Fit)
    (romStart romLength : Option Int) :
    loaded es romStart romLength = (demand true (!namesOverlong es) >>= fun _ =>
      (p.converted (Value.map es).isOverlong (Config.given? (es.getText? "memory/model")) romStart
        romLength).mapError kind) := by
  rw [loaded, (verdict_eq_ok_iff es).mpr ⟨p, hin, hfit⟩, Parts.converted_of_parts hin hfit]
  rfl

end FirmwareKit.LinkConfig
