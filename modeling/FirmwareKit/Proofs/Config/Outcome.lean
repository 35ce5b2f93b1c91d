import FirmwareKit.Proofs.Config.Verdict
set_option autoImplicit false

namespace FirmwareKit

namespace Schema

theorem isOverlong_entryPath (path key : Value) :
    (entryPath path key).isOverlong = (!path.isTruthy && key.isOverlong) := by
  rw [entryPath]
  cases path.isTruthy <;> rfl

theorem unknownAt_map (path : Value) (schema properties : Value.Entries) (key : Value)
    (inside : Value → Value → Findings) :
    (unknownAt path (.map schema) (.map properties) key inside).fault =
      if isUnwritable path key then some (.system .overlongInteger)
      else match properties.get? key with
        | some inner => (inside (entryPath path key) inner).fault
        | none =>
          if (schema.getText? "additionalProperties").isSome then none
          else overlongFault? (!path.isTruthy && key.isOverlong) := by
  rw [unknownAt]
  split
  · rfl
  · simp only [holds, part]
    cases properties.get? key with
    | some inner => rfl
    | none =>
      rw [← Value.Entries.getText?]
      cases (schema.getText? "additionalProperties").isSome with
      | true => rfl
      | false =>
        rw [isOverlong_entryPath]
        cases !path.isTruthy && key.isOverlong <;> rfl

/-- A schema that lists no properties knows of no unknown ones. -/
theorem unknown_of_unlisted {path schema : Value}
    (h : holds schema (.text "properties") = .ok false) (v : Value) :
    (unknown path schema v).fault = none := by
  cases v with
  | map es => rw [unknown, h]
  | null | bool | int | float | text | bytes | buffer | list | tuple | set | moment | model | bank
  | fileRef | dataRef | path => rfl

end Schema

namespace LinkConfig
open Schema Fault

def keysOverlong : Value → Bool
  | .map es => es.any fun e => e.1.isOverlong
  | _ => false

def namesOverlong (es : Value.Entries) : Bool :=
  es.any (fun e => e.1.isOverlong) || (es.getText? "memory").any keysOverlong
    || (es.getText? "rom").any keysOverlong

/-- What is unknown in a part of a configuration, all of whose known entries list nothing. -/
theorem unknown_part {path : String} {schema properties : Value.Entries}
    (hpath : path.isEmpty = false)
    (hproperties : schema.getText? "properties" = some (.map properties))
    (hplain : ∀ p ∈ properties, holds p.2 (.text "properties") = .ok false) (v : Value) :
    (unknown (.text path) (.map schema) v).fault = overlongFault? (keysOverlong v) := by
  have htruthy : (Value.text path).isTruthy = true := by rw [Value.isTruthy, hpath, Bool.not_false]
  have hinner (key inner : Value) (h : properties.get? key = some inner) :
      holds inner (.text "properties") = .ok false := by
    obtain ⟨p, hp, rfl⟩ := Option.map_eq_some_iff.mp h
    exact hplain p (List.mem_of_find?_eq_some hp)
  have hlisted : holds (.map schema) (.text "properties") = .ok true := by
    change Except.ok (schema.getText? "properties").isSome = _
    rw [hproperties]
    rfl
  have hpart : part (.map schema) (.text "properties") = .ok (.map properties) := by
    change (match schema.getText? "properties" with | some v => _ | none => _) = _
    rw [hproperties]
  cases v with
  | map es =>
    rw [unknown, hlisted, hpart]
    refine unknownEntries_fault _ fun e _ => ?_
    rw [unknownAt_map, isUnwritable, htruthy]
    cases hlong : e.1.isOverlong with
    | true => rfl
    | false =>
      simp only [Value.isOverlong, Bool.or_false, Bool.and_false, Bool.false_eq_true, if_false]
      cases hkey : properties.get? e.1 with
      | some inner => exact unknown_of_unlisted (hinner e.1 inner hkey) e.2
      | none =>
        change (if _ then none else none : Option Fault) = none
        split <;> rfl
  | null | bool | int | float | text | bytes | buffer | list | tuple | set | moment | model | bank
  | fileRef | dataRef | path => rfl

theorem unknown_memory (v : Value) :
    (unknown (.text "memory") memorySchema v).fault = overlongFault? (keysOverlong v) :=
  unknown_part rfl rfl (List.forall_mem_cons.mpr ⟨rfl, List.forall_mem_singleton.mpr rfl⟩) v

theorem unknown_rom (v : Value) :
    (unknown (.text "rom") romSchema v).fault = overlongFault? (keysOverlong v) :=
  unknown_part rfl rfl (List.forall_mem_cons.mpr ⟨rfl, List.forall_mem_singleton.mpr rfl⟩) v

def entryOverlong (e : Value × Value) : Bool :=
  e.1.isOverlong || (e.1.sameKey (.text "memory") && keysOverlong e.2)
    || (e.1.sameKey (.text "rom") && keysOverlong e.2)

theorem unknown_entry (more : Value.Entries)
    (hclosed : more.getText? "additionalProperties" = none) (e : Value × Value) :
    (unknownAt (.text "") (.map more) (.map [entry "memory" memorySchema, entry "rom" romSchema,
      entry "constants" constantsSchema]) e.1 fun here inner => unknown here inner e.2).fault =
        overlongFault? (entryOverlong e) := by
  obtain ⟨key, v⟩ := e
  have hempty : (Value.text "").isTruthy = false := rfl
  rw [unknownAt_map, isUnwritable, hempty, Bool.false_and, if_neg Bool.false_ne_true, hclosed]
  by_cases hmemory : key = .text "memory"
  · subst hmemory
    have hown : entryOverlong (.text "memory", v) = keysOverlong v := by
      simp [entryOverlong, Value.sameKey, Value.same, Value.isOverlong]
    rw [hown]
    exact unknown_memory v
  by_cases hrom : key = .text "rom"
  · subst hrom
    have hown : entryOverlong (.text "rom", v) = keysOverlong v := by
      simp [entryOverlong, Value.sameKey, Value.same, Value.isOverlong]
    rw [hown]
    exact unknown_rom v
  have hown : entryOverlong (key, v) = key.isOverlong := by
    simp [entryOverlong, Bool.eq_false_iff.mpr (mt (Value.sameKey_text_iff key _).mp hmemory),
      Bool.eq_false_iff.mpr (mt (Value.sameKey_text_iff key _).mp hrom)]
  rw [hown]
  by_cases hconstants : key = .text "constants"
  · subst hconstants
    have hopen : holds constantsSchema (.text "properties") = .ok false := rfl
    exact unknown_of_unlisted hopen v
  · have hother (name : String) (h : key ≠ .text name) : ¬ (Value.text name).sameKey key = true :=
      mt (Value.text_sameKey_iff name key).mp h
    simp only [Value.Entries.get?_cons, entry, if_neg (hother _ hmemory), if_neg (hother _ hrom),
      if_neg (hother _ hconstants)]
    rfl

theorem any_or {α : Type} (xs : List α) (p q : α → Bool) :
    xs.any (fun x => p x || q x) = (xs.any p || xs.any q) := by
  induction xs with
  | nil => rfl
  | cons x rest ih => simp only [List.any_cons, ih, Bool.or_left_comm, Bool.or_assoc]

theorem unknown_schema {es : Value.Entries} (hproper : (Value.map es).isProper = true) :
    (unknown (.text "") schema (.map es)).fault = overlongFault? (namesOverlong es) := by
  let properties : Value.Entries := [entry "memory" memorySchema, entry "rom" romSchema,
    entry "constants" constantsSchema]
  let schemaEntries : Value.Entries := [entry "type" (.text "object"),
    entry "title" (.text "Link configuration"), entry "required" (names ["memory", "rom"]),
    entry "properties" (.map properties)]
  have hentries : (unknownEntries (.text "") (.map schemaEntries) (.map properties) es).fault =
      overlongFault? (es.any entryOverlong) :=
    unknownEntries_fault entryOverlong fun e _ => unknown_entry schemaEntries rfl e
  have hany : es.any entryOverlong = namesOverlong es := by
    rw [namesOverlong, ← Value.Entries.any_name hproper, ← Value.Entries.any_name hproper,
      ← any_or, ← any_or]
    rfl
  rw [← hany, ← hentries]
  rfl

def boundOf (es : Value.Entries) (given : Option Int) (key : String) : Except Fault Int :=
  given.elim (Config.getInteger es (.text key) .null) .ok

def converted (es : Value.Entries) (romStart romLength : Option Int) :
    Except Fault LinkConfig := do
  let raw ← Config.getDictionary es (.text "memory/layout") .null
  let raw ← layoutEntries raw
  let model ← Config.getText es (.text "memory/model")
    (.text (Labelled.label Memory.defaultModel))
  let layout ← Memory.normalize raw (.text model)
  let romStart ← boundOf es romStart "rom/start"
  let romLength ← boundOf es romLength "rom/length"
  let constants ← Config.getDictionary es (.text "constants") (.map [])
  let constants ← constantsOf constants
  pure ⟨layout, romStart, romLength, constants⟩

theorem romBound_eq (c : Config) (given : Option Int) (key : String) :
    romBound c given key = boundOf c.entries given key := by
  cases given <;> rfl

theorem ends_convert (c : Config) (romStart romLength : Option Int) :
    Run.Ends (convert c romStart romLength) (converted c.entries romStart romLength) := by
  unfold convert converted
  simp only [romBound_eq]
  exact (Run.ends_ofExcept _).bind fun _ => (Run.ends_ofExcept _).bind fun _ =>
    (Run.ends_ofExcept _).bind fun _ => (Run.ends_normalize _ _).bind fun _ =>
    (Run.ends_ofExcept _).bind fun _ => (Run.ends_ofExcept _).bind fun _ =>
    (Run.ends_ofExcept _).bind fun _ => (Run.ends_ofExcept _).bind fun _ => Run.ends_pure _

/-- How a load ends: unknown names first, then the checks, then the conversion. -/
def loaded (es : Value.Entries) (romStart romLength : Option Int) : Except Kind LinkConfig := do
  demand true (!namesOverlong es)
  verdict es
  (converted es romStart romLength).mapError kind

variable {c : Config}

theorem validation_outcome (hproper : (Value.map c.entries).isProper = true) (w : Workspace) :
    ((validation c).run standard true (.map c.entries)).outcome w =
      (demand true (!namesOverlong c.entries) >>= fun _ => verdict c.entries) :=
  Validation.run_outcome_reporting rfl rfl rfl rfl (unknown_schema hproper)
    compile_schema (checks_rules rfl rfl rfl hproper) w

/-- With unknown entries left aside, the checks end as the verdict says. -/
theorem check_outcome (hproper : (Value.map c.entries).isProper = true) (w : Workspace) :
    (({ validation c with reportsUnknown := false }).run standard true (.map c.entries)).outcome w =
      verdict c.entries :=
  Validation.run_outcome rfl rfl compile_schema (checks_rules rfl rfl rfl hproper) w

theorem load_outcome (hproper : (Value.map c.entries).isProper = true)
    (romStart romLength : Option Int) (w : Workspace) :
    (load c romStart romLength).outcome w = loaded c.entries romStart romLength := by
  rw [load, Run.outcome_bind fun _ w' => (ends_convert c romStart romLength).outcome w',
    validation_outcome hproper]
  rw [loaded]
  cases demand true (!namesOverlong c.entries) <;> rfl

def scripted (l : LinkConfig) (date : String) : Except Fault String :=
  Script.emit l.layout (l.constants.map fun c => (c.1, .int c.2)) (.int l.romStart)
    (.int l.romLength) date

theorem script_outcome (hproper : (Value.map c.entries).isProper = true)
    (romStart romLength : Option Int) (date : String) (w : Workspace) :
    (load c romStart romLength >>= fun l => script l date).outcome w =
      (loaded c.entries romStart romLength >>= fun l => (scripted l date).mapError kind) := by
  have hscript (l : LinkConfig) : Run.Ends (script l date) (scripted l date) :=
    Run.ends_emit _ _ _ _ _
  rw [Run.outcome_bind fun l w' => (hscript l).outcome w', load_outcome hproper]

end LinkConfig
end FirmwareKit
