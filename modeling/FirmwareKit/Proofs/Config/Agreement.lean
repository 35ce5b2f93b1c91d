import FirmwareKit.Proofs.Config.Parts
set_option autoImplicit false

/-!
# Configurations that agree on what the schema knows

Entries that the schema does not list play no part in a load, but for two: an integer that is too
long to be written keeps a key or the message of a failed look-up from being written, and a top-level
entry that is named like the path of the model stands in for the model where none is named.
-/
namespace FirmwareKit.LinkConfig
open Schema Fault

/-- Values that are equal, or mappings with equal entries under some names. -/
inductive AgreeOn (names : List String) : Option Value → Option Value → Prop
  | same (v? : Option Value) : AgreeOn names v? v?
  | mappings {es ds : Value.Entries} (h : ∀ name ∈ names, es.getText? name = ds.getText? name) :
    AgreeOn names (some (.map es)) (some (.map ds))

/-- Entries that differ only in what the schema does not list. -/
structure Agree (es ds : Value.Entries) : Prop where
  memory : AgreeOn ["model", "layout"] (es.getText? "memory") (ds.getText? "memory")
  rom : AgreeOn ["start", "length"] (es.getText? "rom") (ds.getText? "rom")
  constants : es.getText? "constants" = ds.getText? "constants"

def NamesModel (es : Value.Entries) : Prop :=
  ∃ (m : Value.Entries) (v : Value), es.getText? "memory" = some (.map m) ∧
    m.getText? "model" = some v

/-- A look-up fails with a message that shows the whole configuration. -/
inductive LookupFails (es : Value.Entries) : Prop
  | model {m : Value.Entries} (hmemory : es.getText? "memory" = some (.map m))
    (h : m.getText? "model" = none) : LookupFails es
  | constants (h : es.getText? "constants" = none) : LookupFails es
  | null (h : HasNullPart es) : LookupFails es

/-- Apart from the entries of some names, no key holds an integer too long to be written, and no
value does either where values are shown. -/
def ShortBesides (names : List String) (shown : Prop) (es : Value.Entries) : Prop :=
  ∀ e ∈ es, (∀ name ∈ names, e.1 ≠ .text name) →
    e.1.isOverlong = false ∧ (shown → e.2.isOverlong = false)

/-- No entry that the schema does not list shows an integer too long to be written. -/
structure ShortUnknown (es : Value.Entries) : Prop where
  top : ShortBesides ["memory", "rom", "constants"] (LookupFails es) es
  memory : ∀ m : Value.Entries, es.getText? "memory" = some (.map m) →
    ShortBesides ["model", "layout"] (LookupFails es) m
  rom : ∀ r : Value.Entries, es.getText? "rom" = some (.map r) →
    ShortBesides ["start", "length"] (LookupFails es) r

/-! Integers that are too long -/

section Overlong
variable {names : List String} {shown shown' : Prop} {es ds : Value.Entries}

theorem ShortBesides.key_short (h : ShortBesides names shown es) {e : Value × Value} (he : e ∈ es) :
    e.1.isOverlong = false := by
  by_cases hname : ∃ name ∈ names, e.1 = .text name
  · obtain ⟨name, _, hkey⟩ := hname
    rw [hkey]
    rfl
  · exact (h e he fun name hmem hkey => hname ⟨name, hmem, hkey⟩).1

theorem ShortBesides.any_key (h : ShortBesides names shown es) :
    (es.any fun e => e.1.isOverlong) = false := by
  rw [List.any_eq_false]
  intro e he
  rw [h.key_short he]
  exact Bool.false_ne_true

/-- What is too long is found under the names. -/
theorem ShortBesides.isOverlong_eq (h : ShortBesides names shown es) (hshown : shown)
    (hproper : (Value.map es).isProper = true) :
    (Value.map es).isOverlong = names.any fun name => (es.getText? name).any Value.isOverlong := by
  rw [Bool.eq_iff_iff, Value.isOverlong_map_iff, List.any_eq_true]
  simp only [Option.any_eq_true]
  constructor
  · rintro ⟨⟨key, v⟩, he, hlong⟩
    -- A name is never too long, and what is not under one of the names holds nothing that is.
    have hv : v.isOverlong = true := by
      rcases hlong with hkey | hv
      · rw [h.key_short he] at hkey
        cases hkey
      · exact hv
    by_cases hname : ∃ name ∈ names, key = .text name
    · obtain ⟨name, hmem, rfl⟩ := hname
      exact ⟨name, hmem, v, Value.Entries.getText?_of_mem hproper he, hv⟩
    · have hshort := (h _ he fun name hmem hkey => hname ⟨name, hmem, hkey⟩).2 hshown
      rw [hv] at hshort
      cases hshort
  · rintro ⟨name, _, v, hfound, hv⟩
    exact ⟨_, Value.Entries.mem_of_getText? hfound, .inr hv⟩

theorem AgreeOn.overlong_eq {v? w? : Option Value} (h : AgreeOn names v? w?)
    (hproper : ∀ v, v? = some v → v.isProper = true)
    (hproper' : ∀ w, w? = some w → w.isProper = true)
    (hshown : shown) (hshown' : shown')
    (hshort : ∀ m, v? = some (.map m) → ShortBesides names shown m)
    (hshort' : ∀ m, w? = some (.map m) → ShortBesides names shown' m) :
    v?.any Value.isOverlong = w?.any Value.isOverlong := by
  cases h with
  | same => rfl
  | @mappings es ds h =>
    change (Value.map es).isOverlong = (Value.map ds).isOverlong
    rw [(hshort es rfl).isOverlong_eq hshown (hproper _ rfl),
      (hshort' ds rfl).isOverlong_eq hshown' (hproper' _ rfl), Bool.eq_iff_iff, List.any_eq_true,
      List.any_eq_true]
    exact exists_congr fun name => and_congr_right fun hmem => by rw [h name hmem]

theorem AgreeOn.null {w? : Option Value} (h : AgreeOn names (some .null) w?) : w? = some .null := by
  cases h
  rfl

theorem AgreeOn.mapping {m : Value.Entries} {w? : Option Value}
    (h : AgreeOn names (some (.map m)) w?) :
    ∃ m' : Value.Entries, w? = some (.map m') ∧
      ∀ name ∈ names, m.getText? name = m'.getText? name := by
  cases h with
  | same => exact ⟨m, rfl, fun _ _ => rfl⟩
  | @mappings _ ds h => exact ⟨ds, rfl, h⟩

theorem Agree.lookupFails (h : Agree es ds) (hfails : LookupFails es) : LookupFails ds := by
  cases hfails with
  | model hmemory hmodel =>
    obtain ⟨m', hmemory', hsame⟩ := (hmemory ▸ h.memory).mapping
    exact .model hmemory' (hsame "model" (by simp) ▸ hmodel)
  | constants hconstants => exact .constants (h.constants ▸ hconstants)
  | null hnull =>
    obtain ⟨name, hname, hnull⟩ := hnull
    refine .null ⟨name, hname, ?_⟩
    simp only [List.mem_cons, List.not_mem_nil, or_false] at hname
    rcases hname with rfl | rfl | rfl
    · exact (hnull ▸ h.memory).null
    · exact (hnull ▸ h.rom).null
    · exact h.constants ▸ hnull

theorem Agree.isOverlong_eq (h : Agree es ds) (hproper : (Value.map es).isProper = true)
    (hproper' : (Value.map ds).isProper = true) (hshort : ShortUnknown es)
    (hshort' : ShortUnknown ds) (hfails : LookupFails es) :
    (Value.map es).isOverlong = (Value.map ds).isOverlong := by
  have hfails' := h.lookupFails hfails
  have hmemory := h.memory.overlong_eq (fun _ => Value.proper_getText? hproper)
    (fun _ => Value.proper_getText? hproper') hfails hfails' hshort.memory hshort'.memory
  have hrom := h.rom.overlong_eq (fun _ => Value.proper_getText? hproper)
    (fun _ => Value.proper_getText? hproper') hfails hfails' hshort.rom hshort'.rom
  rw [hshort.top.isOverlong_eq hfails hproper, hshort'.top.isOverlong_eq hfails' hproper']
  simp only [List.any_cons, List.any_nil, hmemory, hrom, h.constants]

theorem ShortUnknown.namesOverlong_eq (h : ShortUnknown es) : namesOverlong es = false := by
  have hpart {name : String} {names : List String}
      (hshort : ∀ m, es.getText? name = some (.map m) → ShortBesides names (LookupFails es) m) :
      (es.getText? name).any keysOverlong = false := by
    cases hv : es.getText? name with
    | none => rfl
    | some v =>
      cases v with
      | map m => exact (hshort m hv).any_key
      | null | bool | int | float | text | bytes | buffer | list | tuple | set | moment | model
      | bank | fileRef | dataRef | path => rfl
  rw [namesOverlong, h.top.any_key, hpart h.memory, hpart h.rom]
  rfl

end Overlong

/-! The checks and the conversion -/

section Agree
variable {es ds : Value.Entries}

theorem AgreeOn.alike {names : List String} {verdict : Value.Entries → Verdict}
    (hverdict : ∀ es ds : Value.Entries, (∀ name ∈ names, es.getText? name = ds.getText? name) →
      verdict es = verdict ds) {v? w? : Option Value} (h : AgreeOn names v? w?) :
    Option.Rel (Alike fun v => onMapping v verdict) v? w? := by
  cases h with
  | same =>
    cases v? with
    | none => exact .none
    | some v => exact .some ⟨.rfl, rfl⟩
  | mappings h => exact .some ⟨by simp, hverdict _ _ h⟩

theorem Agree.verdict_eq (h : Agree es ds)
    (hlong : LookupFails es → (Value.map es).isOverlong = (Value.map ds).isOverlong) :
    verdict es = verdict ds := by
  have hmemory : Option.Rel (Alike memoryVerdict) (es.getText? "memory") (ds.getText? "memory") :=
    h.memory.alike fun es ds h => by rw [h "model" (by simp), h "layout" (by simp)]
  have hrom : Option.Rel (Alike romVerdict) (es.getText? "rom") (ds.getText? "rom") :=
    h.rom.alike fun es ds h => by rw [h "start" (by simp), h "length" (by simp)]
  have hconstants : Option.Rel (Alike constantsVerdict) (es.getText? "constants")
      (ds.getText? "constants") := by
    rw [h.constants]
    cases ds.getText? "constants" with
    | none => exact .none
    | some v => exact .some ⟨.rfl, rfl⟩
  exact verdict_congr (fun hnull => hlong (.null hnull)) hmemory hrom hconstants

theorem Agree.parts (h : Agree es ds) {p : Parts} (hin : p.In es) : p.In ds := by
  obtain ⟨memory, hmemory, hmodel, hlayout⟩ := hin.memory
  obtain ⟨rom, hrom, hstart, hlength⟩ := hin.rom
  obtain ⟨memory', hmemory', hsame⟩ := (hmemory ▸ h.memory).mapping
  obtain ⟨rom', hrom', hsame'⟩ := (hrom ▸ h.rom).mapping
  exact {
    memory := ⟨memory', hmemory', hsame "model" (by simp) ▸ hmodel,
      hsame "layout" (by simp) ▸ hlayout⟩
    rom := ⟨rom', hrom', hsame' "start" (by simp) ▸ hstart, hsame' "length" (by simp) ▸ hlength⟩
    constants := h.constants ▸ hin.constants }

theorem Parts.model?_of_namesModel {p : Parts} (hin : p.In es) (h : NamesModel es) :
    ∃ s, p.model? = some s := by
  obtain ⟨m, v, hm, hv⟩ := h
  obtain ⟨memory, hmemory, hmodel, _⟩ := hin.memory
  obtain rfl := Value.map.inj (Option.some.inj (hm.symm.trans hmemory))
  obtain ⟨s, hs, _⟩ := Option.map_eq_some_iff.mp (hmodel.symm.trans hv)
  exact ⟨s, hs⟩

/-- A configuration without a model or constants is shown. -/
theorem Parts.lookupFails {p : Parts} (hin : p.In es)
    (h : p.model? = none ∨ p.constants? = none) : LookupFails es := by
  obtain ⟨memory, hmemory, hmodel, _⟩ := hin.memory
  rcases h with h | h
  · exact .model hmemory (by rw [hmodel, h, Option.map_none])
  · exact .constants (by rw [hin.constants, h, Option.map_none])

theorem Parts.converted_congr {p : Parts} {overlong overlong' : Bool}
    (h : p.model? = none ∨ p.constants? = none → overlong = overlong') (literal? : Option Value)
    (romStart romLength : Option Int) :
    p.converted overlong literal? romStart romLength =
      p.converted overlong' literal? romStart romLength := by
  cases hmodel : p.model? with
  | none => rw [h (.inl hmodel)]
  | some model =>
    cases hconstants : p.constants? with
    | none => rw [h (.inr hconstants)]
    | some constants =>
      rw [Parts.converted, Parts.converted, hmodel, hconstants]
      rfl

theorem Agree.loaded_eq (h : Agree es ds)
    (hlong : LookupFails es → (Value.map es).isOverlong = (Value.map ds).isOverlong)
    (hnames : namesOverlong es = namesOverlong ds)
    (hmodel : NamesModel es ∨ es.getText? "memory/model" = ds.getText? "memory/model")
    (romStart romLength : Option Int) :
    loaded es romStart romLength = loaded ds romStart romLength := by
  cases hv : verdict es with
  | error kind =>
    rw [loaded, loaded, ← h.verdict_eq hlong, hnames, hv]
    rfl
  | ok =>
    obtain ⟨p, hin, hfit⟩ := (verdict_eq_ok_iff es).mp hv
    rw [loaded_of_parts hin hfit, loaded_of_parts (h.parts hin) hfit, hnames,
      Parts.converted_congr fun hlacks => hlong (Parts.lookupFails hin hlacks)]
    rcases hmodel with hmodel | hliteral
    · obtain ⟨s, hs⟩ := Parts.model?_of_namesModel hin hmodel
      rw [Parts.converted, Parts.converted, hs]
      rfl
    · rw [hliteral]

end Agree

variable {c d : Config}

/-- Configurations that agree on what the schema lists, and on the stand-in for the model unless it
is named, load alike. -/
theorem load_agree (hproper : (Value.map c.entries).isProper = true)
    (hproper' : (Value.map d.entries).isProper = true) (h : Agree c.entries d.entries)
    (hmodel : NamesModel c.entries ∨
      c.entries.getText? "memory/model" = d.entries.getText? "memory/model")
    (hshort : ShortUnknown c.entries) (hshort' : ShortUnknown d.entries)
    (romStart romLength : Option Int) (w : Workspace) :
    (load c romStart romLength).outcome w = (load d romStart romLength).outcome w := by
  have hnames : namesOverlong c.entries = namesOverlong d.entries :=
    hshort.namesOverlong_eq.trans hshort'.namesOverlong_eq.symm
  rw [load_outcome hproper, load_outcome hproper',
    h.loaded_eq (h.isOverlong_eq hproper hproper' hshort hshort') hnames hmodel]

def unnamedEntries : Value.Entries := [
  entry "memory" (.map
    [entry "layout" (.map [entry "c_heap" (.list [.int 0x10000, .int 0x10FFF])])]),
  entry "rom" (.map [entry "start" (.int 0x20000), entry "length" (.int 0x10000)])]

def notedMemory : Value.Entries := [entry "note" .null,
  entry "layout" (.map [entry "c_heap" (.list [.int 0x10000, .int 0x10FFF])])]

def notedRom : Value.Entries := [entry "start" (.int 0x20000), entry "banks" (.list [.int 4]),
  entry "length" (.int 0x10000)]

def notedEntries : Value.Entries := [entry "rom/start" (.int 0), entry "memory" (.map notedMemory),
  (.int 7, .text "seven"), entry "rom" (.map notedRom), entry "memory/layout" (.map [])]

theorem shortBesides_of_all {es : Value.Entries} (names : List String) (shown : Prop)
    (h : (es.all fun e => !e.1.isOverlong && !e.2.isOverlong) = true) :
    ShortBesides names shown es := by
  intro e he _
  have hshort := List.all_eq_true.mp h e he
  rw [Bool.and_eq_true_iff, Bool.not_eq_true', Bool.not_eq_true'] at hshort
  exact ⟨hshort.1, fun _ => hshort.2⟩

theorem load_agree_notedEntries :
    (Value.map unnamedEntries).isProper = true ∧ (Value.map notedEntries).isProper = true ∧
      Agree unnamedEntries notedEntries ∧
      unnamedEntries.getText? "memory/model" = notedEntries.getText? "memory/model" ∧
      ShortUnknown unnamedEntries ∧ ShortUnknown notedEntries ∧
      ∃ l, (load (Config.ofEntries "/" unnamedEntries) none none).outcome Workspace.bare = .ok l ∧
        (load (Config.ofEntries "/" notedEntries) none none).outcome Workspace.bare = .ok l ∧
        l.romStart = 0x20000 := by
  have hproper : (Value.map unnamedEntries).isProper = true := by decide +kernel
  have hproper' : (Value.map notedEntries).isProper = true := by decide +kernel
  have hagree : Agree unnamedEntries notedEntries :=
    ⟨.mappings (List.forall_mem_cons.mpr ⟨rfl, List.forall_mem_singleton.mpr rfl⟩),
      .mappings (List.forall_mem_cons.mpr ⟨rfl, List.forall_mem_singleton.mpr rfl⟩), rfl⟩
  have hpart {m m' : Value.Entries} (names : List String) (shown : Prop)
      (h : (m.all fun e => !e.1.isOverlong && !e.2.isOverlong) = true)
      (hm : some (Value.map m) = some (.map m')) : ShortBesides names shown m' := by
    obtain rfl := Value.map.inj (Option.some.inj hm)
    exact shortBesides_of_all names shown h
  have hshort : ShortUnknown unnamedEntries :=
    ⟨shortBesides_of_all _ _ (by decide +kernel), fun _ => hpart _ _ (by decide +kernel),
      fun _ => hpart _ _ (by decide +kernel)⟩
  have hshort' : ShortUnknown notedEntries :=
    ⟨shortBesides_of_all _ _ (by decide +kernel), fun _ => hpart _ _ (by decide +kernel),
      fun _ => hpart _ _ (by decide +kernel)⟩
  have hunnamed : ((loaded unnamedEntries none none).toOption.any (·.romStart == 0x20000)) =
      true := by decide +kernel
  obtain ⟨l, hl, hstart⟩ := Outcome.exists_of_any hunnamed
  have hload : (load (Config.ofEntries "/" unnamedEntries) none none).outcome Workspace.bare =
      .ok l := (load_outcome hproper none none Workspace.bare).trans hl
  have hsame := load_agree (c := Config.ofEntries "/" unnamedEntries)
    (d := Config.ofEntries "/" notedEntries) hproper hproper' hagree (.inr rfl) hshort hshort'
    none none Workspace.bare
  exact ⟨hproper, hproper', hagree, rfl, hshort, hshort', l, hload, hsame ▸ hload, eq_of_beq hstart⟩

def literalEntries : Value.Entries := entry "memory/model" (.text "small") :: unnamedEntries

/-- The schema does not list a top-level entry that is named like the path of the model, and it
decides the model all the same where none is named. -/
theorem load_reads_literal_model :
    (Value.map unnamedEntries).isProper = true ∧ (Value.map literalEntries).isProper = true ∧
      Agree unnamedEntries literalEntries ∧
      ∃ l l',
        (load (Config.ofEntries "/" unnamedEntries) none none).outcome Workspace.bare = .ok l ∧
        (load (Config.ofEntries "/" literalEntries) none none).outcome Workspace.bare = .ok l' ∧
        l.layout.model = .medium ∧ l'.layout.model = .small := by
  have hproper : (Value.map unnamedEntries).isProper = true := by decide +kernel
  have hproper' : (Value.map literalEntries).isProper = true := by decide +kernel
  have hagree : Agree unnamedEntries literalEntries := ⟨.same _, .same _, rfl⟩
  have hunnamed : ((loaded unnamedEntries none none).toOption.any fun l =>
      l.layout.model == .medium) = true := by decide +kernel
  have hliteral : ((loaded literalEntries none none).toOption.any fun l =>
      l.layout.model == .small) = true := by decide +kernel
  obtain ⟨l, hl, hmodel⟩ := Outcome.exists_of_any hunnamed
  obtain ⟨l', hl', hmodel'⟩ := Outcome.exists_of_any hliteral
  exact ⟨hproper, hproper', hagree, l, l', (load_outcome hproper none none Workspace.bare).trans hl,
    (load_outcome hproper' none none Workspace.bare).trans hl', eq_of_beq hmodel, eq_of_beq hmodel'⟩

end FirmwareKit.LinkConfig
