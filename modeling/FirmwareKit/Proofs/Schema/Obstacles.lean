import FirmwareKit.Proofs.Schema.Unknown
import FirmwareKit.Proofs.Schema.Validation
set_option autoImplicit false

/-!
# What ends the search for unknown entries

Where a schema can be read, the search for unknown entries only ends with a fault at a mapping whose
schema is a truth value, and at a key that is too long to be written in a path. Elsewhere a
validation that reports unknown entries ends as one that does not.
-/
namespace FirmwareKit.Schema

/-! ## Schemas that can be read -/

inductive IsSchemaTree : Value → Prop
  | truth (b : Bool) : IsSchemaTree (.bool b)
  | leaf {es : Value.Entries} (h : es.getText? "properties" = none) : IsSchemaTree (.map es)
  | node {es ps : Value.Entries} (h : es.getText? "properties" = some (.map ps))
    (hps : ∀ e ∈ ps, IsSchemaTree e.2) : IsSchemaTree (.map es)

theorem extent_le_entries {es : Value.Entries} {e : Value × Value} (he : e ∈ es) :
    extent e.2 ≤ extent.entryExtents es := by
  induction es with
  | nil => cases he
  | cons d rest ih =>
    rw [extent.entryExtents]
    rcases List.mem_cons.mp he with rfl | he
    · omega
    · have hrest := ih he
      omega

theorem extent_lt_map {es : Value.Entries} {e : Value × Value} (he : e ∈ es) :
    extent e.2 < extent (.map es) := by
  rw [extent]
  exact Nat.lt_succ_of_le (extent_le_entries he)

def IsSchema (v : Value) : Prop := (∃ b, v = .bool b) ∨ ∃ es, v = .map es

theorem read_of_readProperty {read : String → Value → Reading (List Rule)} {subject : String}
    {e : Value × Value} {p : String × List Rule × Option Value}
    (h : readProperty read subject e = .ok p) :
    IsSchema e.2 ∧ ∃ inner rules, read inner e.2 = .ok rules := by
  obtain ⟨key, v⟩ := e
  cases key with
  | text name =>
    have hread (hmap : (read (subject ++ "__" ++ variablePart name) v).map
        (fun s => (resolved name, s, defaultOf v)) = .ok p) : ∃ inner rules, read inner v = .ok rules := by
      refine ⟨subject ++ "__" ++ variablePart name, ?_⟩
      cases hrules : read (subject ++ "__" ++ variablePart name) v with
      | ok rules => exact ⟨rules, rfl⟩
      | error =>
        rw [hrules] at hmap
        cases hmap
    cases v with
    | map es => exact ⟨.inr ⟨es, rfl⟩, hread h⟩
    | bool b => exact ⟨.inl ⟨b, rfl⟩, hread h⟩
    | _ => cases h
  | _ => cases h

theorem exists_of_readProperties {read : String → Value → Reading (List Rule)} {subject : String}
    {v : Value} {rules : List Rule} (h : readProperties read subject v = .ok rules) :
    ∃ ps, v = .map ps ∧ ∀ e ∈ ps, ∃ p, readProperty read subject e = .ok p := by
  cases v with
  | map ps =>
    refine ⟨ps, rfl, fun e he => ?_⟩
    cases hall : ps.mapM (readProperty read subject) with
    | ok => exact FirmwareKit.Outcome.exists_of_mapM_eq_ok hall he
    | error =>
      rw [readProperties, hall] at h
      cases h
  | _ => cases h

/-- What is read under the properties of a schema that can be read. -/
theorem readProperties_of_read {fuel : Nat} {subject : String} {es : Value.Entries}
    {rules : List Rule} (h : readWithin (fuel + 1) subject (.map es) = .ok rules) {w : Value}
    (hw : es.getText? "properties" = some w) :
    ∃ listed, readProperties (readWithin fuel) subject w = .ok listed := by
  rw [readWithin] at h
  split at h
  · cases h
  obtain ⟨parts, hparts, -⟩ := (FirmwareKit.Outcome.bind_eq_ok_iff _ _ _).mp h
  obtain ⟨listed, hlisted⟩ := FirmwareKit.Outcome.exists_of_mapM_eq_ok hparts
    (by decide : "properties" ∈ keywords)
  rw [hw] at hlisted
  exact ⟨listed, hlisted⟩

theorem tree_of_read {fuel : Nat} {subject : String} {v : Value} {rules : List Rule}
    (hv : IsSchema v) (h : readWithin fuel subject v = .ok rules) (hfuel : extent v < fuel) :
    IsSchemaTree v := by
  induction fuel generalizing subject v rules with
  | zero => omega
  | succ fuel ih =>
    rcases hv with ⟨b, rfl⟩ | ⟨es, rfl⟩
    · exact .truth b
    cases hw : Value.Entries.getText? es "properties" with
    | none => exact .leaf hw
    | some w =>
      obtain ⟨listed, hlisted⟩ := readProperties_of_read h hw
      obtain ⟨ps, rfl, hps⟩ := exists_of_readProperties hlisted
      have hbelow : extent (.map ps) < extent (.map es) :=
        extent_lt_map (Value.Entries.mem_of_getText? hw)
      refine .node hw fun e he => ?_
      obtain ⟨p, hp⟩ := hps e he
      obtain ⟨hschema, inner, own, hread⟩ := read_of_readProperty hp
      have hentry := extent_lt_map he
      exact ih hschema hread (by omega)

theorem mergeAll_map (parts : List Value) : ∃ es, mergeAll parts = .map es := by
  have hpart (es : Value.Entries) (part : Value) : ∃ fs, mergePart (.map es) part = .map fs := by
    cases part with
    | map fs =>
      rw [mergePart, merge]
      exact ⟨_, rfl⟩
    | _ => exact ⟨es, rfl⟩
  have hfold (es : Value.Entries) : ∃ fs, parts.foldl mergePart (.map es) = .map fs := by
    induction parts generalizing es with
    | nil => exact ⟨es, rfl⟩
    | cons part rest ih =>
      obtain ⟨fs, hfs⟩ := hpart es part
      rw [List.foldl_cons, hfs]
      exact ih fs
  exact hfold []

theorem tree_of_compile {parts : List Value} {rules : List Rule}
    (h : compile (mergeAll parts) = .ok rules) : IsSchemaTree (mergeAll parts) :=
  tree_of_read (.inr (mergeAll_map parts)) h (Nat.lt_succ_self _)

/-! ## Obstacles -/

def Finds (container name found : Value) : Prop :=
  holds container name = .ok true ∧ part container name = .ok found

def Baffles (container name : Value) (f : Fault) : Prop :=
  holds container name = .error f ∨
    holds container name = .ok true ∧ part container name = .error f

/-- A key that cannot be got over: the way to it cannot be put together, it cannot be sought among
the properties, or it is unknown but too long to be shown. -/
inductive Blocks (path schema properties key : Value) : Fault → Prop
  | way (h : isUnwritable path key = true) : Blocks path schema properties key (.system .overlongInteger)
  | lookup {f : Fault} (hway : isUnwritable path key = false) (h : Baffles properties key f) :
    Blocks path schema properties key f
  | shown (hway : isUnwritable path key = false) (hunknown : holds properties key = .ok false)
    (hfurther : holds schema (.text "additionalProperties") = .ok false)
    (hlong : (entryPath path key).isOverlong = true) :
    Blocks path schema properties key (.system .overlongInteger)

/-- What a search meets in a value that cannot be got over, at a path and below it. -/
inductive Obstructs : (path schema v : Value) → Fault → Prop
  | listing {path schema : Value} {entries : Value.Entries} {f : Fault}
    (h : Baffles schema (.text "properties") f) : Obstructs path schema (.map entries) f
  | entry {path schema properties key v : Value} {entries : Value.Entries} {f : Fault}
    (hlisted : Finds schema (.text "properties") properties) (hentry : (key, v) ∈ entries)
    (h : Blocks path schema properties key f) : Obstructs path schema (.map entries) f
  | within {path schema properties key node v : Value} {entries : Value.Entries} {f : Fault}
    (hlisted : Finds schema (.text "properties") properties) (hentry : (key, v) ∈ entries)
    (hway : isUnwritable path key = false) (hnode : Finds properties key node)
    (h : Obstructs (entryPath path key) node v f) : Obstructs path schema (.map entries) f

/-- A fault that is that of an obstacle, or none where there is no obstacle. -/
def Accounts (met : Fault → Prop) (fault? : Option Fault) : Prop :=
  (fault? = none ∧ ∀ f, ¬ met f) ∨ ∃ f, fault? = some f ∧ met f

theorem Accounts.congr {met met' : Fault → Prop} {fault? : Option Fault}
    (h : Accounts met fault?) (hmet : ∀ f, met f ↔ met' f) : Accounts met' fault? := by
  rcases h with ⟨hnone, hnot⟩ | ⟨f, hfault, hf⟩
  · exact .inl ⟨hnone, fun f hf => hnot f ((hmet f).mpr hf)⟩
  · exact .inr ⟨f, hfault, (hmet f).mp hf⟩

/-- What is found behind the first entry only counts if there is no fault at that one. -/
theorem Accounts.append {met met' : Fault → Prop} {first rest : Findings}
    (hfirst : Accounts met first.fault) (hrest : Accounts met' rest.fault) :
    Accounts (fun f => met f ∨ met' f)
      (match first.fault with
        | some f => ⟨first.paths, some f⟩
        | none => first.append rest : Findings).fault := by
  rcases hfirst with ⟨hnone, hnot⟩ | ⟨f, hfault, hf⟩
  · rw [hnone]
    exact hrest.congr fun f => ⟨.inr, fun h => h.resolve_left (hnot f)⟩
  · rw [hfault]
    exact .inr ⟨f, rfl, .inl hf⟩

theorem accounts_none {met : Fault → Prop} (h : ∀ f, ¬ met f) : Accounts met none :=
  .inl ⟨rfl, h⟩

theorem accounts_some {met : Fault → Prop} {f : Fault} (h : met f) : Accounts met (some f) :=
  .inr ⟨f, rfl, h⟩

section Lookups
variable {container name found found' : Value} {f : Fault}

theorem Finds.not_baffles (h : Finds container name found) : ¬ Baffles container name f := by
  rintro (herror | ⟨-, herror⟩)
  · cases h.1.symm.trans herror
  · cases h.2.symm.trans herror

theorem Finds.unique (h : Finds container name found) (h' : Finds container name found') :
    found' = found :=
  Except.ok.inj (h'.2.symm.trans h.2)

theorem not_finds_of_holds (h : holds container name = .ok false) : ¬ Finds container name found :=
  fun hfinds => nomatch h.symm.trans hfinds.1

theorem not_baffles_of_holds (h : holds container name = .ok false) : ¬ Baffles container name f := by
  rintro (herror | ⟨htrue, -⟩)
  · cases h.symm.trans herror
  · cases h.symm.trans htrue

/-- In what holds one text, any text can be sought. -/
theorem holds_text {s t : String} {b : Bool} (h : holds container (.text s) = .ok b) :
    ∃ b', holds container (.text t) = .ok b' := by
  cases container with
  | map | list | tuple | set | text => exact ⟨_, rfl⟩
  | _ => cases h

end Lookups

/-! ## The search -/

section Search
variable {path schema properties : Value}

def ObstructsAt (path schema properties : Value) (e : Value × Value) (f : Fault) : Prop :=
  Blocks path schema properties e.1 f ∨
    isUnwritable path e.1 = false ∧
      ∃ node, Finds properties e.1 node ∧ Obstructs (entryPath path e.1) node e.2 f

theorem obstructs_map_iff (hlisted : Finds schema (.text "properties") properties)
    {entries : Value.Entries} {f : Fault} :
    Obstructs path schema (.map entries) f ↔ ∃ e ∈ entries, ObstructsAt path schema properties e f := by
  constructor
  · intro h
    cases h with
    | listing h => exact (hlisted.not_baffles h).elim
    | entry hlisted' hentry h =>
      obtain rfl := hlisted.unique hlisted'
      exact ⟨_, hentry, .inl h⟩
    | within hlisted' hentry hway hnode h =>
      obtain rfl := hlisted.unique hlisted'
      exact ⟨_, hentry, .inr ⟨hway, _, hnode, h⟩⟩
  · rintro ⟨e, he, h | ⟨hway, node, hnode, h⟩⟩
    · exact .entry hlisted he h
    · exact .within hlisted he hway hnode h

theorem accounts_unknownAt (hlisted : Finds schema (.text "properties") properties)
    {key v : Value} {inside : Value → Value → Findings}
    (hinside : ∀ here node, Accounts (Obstructs here node v) (inside here node).fault) :
    Accounts (ObstructsAt path schema properties (key, v))
      (unknownAt path schema properties key inside).fault := by
  rw [unknownAt]
  by_cases hway : isUnwritable path key = true
  · rw [if_pos hway]
    exact accounts_some (.inl (.way hway))
  rw [if_neg hway]
  rw [Bool.not_eq_true] at hway
  split
  case h_1 f hf => exact accounts_some (.inl (.lookup hway (.inl hf)))
  case h_2 htrue =>
    split
    case h_1 f hf => exact accounts_some (.inl (.lookup hway (.inr ⟨htrue, hf⟩)))
    case h_2 node hnode =>
      have hfinds : Finds properties key node := ⟨htrue, hnode⟩
      refine (hinside (entryPath path key) node).congr fun f => ⟨fun h => ?_, ?_⟩
      · exact .inr ⟨hway, node, hfinds, h⟩
      · rintro (h | ⟨-, node', hnode', h⟩)
        · cases h with
          | way hway' => cases hway.symm.trans hway'
          | lookup _ h => exact (hfinds.not_baffles h).elim
          | shown _ hunknown => exact (not_finds_of_holds hunknown hfinds).elim
        · exact hfinds.unique hnode' ▸ h
  case h_3 hunknown =>
    have hbeyond {f : Fault} (h : ObstructsAt path schema properties (key, v) f) :
        holds schema (.text "additionalProperties") = .ok false ∧
          (entryPath path key).isOverlong = true := by
      rcases h with h | ⟨-, node, hnode, -⟩
      · cases h with
        | way hway' => cases hway.symm.trans hway'
        | lookup _ h => exact (not_baffles_of_holds hunknown h).elim
        | shown _ _ hfurther hlong => exact ⟨hfurther, hlong⟩
      · exact (not_finds_of_holds hunknown hnode).elim
    split
    case h_1 f hf =>
      obtain ⟨b, hb⟩ := holds_text (t := "additionalProperties") hlisted.1
      cases hb.symm.trans hf
    case h_2 hfurther =>
      refine accounts_none fun f h => ?_
      cases hfurther.symm.trans (hbeyond h).1
    case h_3 hfurther =>
      split
      case isTrue hlong => exact accounts_some (.inl (.shown hway hunknown hfurther hlong))
      case isFalse hshort => exact accounts_none fun f h => hshort (hbeyond h).2

mutual
/-- The search ends with the fault of an obstacle, if there is any. -/
theorem accounts_unknown : ∀ (v path schema : Value),
    Accounts (Obstructs path schema v) (unknown path schema v).fault
  | .map entries, path, schema => by
    rw [unknown]
    split
    case h_1 f hf => exact accounts_some (.listing (.inl hf))
    case h_2 hfalse =>
      refine accounts_none fun f h => ?_
      cases h with
      | listing h => exact not_baffles_of_holds hfalse h
      | entry hlisted => exact not_finds_of_holds hfalse hlisted
      | within hlisted => exact not_finds_of_holds hfalse hlisted
    case h_3 htrue =>
      split
      case h_1 f hf => exact accounts_some (.listing (.inr ⟨htrue, hf⟩))
      case h_2 properties hproperties =>
        exact (accounts_unknownEntries entries ⟨htrue, hproperties⟩).congr fun f =>
          (obstructs_map_iff ⟨htrue, hproperties⟩).symm
  | .null, _, _ | .bool _, _, _ | .int _, _, _ | .float _, _, _
  | .text _, _, _ | .bytes _, _, _ | .buffer _, _, _
  | .list _, _, _ | .tuple _, _, _ | .set _, _, _ | .moment _, _, _ | .model _, _, _
  | .bank _, _, _ | .fileRef _, _, _ | .dataRef _, _, _
  | .path _, _, _ => accounts_none fun _ h => nomatch h

theorem accounts_unknownEntries : ∀ (entries : List (Value × Value)) {path schema properties : Value},
    Finds schema (.text "properties") properties →
    Accounts (fun f => ∃ e ∈ entries, ObstructsAt path schema properties e f)
      (unknownEntries path schema properties entries).fault
  | [], _, _, _, _ => accounts_none fun _ ⟨_, he, _⟩ => nomatch he
  | (key, v) :: rest, path, schema, properties, hlisted => by
    have hhere : Accounts (ObstructsAt path schema properties (key, v)) (unknownAt path schema
        properties key fun here inner => unknown here inner v).fault :=
      accounts_unknownAt hlisted fun here node => accounts_unknown v here node
    rw [unknownEntries]
    refine (hhere.append (accounts_unknownEntries rest hlisted)).congr fun f => ?_
    simp only [List.mem_cons, exists_eq_or_imp]
end

end Search

theorem ending_reportUnknown (schema : Value.Entries) (v : Value) (w : Workspace) :
    (reportUnknown (.map schema) v).ending w =
      match (unknown (.text "") (.map schema) v).fault with
      | some f => .error f
      | none => .ok () := by
  by_cases hlists : (schema.getText? "properties").isSome = true
  · exact ends_reportUnknown v hlists w
  · rw [Bool.not_eq_true, Option.isSome_eq_false_iff, Option.isNone_iff_eq_none] at hlists
    rw [unknown_of_none hlists, reportUnknown]
    dsimp only
    rw [hlists]
    rfl

/-! ## Obstacles in schemas that can be read -/

def truthFault : Fault := .system (.wrongType "argument of type 'bool' is not iterable")

theorem finds_map_iff {es : Value.Entries} {name found : Value} :
    Finds (.map es) name found ↔ es.get? name = some found := by
  rw [Finds, holds, part]
  cases es.get? name <;> simp

/-- Mappings can be asked for everything. -/
theorem not_baffles_map {es : Value.Entries} {name : Value} {f : Fault} :
    ¬ Baffles (.map es) name f := by
  rintro (h | ⟨htrue, h⟩)
  · cases h
  · rw [holds] at htrue
    rw [part] at h
    cases hfound : es.get? name with
    | none =>
      rw [hfound] at htrue
      cases htrue
    | some v =>
      rw [hfound] at h
      cases h

/-- What schemas that can be read list are schemas again. -/
theorem IsSchemaTree.listed {schema properties : Value} (h : IsSchemaTree schema)
    (hlisted : Finds schema (.text "properties") properties) :
    ∃ ps : Value.Entries, properties = .map ps ∧ ∀ e ∈ ps, IsSchemaTree e.2 := by
  cases h with
  | truth b => cases hlisted.1
  | leaf hnone => cases (finds_map_iff.mp hlisted).symm.trans hnone
  | node hsome hps =>
    cases (finds_map_iff.mp hlisted).symm.trans hsome
    exact ⟨_, rfl, hps⟩

/-- In a schema that can be read, only truth values and integers too long to be written obstruct. -/
theorem fault_of_obstructs {path schema v : Value} {f : Fault} (h : Obstructs path schema v f)
    (hschema : IsSchemaTree schema) : f = truthFault ∨ f = .system .overlongInteger := by
  induction h with
  | listing h =>
    cases hschema with
    | truth b =>
      rcases h with h | ⟨h, -⟩
      · exact .inl (Except.error.inj h).symm
      · cases h
    | leaf | node => exact (not_baffles_map h).elim
  | entry hlisted hentry h =>
    cases h with
    | way | shown => exact .inr rfl
    | lookup _ h =>
      obtain ⟨ps, rfl, -⟩ := hschema.listed hlisted
      exact (not_baffles_map h).elim
  | within hlisted hentry hway hnode h ih =>
    obtain ⟨ps, rfl, hps⟩ := hschema.listed hlisted
    obtain ⟨e, he, rfl⟩ := Option.map_eq_some_iff.mp (finds_map_iff.mp hnode)
    exact ih (hps e (List.mem_of_find?_eq_some he))

end FirmwareKit.Schema

namespace FirmwareKit.Validation
open Schema

/-! ## Validations -/

def reporting (c : Validation) : Validation := { c with reportsUnknown := true }

/-- A validation that reports unknown entries ends as one that does not, unless something obstructs
the search for them; then it ends with the fault of such an obstacle. -/
theorem run_reporting (V : Validator) (c : Validation) (keyed : Bool) (v : Value) :
    (((∀ f, ¬ Obstructs (.text "") (mergeAll c.parts) v f) ∧
        ∀ w, (c.reporting.run V keyed v).ending w = (c.unreporting.run V keyed v).ending w) ∨
      ∃ f, Obstructs (.text "") (mergeAll c.parts) v f ∧
        ∀ w, (c.reporting.run V keyed v).ending w = .error f) ∧
    ∀ rules, compile (mergeAll c.parts) = .ok rules →
      ∀ f, Obstructs (.text "") (mergeAll c.parts) v f →
        f = truthFault ∨ f = .system .overlongInteger := by
  refine ⟨?_, fun rules hrules f hf => fault_of_obstructs hf (tree_of_compile hrules)⟩
  have hrun : c.reporting.run V keyed v =
      reportUnknown (mergeAll c.parts) v >>= fun _ => c.unreporting.run V keyed v :=
    (run_eq V c.reporting keyed v).trans (if_pos rfl)
  obtain ⟨es, hes⟩ := mergeAll_map c.parts
  have haccounts := accounts_unknown v (.text "") (mergeAll c.parts)
  rw [hrun]
  rcases haccounts with ⟨hnone, hnot⟩ | ⟨f, hfault, hf⟩
  · refine .inl ⟨hnot, fun w => Run.Inquires.ending_bind (a := ())
      (k := fun _ => c.unreporting.run V keyed v) (inquires_run V c keyed v)
      (reads_reportUnknown _ _) ?_⟩
    rw [hes] at hnone ⊢
    rw [ending_reportUnknown, hnone]
  · refine .inr ⟨f, hf, fun w => Run.ending_bind_of_error ?_⟩
    rw [hes] at hfault ⊢
    rw [ending_reportUnknown, hfault]

/-- A misspelt entry of a section does not change how a validation ends. -/
theorem run_reporting_section :
    compile (mergeAll [sectionSchema]) =
        .ok [.properties [("memory", [.properties [("heap", [], none)]], none)]] ∧
      (∀ w, ((reporting ⟨[sectionSchema], [], false, false⟩).run standard false
          (.map [(.text "memory", .map [(.text "hepa", .int 1)])])).ending w =
        ((unreporting ⟨[sectionSchema], [], false, false⟩).run standard false
          (.map [(.text "memory", .map [(.text "hepa", .int 1)])])).ending w) ∧
      ∀ f, Obstructs (.text "") (mergeAll [sectionSchema])
          (.map [(.text "memory", .map [(.text "hepa", .int 1)])]) f →
        f = truthFault ∨ f = .system .overlongInteger := by
  have hcompile : compile (mergeAll [sectionSchema]) =
      .ok [.properties [("memory", [.properties [("heap", [], none)]], none)]] := rfl
  obtain ⟨hends, hfaults⟩ := run_reporting standard ⟨[sectionSchema], [], false, false⟩ false
    (.map [(.text "memory", .map [(.text "hepa", .int 1)])])
  refine ⟨hcompile, ?_, hfaults _ hcompile⟩
  rcases hends with ⟨-, hsame⟩ | ⟨f, hf, -⟩
  · exact hsame
  · have hsearch := accounts_unknown (.map [(.text "memory", .map [(.text "hepa", .int 1)])])
      (.text "") (mergeAll [sectionSchema])
    rcases hsearch with ⟨-, hnot⟩ | ⟨g, hg, -⟩
    · exact (hnot f hf).elim
    · cases hg

/-- A section whose schema is a truth value ends a validation that reports unknown entries. -/
theorem run_reporting_truth :
    compile (mergeAll [.map [(.text "properties", .map [(.text "a", .bool true)])]]) =
        .ok [.properties [("a", [], none)]] ∧
      ((unreporting ⟨[.map [(.text "properties", .map [(.text "a", .bool true)])]], [], false,
        false⟩).run standard false (.map [(.text "a", .map [])])).ending .bare = .ok () ∧
      ((reporting ⟨[.map [(.text "properties", .map [(.text "a", .bool true)])]], [], false,
        false⟩).run standard false (.map [(.text "a", .map [])])).ending .bare = .error truthFault :=
  ⟨rfl, rfl, rfl⟩

end FirmwareKit.Validation
