import FirmwareKit.Proofs.Schema.Frame
import FirmwareKit.Proofs.Value.Address
set_option autoImplicit false

namespace FirmwareKit.Schema
open Value (along? namePaths entriesNamePaths)

/-! ## Schemas along paths -/

def properties? : Value → Option Value.Entries
  | .map es =>
    match Value.Entries.getText? es "properties" with
    | some (.map ps) => some ps
    | _ => none
  | _ => none

def node? : Value → List String → Option Value
  | schema, [] => some schema
  | schema, name :: rest =>
    ((properties? schema).bind fun ps => Value.Entries.getText? ps name).bind fun node =>
      node? node rest

/-- The schema lists properties, but not this one, and says nothing of further ones. -/
def disowns (schema : Value) (name : String) : Bool :=
  match schema with
  | .map es =>
    match properties? schema with
    | some ps =>
      (Value.Entries.getText? ps name).isNone &&
        (Value.Entries.getText? es "additionalProperties").isNone
    | none => false
  | _ => false

def IsUnknown (schema v : Value) (path : List String) : Prop :=
  (∃ names name node, path = names ++ [name] ∧ node? schema names = some node ∧
    disowns node name = true) ∧ ∃ w, along? v path = some w

inductive IsObjectTree : Value → Prop
  | leaf {es : Value.Entries} (h : es.getText? "properties" = none) : IsObjectTree (.map es)
  | node {es ps : Value.Entries} (h : es.getText? "properties" = some (.map ps))
    (hps : ∀ name schema, ps.getText? name = some schema → IsObjectTree schema) :
    IsObjectTree (.map es)

def isDisowned (schema : Value) : List String → Bool
  | [] => false
  | [name] => disowns schema name
  | name :: rest =>
    match (properties? schema).bind fun ps => Value.Entries.getText? ps name with
    | some node => isDisowned node rest
    | none => false

theorem isDisowned_cons (schema : Value) (name : String) {rest : List String} (h : rest ≠ []) :
    isDisowned schema (name :: rest) =
      match (properties? schema).bind fun ps => Value.Entries.getText? ps name with
      | some node => isDisowned node rest
      | none => false := by
  cases rest with
  | nil => exact absurd rfl h
  | cons next rest => rfl

theorem isDisowned_append (schema : Value) (names : List String) (name : String) :
    isDisowned schema (names ++ [name]) =
      match node? schema names with
      | some node => disowns node name
      | none => false := by
  induction names generalizing schema with
  | nil => rfl
  | cons first rest ih =>
    rw [List.cons_append, isDisowned_cons schema first (by simp), node?]
    cases (properties? schema).bind fun ps => Value.Entries.getText? ps first with
    | none => rfl
    | some node => exact ih node

theorem isDisowned_iff (schema : Value) (path : List String) :
    isDisowned schema path = true ↔
      ∃ names name node, path = names ++ [name] ∧ node? schema names = some node ∧
        disowns node name = true := by
  constructor
  · intro h
    rcases List.eq_nil_or_concat path with rfl | ⟨names, name, rfl⟩
    · cases h
    · rw [List.concat_eq_append, isDisowned_append] at h
      cases hnode : node? schema names with
      | none =>
        rw [hnode] at h
        cases h
      | some node =>
        rw [hnode] at h
        exact ⟨names, name, node, List.concat_eq_append, hnode, h⟩
  · rintro ⟨names, name, node, rfl, hnode, h⟩
    rw [isDisowned_append, hnode]
    exact h

/-! ## Paths in texts -/

def shown (path : List String) : String := "/".intercalate path

theorem shown_cons (name : String) {rest : List String} (h : rest ≠ []) :
    shown (name :: rest) = name ++ "/" ++ shown rest := by
  cases rest with
  | nil => exact absurd rfl h
  | cons next rest => exact String.intercalate_cons_cons

theorem shown_append (names : List String) (h : names ≠ []) (name : String) :
    shown (names ++ [name]) = shown names ++ "/" ++ name := by
  induction names with
  | nil => exact absurd rfl h
  | cons first rest ih =>
    by_cases hrest : rest = []
    · subst hrest
      exact String.intercalate_cons_cons
    · rw [List.cons_append, shown_cons first (by simp), ih hrest, shown_cons first hrest]
      simp only [String.append_assoc]

/-- No name of the path is empty, so a path that is shown as nothing has no names. -/
theorem shown_isEmpty {names : List String} (h : ∀ n ∈ names, n ≠ "") :
    (shown names).isEmpty = names.isEmpty := by
  cases names with
  | nil => rfl
  | cons first rest =>
    have hfirst := h first List.mem_cons_self
    by_cases hrest : rest = []
    · subst hrest
      simpa [shown] using hfirst
    · rw [shown_cons first hrest]
      simp [hfirst]

theorem entryPath_shown {names : List String} (h : ∀ n ∈ names, n ≠ "") (name : String) :
    entryPath (.text (shown names)) (.text name) = .text (shown (names ++ [name])) := by
  rw [entryPath, Value.isTruthy, shown_isEmpty h]
  cases names with
  | nil => exact congrArg Value.text String.intercalate_singleton.symm
  | cons first rest =>
    exact congrArg Value.text (shown_append _ (List.cons_ne_nil first rest) name).symm

/-! ## The search -/

def isName : Value → Bool
  | .text s => s ≠ ""
  | _ => false

section Search
variable {es ps : Value.Entries} (hlisted : es.getText? "properties" = some (.map ps))
include hlisted

theorem properties?_of_listed : properties? (.map es) = some ps := by
  rw [properties?, hlisted]

theorem disowns_of_listed (name : String) :
    disowns (.map es) name =
      ((ps.getText? name).isNone && (es.getText? "additionalProperties").isNone) := by
  rw [disowns, properties?_of_listed hlisted]

theorem isDisowned_of_listed (name : String) {rest : List String} (h : rest ≠ []) :
    isDisowned (.map es) (name :: rest) =
      match ps.getText? name with
      | some node => isDisowned node rest
      | none => false := by
  rw [isDisowned_cons _ _ h, properties?_of_listed hlisted]
  rfl

theorem unknown_of_listed (path : Value) (entries : Value.Entries) :
    unknown path (.map es) (.map entries) = unknownEntries path (.map es) (.map ps) entries := by
  have hfound : es.get? (.text "properties") = some (.map ps) := hlisted
  rw [unknown, holds, hfound]
  dsimp only [Option.isSome_some]
  rw [part, hfound]

end Search

theorem isDisowned_of_none {es : Value.Entries} (h : es.getText? "properties" = none)
    (path : List String) : isDisowned (.map es) path = false := by
  have hnone : properties? (.map es) = none := by rw [properties?, h]
  rcases path with _ | ⟨name, _ | ⟨next, rest⟩⟩
  · rfl
  · rw [isDisowned, disowns, hnone]
  · rw [isDisowned_cons _ _ (List.cons_ne_nil next rest), hnone]
    rfl

theorem unknown_of_none {es : Value.Entries} (h : es.getText? "properties" = none)
    (path v : Value) : unknown path (.map es) v = ⟨[], none⟩ := by
  have hnone : es.get? (.text "properties") = none := h
  cases v with
  | map entries =>
    rw [unknown, holds, hnone]
    rfl
  | _ => rfl

/-- What is found at an entry with a name, behind a path that is a text. -/
theorem unknownAt_name (path : String) (es ps : Value.Entries) (name : String)
    (inside : Value → Value → Findings) :
    unknownAt (.text path) (.map es) (.map ps) (.text name) inside =
      match ps.getText? name with
      | some node => inside (entryPath (.text path) (.text name)) node
      | none =>
        if (es.getText? "additionalProperties").isSome then ⟨[], none⟩
        else ⟨[(entryPath (.text path) (.text name)).display], none⟩ := by
  have hwritable : isUnwritable (.text path) (.text name) = false := by
    simp [isUnwritable, Value.isOverlong]
  have hshort : (entryPath (.text path) (.text name)).isOverlong = false := by
    rw [entryPath]
    split <;> rfl
  have hlisted : holds (.map ps) (.text name) = .ok (ps.getText? name).isSome := rfl
  have hfurther : holds (.map es) (.text "additionalProperties") =
      .ok (es.getText? "additionalProperties").isSome := rfl
  rw [unknownAt, hwritable, hlisted, hfurther, hshort]
  simp only [Bool.false_eq_true, if_false]
  cases hname : ps.getText? name with
  | some node =>
    have hnode : ps.get? (.text name) = some node := hname
    simp only [Option.isSome_some, part, hnode]
  | none =>
    by_cases hsome : (es.getText? "additionalProperties").isSome = true
    · simp only [Option.isSome_none, hsome, if_true]
    · simp only [Option.isSome_none, hsome, Bool.false_eq_true, if_false]

/-- What is found below a path: the paths behind it that are disowned. -/
def disowned (before : List String) (schema : Value) (paths : List (List String)) : Findings :=
  ⟨(paths.filter (isDisowned schema)).map fun path => shown (before ++ path), none⟩

theorem disowned_append (before : List String) (schema : Value) (xs ys : List (List String)) :
    disowned before schema (xs ++ ys) =
      (disowned before schema xs).append (disowned before schema ys) := by
  rw [disowned, List.filter_append, List.map_append]
  rfl

/-- What is disowned of an entry: what its own schema disowns, or it itself. -/
theorem disowned_entry {es ps : Value.Entries} (hlisted : es.getText? "properties" = some (.map ps))
    (before : List String) (name : String) {paths : List (List String)}
    (hpaths : ∀ path ∈ paths, path ≠ []) :
    disowned before (.map es) ([name] :: paths.map (name :: ·)) =
      match ps.getText? name with
      | some node => disowned (before ++ [name]) node paths
      | none =>
        if (es.getText? "additionalProperties").isSome then ⟨[], none⟩
        else ⟨[shown (before ++ [name])], none⟩ := by
  have hself : isDisowned (.map es) [name] = disowns (.map es) name := rfl
  rw [disowned, List.filter_cons, hself, disowns_of_listed hlisted, List.filter_map]
  cases hname : ps.getText? name with
  | some node =>
    have hfilter : paths.filter (isDisowned (.map es) ∘ (name :: ·)) =
        paths.filter (isDisowned node) :=
      List.filter_congr fun path hpath => by
        rw [Function.comp_apply, isDisowned_of_listed hlisted name (hpaths path hpath), hname]
    rw [hfilter]
    simp [disowned]
  | none =>
    have hfilter : paths.filter (isDisowned (.map es) ∘ (name :: ·)) = [] :=
      List.filter_eq_nil_iff.mpr fun path hpath => by
        rw [Function.comp_apply, isDisowned_of_listed hlisted name (hpaths path hpath), hname]
        exact Bool.false_ne_true
    rw [hfilter]
    cases es.getText? "additionalProperties" <;> rfl

mutual
/-- Below a schema that is a tree of mappings exactly the disowned paths are found. -/
theorem unknown_eq : ∀ (v : Value), v.allKeys isName = true → ∀ {schema : Value},
    IsObjectTree schema → ∀ {before : List String}, (∀ n ∈ before, n ≠ "") →
    unknown (.text (shown before)) schema v = disowned before schema (namePaths v)
  | .map entries, hkeys, _, hschema, before, hbefore => by
    cases hschema with
    | @leaf es hnone =>
      rw [unknown_of_none hnone, disowned, List.filter_eq_nil_iff.mpr]
      · rfl
      · exact fun path _ => by rw [isDisowned_of_none hnone]; exact Bool.false_ne_true
    | @node es ps hlisted hps =>
      rw [unknown_of_listed hlisted]
      exact unknownEntries_eq entries ((Value.allKeys_map_iff _ _).mp hkeys) hlisted hps hbefore
  | .null, _, _, _, _, _ | .bool _, _, _, _, _, _ | .int _, _, _, _, _, _ | .float _, _, _, _, _, _
  | .text _, _, _, _, _, _ | .bytes _, _, _, _, _, _ | .buffer _, _, _, _, _, _
  | .list _, _, _, _, _, _ | .tuple _, _, _, _, _, _ | .set _, _, _, _, _, _
  | .moment _, _, _, _, _, _ | .model _, _, _, _, _, _ | .bank _, _, _, _, _, _
  | .fileRef _, _, _, _, _, _ | .dataRef _, _, _, _, _, _ | .path _, _, _, _, _, _ => by
    cases ‹IsObjectTree _› <;> rfl

theorem unknownEntries_eq : ∀ (entries : List (Value × Value)),
    (∀ e ∈ entries, isName e.1 = true ∧ e.2.allKeys isName = true) → ∀ {es ps : Value.Entries},
    es.getText? "properties" = some (.map ps) →
    (∀ name node, ps.getText? name = some node → IsObjectTree node) →
    ∀ {before : List String}, (∀ n ∈ before, n ≠ "") →
    unknownEntries (.text (shown before)) (.map es) (.map ps) entries =
      disowned before (.map es) (entriesNamePaths entries)
  | [], _, _, _, _, _, _, _ => rfl
  | (key, v) :: rest, hkeys, es, ps, hlisted, hps, before, hbefore => by
    obtain ⟨⟨hkey, hv⟩, hrest⟩ := List.forall_mem_cons.mp hkeys
    cases key with
    | text name =>
      have hname : name ≠ "" := of_decide_eq_true hkey
      have hnames : ∀ n ∈ before ++ [name], n ≠ "" :=
        List.forall_mem_append.mpr ⟨hbefore, by simpa using hname⟩
      have hhere : unknownAt (.text (shown before)) (.map es) (.map ps) (.text name)
          (fun here inner => unknown here inner v) =
            disowned before (.map es) ([name] :: (namePaths v).map (name :: ·)) := by
        rw [unknownAt_name, entryPath_shown hbefore,
          disowned_entry hlisted before name fun _ => Value.ne_nil_of_mem_namePaths]
        cases hnode : ps.getText? name with
        | some node => exact unknown_eq v hv (hps name node hnode) hnames
        | none => rfl
      rw [unknownEntries, hhere, unknownEntries_eq rest hrest hlisted hps hbefore, entriesNamePaths,
        disowned_append]
      rfl
    | _ => cases hkey
end

/-! ## Warnings -/

theorem forM_note (paths : List String) (w : Workspace) :
    (paths.forM fun path => Run.note (unknownNote path)) w =
      .ok () (w.noting (paths.map unknownNote)) := by
  induction paths generalizing w with
  | nil => exact congrArg (EStateM.Result.ok ()) w.noting_nil.symm
  | cons path rest ih =>
    have hnote : Run.note (unknownNote path) w = .ok () (w.noting [unknownNote path]) := rfl
    change (Run.note (unknownNote path) >>= fun _ => rest.forM _) w = _
    rw [bind_of_ok hnote, ih, Workspace.noting_noting]
    rfl

/-- A search that ends without a fault leaves a warning for each path that it finds. -/
theorem reportUnknown_of_found {schema : Value.Entries} {v : Value} {paths : List String}
    (h : unknown (.text "") (.map schema) v = ⟨paths, none⟩) (w : Workspace) :
    reportUnknown (.map schema) v w = .ok () (w.noting (paths.map unknownNote)) := by
  rw [reportUnknown]
  dsimp only
  split
  · rw [h, bind_of_ok (forM_note paths w)]
    rfl
  case isFalse hnone =>
    rw [Bool.not_eq_true, Option.isSome_eq_false_iff, Option.isNone_iff_eq_none] at hnone
    rw [unknown_of_none hnone] at h
    cases h
    exact congrArg (EStateM.Result.ok ()) w.noting_nil.symm

theorem warnings_noting (w : Workspace) (paths : List String) :
    (w.noting (paths.map unknownNote)).warnings = w.warnings ++ paths.map unknownNote := by
  have hall : (paths.map unknownNote).filter (fun n => n.level = .warning) =
      paths.map unknownNote := by
    rw [List.filter_eq_self]
    intro n hn
    obtain ⟨path, -, rfl⟩ := List.mem_map.mp hn
    rfl
  rw [Workspace.warnings, Workspace.noting, List.filter_append, hall]
  rfl

def sectionSchema : Value :=
  .map [(.text "properties", .map [(.text "memory",
    .map [(.text "properties", .map [(.text "heap", .map [])])])])]

end FirmwareKit.Schema

namespace FirmwareKit.Validation
open Schema
open Value (namePaths)

/-- The warnings of a validation that reports unknown entries are one for the path of each, in the
order of the document. -/
theorem run_warnings (V : Validator) (c : Validation) (keyed : Bool) (v : Value) (w : Workspace)
    (hreports : c.reportsUnknown = true) (hschema : IsObjectTree (mergeAll c.parts))
    (hproper : v.isProper = true) (hkeys : v.allKeys isName = true) :
    ∃ paths : List (List String),
      (left (c.run V keyed v) w).warnings =
          w.warnings ++ paths.map (fun path => unknownNote (shown path)) ∧
        paths.Sublist (namePaths v) ∧ paths.Nodup ∧
        ∀ path, path ∈ paths ↔ IsUnknown (mergeAll c.parts) v path := by
  let paths := (namePaths v).filter (isDisowned (mergeAll c.parts))
  obtain ⟨es, hes⟩ : ∃ es, mergeAll c.parts = .map es := by
    cases h : mergeAll c.parts <;> rw [h] at hschema <;> cases hschema <;> exact ⟨_, rfl⟩
  have hfound : unknown (.text "") (mergeAll c.parts) v = ⟨paths.map shown, none⟩ :=
    unknown_eq v hkeys hschema (List.forall_mem_nil fun n => n ≠ "")
  refine ⟨paths, ?_, List.filter_sublist, (Value.nodup_namePaths v hproper).filter _, fun path => ?_⟩
  · have hreported : reportUnknown (mergeAll c.parts) v w =
        .ok () (w.noting ((paths.map shown).map unknownNote)) := by
      rw [hes] at hfound ⊢
      exact reportUnknown_of_found hfound w
    have hrest := (inquires_run V c keyed v).warnings
      (w.noting ((paths.map shown).map unknownNote))
    rw [run_eq, if_pos hreports, left, bind_of_ok hreported]
    change Workspace.warnings (left _ _) = _
    rw [hrest, warnings_noting, List.map_map]
    rfl
  · rw [List.mem_filter, Value.mem_namePaths_iff hproper, isDisowned_iff, IsUnknown]
    constructor
    · rintro ⟨⟨-, hvalue⟩, hdisowned⟩
      exact ⟨hdisowned, hvalue⟩
    · rintro ⟨hdisowned, hvalue⟩
      refine ⟨⟨?_, hvalue⟩, hdisowned⟩
      obtain ⟨names, name, _, rfl, -⟩ := hdisowned
      simp

/-- A misspelt entry of the section is warned of. -/
theorem run_warnings_section :
    ∃ paths : List (List String),
      (left (run standard ⟨[sectionSchema], [], true, false⟩ false
        (.map [(.text "memory", .map [(.text "hepa", .int 1)])])) Workspace.bare).warnings =
          paths.map (fun path => unknownNote (shown path)) ∧
        ["memory", "hepa"] ∈ paths := by
  have hheap : IsObjectTree (.map []) := .leaf rfl
  have hmemory : IsObjectTree (.map [(.text "properties", .map [(.text "heap", .map [])])]) :=
    .node rfl fun _ _ hname => by
      cases List.mem_singleton.mp (Value.Entries.mem_of_getText? hname)
      exact hheap
  have hschema : IsObjectTree (mergeAll [sectionSchema]) :=
    .node rfl fun _ _ hname => by
      cases List.mem_singleton.mp (Value.Entries.mem_of_getText? hname)
      exact hmemory
  obtain ⟨paths, hwarnings, -, -, hpaths⟩ := run_warnings standard ⟨[sectionSchema], [], true, false⟩
    false (.map [(.text "memory", .map [(.text "hepa", .int 1)])]) Workspace.bare rfl hschema
    (by decide) (by decide)
  refine ⟨paths, hwarnings, (hpaths _).mpr ⟨⟨["memory"], "hepa", _, rfl, rfl, rfl⟩, _, rfl⟩⟩

end FirmwareKit.Validation
