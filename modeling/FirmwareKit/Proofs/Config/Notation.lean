import FirmwareKit.Proofs.Config.Parts
set_option autoImplicit false

namespace FirmwareKit.LinkConfig
open Schema Fault

/-- An integer that has a text, and some text that reads as it. -/
inductive Renoted : Value → Value → Prop
  | same (v : Value) : Renoted v v
  | written {n : Nat} {s : String} (hn : n < Nat.pow 10 Value.greatestDigitCount)
      (hs : (Value.text s).toInt? = some (n : Int)) : Renoted (.int n) (.text s)

inductive RenotedItems : Value → Value → Prop
  | same (v : Value) : RenotedItems v v
  | list {xs ys : List Value} (h : List.Forall₂ Renoted xs ys) : RenotedItems (.list xs) (.list ys)
  | tuple {xs ys : List Value} (h : List.Forall₂ Renoted xs ys) :
    RenotedItems (.tuple xs) (.tuple ys)

def Entrywise (R : Value → Value → Value → Prop) (es ds : Value.Entries) : Prop :=
  List.Forall₂ (fun e d => e.1 = d.1 ∧ R e.1 e.2 d.2) es ds

inductive InMapping (R : Value → Value → Value → Prop) : Value → Value → Prop
  | same (v : Value) : InMapping R v v
  | map {es ds : Value.Entries} (h : Entrywise R es ds) : InMapping R (.map es) (.map ds)

inductive RenotedMemory : Value → Value → Value → Prop
  | same (key v : Value) : RenotedMemory key v v
  | layout {v w : Value} (h : InMapping (fun _ => RenotedItems) v w) :
    RenotedMemory (.text "layout") v w

inductive RenotedRom : Value → Value → Value → Prop
  | same (key v : Value) : RenotedRom key v v
  | start {v w : Value} (h : Renoted v w) : RenotedRom (.text "start") v w
  | length {v w : Value} (h : Renoted v w) : RenotedRom (.text "length") v w

inductive RenotedPart : Value → Value → Value → Prop
  | same (key v : Value) : RenotedPart key v v
  | memory {v w : Value} (h : InMapping RenotedMemory v w) : RenotedPart (.text "memory") v w
  | rom {v w : Value} (h : InMapping RenotedRom v w) : RenotedPart (.text "rom") v w
  | constants {v w : Value} (h : InMapping (fun _ => Renoted) v w) :
    RenotedPart (.text "constants") v w

/-! Entries that are related one by one -/

namespace Entrywise
variable {R : Value → Value → Value → Prop} {es ds : Value.Entries}

theorem refl (hR : ∀ key v, R key v v) (es : Value.Entries) : Entrywise R es es :=
  List.forall₂_same.mpr fun e _ => ⟨rfl, hR e.1 e.2⟩

theorem get? (h : Entrywise R es ds) (key : Value) :
    Option.Rel (fun v w => ∃ k, k.sameKey key = true ∧ R k v w) (es.get? key) (ds.get? key) := by
  induction h with
  | nil => exact .none
  | @cons e d es ds hed _ ih =>
    rw [Value.Entries.get?_cons, Value.Entries.get?_cons, ← hed.1]
    by_cases hkey : e.1.sameKey key = true
    · rw [if_pos hkey, if_pos hkey]
      exact .some ⟨e.1, hkey, hed.2⟩
    · rw [if_neg hkey, if_neg hkey]
      exact ih

theorem getText? (h : Entrywise R es ds) (name : String) :
    Option.Rel (R (.text name)) (es.getText? name) (ds.getText? name) := by
  have hrel := h.get? (.text name)
  rw [Value.Entries.getText?, Value.Entries.getText?]
  generalize es.get? (.text name) = v?, ds.get? (.text name) = w? at hrel
  cases hrel with
  | none => exact .none
  | some hv =>
    obtain ⟨key, hkey, hR⟩ := hv
    obtain rfl := (Value.sameKey_text_iff key name).mp hkey
    exact .some hR

theorem keys (h : Entrywise R es ds) : es.map Prod.fst = ds.map Prod.fst := by
  induction h with
  | nil => rfl
  | cons hed _ ih => rw [List.map_cons, List.map_cons, hed.1, ih]

theorem any_key (h : Entrywise R es ds) (p : Value → Bool) :
    es.any (fun e => p e.1) = ds.any fun e => p e.1 :=
  Value.any_key_of_keys h.keys p

end Entrywise

/-! What another notation leaves as it is -/

/-- Values that are proper, or too long to be written, together. -/
def Kept (v w : Value) : Prop := v.isProper = w.isProper ∧ v.isOverlong = w.isOverlong

theorem kept_self (v : Value) : Kept v v := ⟨rfl, rfl⟩

theorem kept_items {R : Value → Value → Prop} (hR : ∀ v w, R v w → Kept v w) {xs ys : List Value}
    (h : List.Forall₂ R xs ys) :
    Value.areProper xs = Value.areProper ys ∧ Value.areOverlong xs = Value.areOverlong ys := by
  induction h with
  | nil => exact ⟨rfl, rfl⟩
  | cons hxy _ ih =>
    obtain ⟨hproper, hlong⟩ := hR _ _ hxy
    exact ⟨congrArg₂ _ hproper ih.1, congrArg₂ _ hlong ih.2⟩

theorem kept_map {R : Value → Value → Value → Prop} (hR : ∀ key v w, R key v w → Kept v w)
    {es ds : Value.Entries} (h : Entrywise R es ds) : Kept (.map es) (.map ds) := by
  have hvalues : Value.haveProper es = Value.haveProper ds ∧
      Value.haveOverlong es = Value.haveOverlong ds := by
    induction h with
    | nil => exact ⟨rfl, rfl⟩
    | @cons e d _ _ hed _ ih =>
      obtain ⟨key, v⟩ := e
      obtain ⟨key', w⟩ := d
      obtain ⟨rfl, hvw⟩ := hed
      obtain ⟨hproper, hlong⟩ := hR _ _ _ hvw
      rw [Value.haveProper, Value.haveProper, Value.haveOverlong, Value.haveOverlong, hproper,
        hlong, ih.1, ih.2]
      exact ⟨rfl, rfl⟩
  have hkeys : (es.all fun e => e.1.isKey) = ds.all fun e => e.1.isKey := by
    rw [List.all_eq_not_any_not, List.all_eq_not_any_not, h.any_key fun k => !k.isKey]
  have hdistinct : es.Distinct ↔ ds.Distinct := by
    rw [Value.distinct_iff, Value.distinct_iff, h.keys]
  refine ⟨?_, hvalues.2⟩
  rw [Value.isProper, Value.isProper, hkeys, hvalues.1, decide_eq_decide.mpr hdistinct]

theorem kept_inMapping {R : Value → Value → Value → Prop} (hR : ∀ key v w, R key v w → Kept v w)
    {v w : Value} (h : InMapping R v w) : Kept v w := by
  cases h with
  | same => exact kept_self v
  | map h => exact kept_map hR h

theorem Renoted.kept {v w : Value} (h : Renoted v w) : Kept v w := by
  cases h with
  | same => exact kept_self v
  | @written n s hn _ =>
    refine ⟨rfl, ?_⟩
    change decide (Nat.pow 10 Value.greatestDigitCount ≤ (n : Int).natAbs) = false
    rw [Int.natAbs_natCast]
    exact decide_eq_false (Nat.not_le.mpr hn)

theorem RenotedItems.kept {v w : Value} (h : RenotedItems v w) : Kept v w := by
  cases h with
  | same => exact kept_self v
  | list h | tuple h => exact kept_items (fun _ _ => Renoted.kept) h

theorem RenotedMemory.kept {key v w : Value} (h : RenotedMemory key v w) : Kept v w := by
  cases h with
  | same => exact kept_self v
  | layout h => exact kept_inMapping (fun _ _ _ => RenotedItems.kept) h

theorem RenotedRom.kept {key v w : Value} (h : RenotedRom key v w) : Kept v w := by
  cases h with
  | same => exact kept_self v
  | start h | length h => exact h.kept

theorem RenotedPart.kept {key v w : Value} (h : RenotedPart key v w) : Kept v w := by
  cases h with
  | same => exact kept_self v
  | memory h => exact kept_inMapping (fun _ _ _ => RenotedMemory.kept) h
  | rom h => exact kept_inMapping (fun _ _ _ => RenotedRom.kept) h
  | constants h => exact kept_inMapping (fun _ _ _ => Renoted.kept) h

/-! Where the notation may differ -/

theorem inModel {v w : Value} (h : RenotedMemory (.text "model") v w) : v = w := by
  generalize hkey : Value.text "model" = key at h
  cases h with
  | same => rfl
  | layout => simp at hkey

theorem inLayout {v w : Value} (h : RenotedMemory (.text "layout") v w) :
    InMapping (fun _ => RenotedItems) v w := by
  cases h with
  | same => exact .same v
  | layout h => exact h

theorem inBound {key v w : Value} (h : RenotedRom key v w) : Renoted v w := by
  cases h with
  | same => exact .same v
  | start h | length h => exact h

theorem inMemory {v w : Value} (h : RenotedPart (.text "memory") v w) :
    InMapping RenotedMemory v w := by
  generalize hkey : Value.text "memory" = key at h
  cases h with
  | same => exact .same v
  | memory h => exact h
  | rom | constants => simp at hkey

theorem inRom {v w : Value} (h : RenotedPart (.text "rom") v w) : InMapping RenotedRom v w := by
  generalize hkey : Value.text "rom" = key at h
  cases h with
  | same => exact .same v
  | rom h => exact h
  | memory | constants => simp at hkey

theorem inConstants {v w : Value} (h : RenotedPart (.text "constants") v w) :
    InMapping (fun _ => Renoted) v w := by
  generalize hkey : Value.text "constants" = key at h
  cases h with
  | same => exact .same v
  | constants h => exact h
  | memory | rom => simp at hkey

/-! The checks -/

theorem isNumber_congr {v w : Value} (h : Renoted v w) : isNumber v = isNumber w := by
  cases h with
  | same => rfl
  | @written n s _ hs =>
    have hint : isNumber (.int n) = true := rfl
    have htext : isNumber (.text s) = true := by
      rw [isNumber, readsAsNumber, hs]
      rfl
    rw [hint, htext]

theorem isBounds_congr {v w : Value} (h : RenotedItems v w) : isBounds v = isBounds w := by
  have hitems {xs ys : List Value} (h : List.Forall₂ Renoted xs ys) :
      isBounds (.list xs) = isBounds (.list ys) := by
    cases h with
    | nil => rfl
    | @cons x y xs ys hx h =>
      cases h with
      | nil => rfl
      | @cons x' y' xs ys hx' h =>
        cases h with
        | nil =>
          change (isNumber x && isNumber x') = (isNumber y && isNumber y')
          rw [isNumber_congr hx, isNumber_congr hx']
        | cons => rfl
  cases h with
  | same => rfl
  | list h => exact hitems h
  | tuple h => exact hitems h

theorem onValues_congr {R : Value → Value → Prop} (holds : Value → Bool)
    (hR : ∀ v w, R v w → holds v = holds w) {es ds : Value.Entries}
    (h : Entrywise (fun _ => R) es ds) : onValues es holds = onValues ds holds := by
  induction h with
  | nil => rfl
  | cons hed _ ih =>
    change (demand _ _ >>= fun _ => onValues _ holds) = demand _ _ >>= fun _ => onValues _ holds
    rw [hed.1, hR _ _ hed.2, ih]

theorem InMapping.alike {R : Value → Value → Value → Prop} {verdict : Value.Entries → Verdict}
    (hR : ∀ es ds, Entrywise R es ds → verdict es = verdict ds) {v w : Value}
    (h : InMapping R v w) : Alike (fun v => onMapping v verdict) v w := by
  cases h with
  | same => exact ⟨.rfl, rfl⟩
  | map h => exact ⟨by simp, hR _ _ h⟩

theorem layoutVerdict_congr {v w : Value} (h : InMapping (fun _ => RenotedItems) v w) :
    layoutVerdict v = layoutVerdict w := by
  refine (h.alike fun es ds h => ?_).2
  have hempty : es.isEmpty = ds.isEmpty := by
    cases h <;> rfl
  have hvalues : onValues es isBounds = onValues ds isBounds :=
    onValues_congr isBounds (fun _ _ => isBounds_congr) h
  rw [hempty, hvalues]

theorem memory_alike {v w : Value} (h : InMapping RenotedMemory v w) : Alike memoryVerdict v w := by
  refine h.alike fun es ds h => ?_
  have hmodel : (onEntry (es.getText? "model") fun v => demand false (isModel v)) =
      onEntry (ds.getText? "model") fun v => demand false (isModel v) :=
    onEntry_congr (h.getText? "model") fun _ _ hvw => by rw [inModel hvw]
  have hlayout : onEntry (es.getText? "layout") layoutVerdict =
      onEntry (ds.getText? "layout") layoutVerdict :=
    onEntry_congr (h.getText? "layout") fun _ _ hvw => layoutVerdict_congr (inLayout hvw)
  rw [isSome_congr (h.getText? "layout"), hmodel, hlayout]

theorem rom_alike {v w : Value} (h : InMapping RenotedRom v w) : Alike romVerdict v w := by
  refine h.alike fun es ds h => ?_
  have hbound (name : String) : (onEntry (es.getText? name) fun v => demand false (isNumber v)) =
      onEntry (ds.getText? name) fun v => demand false (isNumber v) :=
    onEntry_congr (h.getText? name) fun _ _ hvw => by rw [isNumber_congr (inBound hvw)]
  rw [isSome_congr (h.getText? "start"), isSome_congr (h.getText? "length"), hbound, hbound]

theorem constants_alike {v w : Value} (h : InMapping (fun _ => Renoted) v w) :
    Alike constantsVerdict v w := by
  refine h.alike fun es ds h => ?_
  exact onValues_congr isNumber (fun _ _ => isNumber_congr) h

theorem RenotedPart.alike {verdict : Value → Verdict} {name : String}
    {R : Value → Value → Value → Prop} (hname : ∀ v w, RenotedPart (.text name) v w → InMapping R v w)
    (hR : ∀ v w, InMapping R v w → Alike verdict v w) {es ds : Value.Entries}
    (h : Entrywise RenotedPart es ds) :
    Option.Rel (Alike verdict) (es.getText? name) (ds.getText? name) := by
  have hrel := h.getText? name
  generalize es.getText? name = v?, ds.getText? name = w? at hrel
  cases hrel with
  | none => exact .none
  | some hvw => exact .some (hR _ _ (hname _ _ hvw))

variable {es ds : Value.Entries}

theorem verdict_renoted (h : Entrywise RenotedPart es ds) : verdict es = verdict ds :=
  verdict_congr (fun _ => (kept_map (fun _ _ _ => RenotedPart.kept) h).2)
    (RenotedPart.alike (fun _ _ => inMemory) (fun _ _ => memory_alike) h)
    (RenotedPart.alike (fun _ _ => inRom) (fun _ _ => rom_alike) h)
    (RenotedPart.alike (fun _ _ => inConstants) (fun _ _ => constants_alike) h)

theorem keysOverlong_congr {R : Value → Value → Value → Prop} {v w : Value} (h : InMapping R v w) :
    keysOverlong v = keysOverlong w := by
  cases h with
  | same => rfl
  | map h => exact h.any_key Value.isOverlong

theorem namesOverlong_renoted (h : Entrywise RenotedPart es ds) :
    namesOverlong es = namesOverlong ds := by
  have hpart {name : String} {R : Value → Value → Value → Prop}
      (hname : ∀ v w, RenotedPart (.text name) v w → InMapping R v w) :
      (es.getText? name).any keysOverlong = (ds.getText? name).any keysOverlong := by
    have hrel := h.getText? name
    generalize es.getText? name = v?, ds.getText? name = w? at hrel
    cases hrel with
    | none => rfl
    | some hvw => exact keysOverlong_congr (hname _ _ hvw)
  rw [namesOverlong, namesOverlong, h.any_key Value.isOverlong, hpart fun _ _ => inMemory,
    hpart fun _ _ => inRom]

/-! The conversion -/

theorem toInt_congr {v w : Value} (h : Renoted v w) : v.toInt none = w.toInt none := by
  cases h with
  | same => rfl
  | @written n s _ hs => rw [toInt_of_toInt? hs, toInt_of_toInt? (v := .int n) rfl]

theorem boundsOf_congr {v w : Value} (h : RenotedItems v w) : boundsOf v = boundsOf w := by
  have hitems {xs ys : List Value} (h : List.Forall₂ Renoted xs ys) :
      (xs.mapM fun x => x.toInt none) = ys.mapM fun y => y.toInt none :=
    Outcome.mapM_congr (h.imp fun _ _ => toInt_congr)
  cases h with
  | same => rfl
  | list h | tuple h => rw [boundsOf, boundsOf, hitems h]

theorem layoutEntries_congr (h : Entrywise (fun _ => RenotedItems) es ds) :
    layoutEntries es = layoutEntries ds := by
  refine Outcome.mapM_congr (h.imp fun e d hed => ?_)
  rw [hed.1, boundsOf_congr hed.2]

theorem constantsOf_congr (h : Entrywise (fun _ => Renoted) es ds) :
    constantsOf es = constantsOf ds := by
  refine Outcome.mapM_congr (h.imp fun e d hed => ?_)
  rw [hed.1, toInt_congr hed.2]

structure Parts.Renoted (p q : Parts) : Prop where
  model : p.model? = q.model?
  layout : Entrywise (fun _ => RenotedItems) p.layout q.layout
  romStart : LinkConfig.Renoted p.romStart q.romStart
  romLength : LinkConfig.Renoted p.romLength q.romLength
  constants : Option.Rel (Entrywise fun _ => LinkConfig.Renoted) p.constants? q.constants?

theorem InMapping.entries {R : Value → Value → Value → Prop} (hR : ∀ key v, R key v v)
    (h : InMapping R (.map es) (.map ds)) : Entrywise R es ds := by
  cases h with
  | same => exact Entrywise.refl hR es
  | map h => exact h

/-- Whatever two entries under one name hold is related like the entries. -/
theorem Entrywise.held {R : Value → Value → Value → Prop} (h : Entrywise R es ds) {name : String}
    {v w : Value} (hv : es.getText? name = some v) (hw : ds.getText? name = some w) :
    R (.text name) v w := by
  have hrel := h.getText? name
  rw [hv, hw] at hrel
  cases hrel with
  | some hvw => exact hvw

theorem Parts.renoted {p q : Parts} (h : Entrywise RenotedPart es ds) (hp : p.In es)
    (hq : q.In ds) : p.Renoted q := by
  obtain ⟨memory, hmemory, hmodel, hlayout⟩ := hp.memory
  obtain ⟨memory', hmemory', hmodel', hlayout'⟩ := hq.memory
  obtain ⟨rom, hrom, hstart, hlength⟩ := hp.rom
  obtain ⟨rom', hrom', hstart', hlength'⟩ := hq.rom
  have hinMemory : Entrywise RenotedMemory memory memory' :=
    (inMemory (h.held hmemory hmemory')).entries .same
  have hinRom : Entrywise RenotedRom rom rom' := (inRom (h.held hrom hrom')).entries .same
  refine ⟨?_, (inLayout (hinMemory.held hlayout hlayout')).entries fun _ => .same,
    inBound (hinRom.held hstart hstart'), inBound (hinRom.held hlength hlength'), ?_⟩
  · have hrel := hinMemory.getText? "model"
    rw [hmodel, hmodel'] at hrel
    generalize p.model? = s?, q.model? = t? at hrel
    obtain _ | s := s? <;> obtain _ | t := t? <;> obtain hst | _ := hrel
    · rfl
    · exact congrArg some (Value.text.inj (inModel hst))
  · have hrel := h.getText? "constants"
    rw [hp.constants, hq.constants] at hrel
    generalize p.constants? = s?, q.constants? = t? at hrel
    obtain _ | s := s? <;> obtain _ | t := t? <;> obtain hst | _ := hrel
    · exact .none
    · exact .some ((inConstants hst).entries fun _ => .same)

theorem Parts.Renoted.converted_eq {p q : Parts} (h : p.Renoted q) (overlong : Bool)
    (literal? : Option Value) (romStart romLength : Option Int) :
    p.converted overlong literal? romStart romLength =
      q.converted overlong literal? romStart romLength := by
  have hbound {v w : Value} (h : LinkConfig.Renoted v w) (given : Option Int) :
      given.elim (v.toInt none) .ok = given.elim (w.toInt none) .ok := by
    rw [toInt_congr h]
  obtain ⟨hmodel, hlayout, hstart, hlength, hconstants⟩ := h
  rw [Parts.converted, Parts.converted, hmodel, layoutEntries_congr hlayout, hbound hstart,
    hbound hlength]
  generalize p.constants? = constants?, q.constants? = constants?' at hconstants
  cases hconstants with
  | none => rfl
  | some h => simp only [Option.elim_some, Outcome.ok_bind, constantsOf_congr h]

/-- The literal name of the path of the model is an entry that has only one notation. -/
theorem getText?_literal (h : Entrywise RenotedPart es ds) :
    es.getText? "memory/model" = ds.getText? "memory/model" := by
  have hrel := h.getText? "memory/model"
  generalize es.getText? "memory/model" = v?, ds.getText? "memory/model" = w? at hrel
  cases hrel with
  | none => rfl
  | @some v w hvw =>
    generalize hkey : Value.text "memory/model" = key at hvw
    cases hvw with
    | same => rfl
    | memory | rom | constants => simp at hkey

theorem loaded_renoted (h : Entrywise RenotedPart es ds) (romStart romLength : Option Int) :
    loaded es romStart romLength = loaded ds romStart romLength := by
  -- What the checks refuse is not converted; what they accept has parts that differ in notation only.
  cases hv : verdict es with
  | error kind =>
    rw [loaded, loaded, ← verdict_renoted h, ← namesOverlong_renoted h, hv]
    rfl
  | ok =>
    obtain ⟨p, hp, hpfit⟩ := (verdict_eq_ok_iff es).mp hv
    obtain ⟨q, hq, hqfit⟩ := (verdict_eq_ok_iff ds).mp (verdict_renoted h ▸ hv)
    rw [loaded_of_parts hp hpfit, loaded_of_parts hq hqfit, ← namesOverlong_renoted h,
      (Parts.renoted h hp hq).converted_eq, (kept_map (fun _ _ _ => RenotedPart.kept) h).2,
      getText?_literal h]

/-- A configuration loads alike in every notation of its numbers: both loads are refused for the
same kind of reason, or both give the same link configuration and so the same script. -/
theorem load_renoted {c d : Config} (hproper : (Value.map c.entries).isProper = true)
    (h : Entrywise RenotedPart c.entries d.entries) (romStart romLength : Option Int)
    (date : String) (w : Workspace) :
    (load c romStart romLength).outcome w = (load d romStart romLength).outcome w ∧
      (load c romStart romLength >>= fun l => script l date).outcome w =
        (load d romStart romLength >>= fun l => script l date).outcome w := by
  have hproper' : (Value.map d.entries).isProper = true :=
    (kept_map (fun _ _ _ => RenotedPart.kept) h).1 ▸ hproper
  rw [load_outcome hproper, load_outcome hproper', script_outcome hproper,
    script_outcome hproper', loaded_renoted h]
  exact ⟨rfl, rfl⟩

def plainEntries : Value.Entries := [
  entry "memory" (.map [entry "model" (.text "small"),
    entry "layout" (.map [entry "c_heap" (.list [.int 0x10000, .int 69631])])]),
  entry "rom" (.map [entry "start" (.int 0x20000), entry "length" (.int 0x10000)]),
  entry "constants" (.map [entry "tick" (.int 5), entry "tock" (.int (-5))])]

/-- The plain entries with marks, separators, suffixes, blanks and both cases; an integer below zero
has no other notation. -/
def markedEntries : Value.Entries := [
  entry "memory" (.map [entry "model" (.text "small"),
    entry "layout" (.map [entry "c_heap" (.list [.text "0x1_0000", .text " 69_631uL"])])]),
  entry "rom" (.map [entry "start" (.text "0X20000"), entry "length" (.text "0o200000")]),
  entry "constants" (.map [entry "tick" (.text "0b101\t"), entry "tock" (.int (-5))])]

theorem load_renoted_markedEntries :
    (Value.map plainEntries).isProper = true ∧ Entrywise RenotedPart plainEntries markedEntries ∧
      ∃ l, (load (Config.ofEntries "/" plainEntries) none none).outcome Workspace.bare = .ok l ∧
        (load (Config.ofEntries "/" markedEntries) none none).outcome Workspace.bare = .ok l ∧
        (l.romStart, l.romLength, l.constants.map Prod.snd) = (0x20000, 0x10000, [5, -5]) := by
  have hproper : (Value.map plainEntries).isProper = true := by decide +kernel
  have hdigits (k : Nat) (hk : 10 ≤ k) : Nat.pow 10 10 ≤ Nat.pow 10 k :=
    Nat.pow_le_pow_right (by decide) hk
  have written {n : Nat} (hn : n < Nat.pow 10 10) {s : String}
      (hs : (Value.text s).toInt? = some (n : Int)) : Renoted (.int n) (.text s) :=
    .written (Nat.lt_of_lt_of_le hn (hdigits Value.greatestDigitCount (by decide))) hs
  have hbounds : RenotedItems (.list [.int 0x10000, .int 69631])
      (.list [.text "0x1_0000", .text " 69_631uL"]) :=
    .list (.cons (written (n := 0x10000) (by decide) (by decide +kernel))
      (.cons (written (n := 69631) (by decide) (by decide +kernel)) .nil))
  have hrenoted : Entrywise RenotedPart plainEntries markedEntries :=
    .cons ⟨rfl, .memory (.map (.cons ⟨rfl, .same _ _⟩
      (.cons ⟨rfl, .layout (.map (.cons ⟨rfl, hbounds⟩ .nil))⟩ .nil)))⟩
    (.cons ⟨rfl, .rom (.map
      (.cons ⟨rfl, .start (written (n := 0x20000) (by decide) (by decide +kernel))⟩
      (.cons ⟨rfl, .length (written (n := 0x10000) (by decide) (by decide +kernel))⟩ .nil)))⟩
    (.cons ⟨rfl, .constants (.map
      (.cons ⟨rfl, written (n := 5) (by decide) (by decide +kernel)⟩
      (.cons ⟨rfl, .same _⟩ .nil)))⟩ .nil))
  have hplain : ((loaded plainEntries none none).toOption.any fun l =>
      (l.romStart, l.romLength, l.constants.map Prod.snd) == (0x20000, 0x10000, [5, -5])) =
        true := by
    decide +kernel
  obtain ⟨l, hl, hvalues⟩ := Outcome.exists_of_any hplain
  have hload : (load (Config.ofEntries "/" plainEntries) none none).outcome Workspace.bare =
      .ok l := (load_outcome hproper none none Workspace.bare).trans hl
  obtain ⟨hsame, _⟩ := load_renoted (c := Config.ofEntries "/" plainEntries)
    (d := Config.ofEntries "/" markedEntries) hproper hrenoted none none "" Workspace.bare
  exact ⟨hproper, hrenoted, l, hload, hsame ▸ hload, eq_of_beq hvalues⟩

end FirmwareKit.LinkConfig
