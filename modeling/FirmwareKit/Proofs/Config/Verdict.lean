import FirmwareKit.Config.Link
import FirmwareKit.Proofs.Config.Walk
import FirmwareKit.Proofs.Schema.Validation
set_option autoImplicit false

namespace FirmwareKit.LinkConfig
open Schema Fault

/-! The rules of the schema -/

def numberRules : List Rule := [.type [.integer, .string], .format .number]

def modelRules : List Rule :=
  [.type [.string], .enum ((Labelled.labels MemoryModel).map Value.text)]

def boundsRules : List Rule :=
  [.type [.array], .size .items .least (.int 2), .size .items .most (.int 2), .items numberRules]

def layoutRules : List Rule :=
  [.type [.object], .size .entries .least (.int 1), .others [] boundsRules]

def memoryRules : List Rule :=
  [.type [.object], .required [.text "layout"],
    .properties [("model", modelRules, none), ("layout", layoutRules, none)]]

def romRules : List Rule :=
  [.type [.object], .required [.text "start", .text "length"],
    .properties [("start", numberRules, none), ("length", numberRules, none)]]

def constantsRules : List Rule := [.type [.object], .others [] numberRules]

def rules : List Rule :=
  [.type [.object], .required [.text "memory", .text "rom"],
    .properties [("memory", memoryRules, none), ("rom", romRules, none),
      ("constants", constantsRules, none)]]

set_option maxRecDepth 8192 in
theorem compile_schema : compile (mergeAll [schema]) = .ok rules := rfl

/-! What they ask for -/

/-- An integer, a float without a fraction or a text that reads as a number. -/
def isNumber (v : Value) : Bool := hasType [.integer, .string] v && readsAsNumber v

def isBounds (v : Value) : Bool :=
  match itemsOf? v with
  | some [start, last] => isNumber start && isNumber last
  | _ => false

def isModel : Value → Bool
  | .text s => (Labelled.labels MemoryModel).contains s
  | _ => false

def onMapping (v : Value) (verdict : Value.Entries → Verdict) : Verdict :=
  match v with
  | .map es => verdict es
  | _ => .error .general

def onEntry (v? : Option Value) (verdict : Value → Verdict) : Verdict := v?.elim (.ok ()) verdict

/-- The verdict on the values of a mapping, each under a key of its own. -/
def onValues (es : Value.Entries) (holds : Value → Bool) : Verdict :=
  es.forM fun e => demand e.1.isOverlong (holds e.2)

def layoutVerdict (v : Value) : Verdict :=
  onMapping v fun es => demand false (!es.isEmpty) >>= fun _ => onValues es isBounds

def constantsVerdict (v : Value) : Verdict := onMapping v fun es => onValues es isNumber

def memoryVerdict (v : Value) : Verdict :=
  onMapping v fun es => do
    demand false (es.getText? "layout").isSome
    onEntry (es.getText? "model") fun v => demand false (isModel v)
    onEntry (es.getText? "layout") layoutVerdict

def romVerdict (v : Value) : Verdict :=
  onMapping v fun es => do
    demand false ((es.getText? "start").isSome && (es.getText? "length").isSome)
    onEntry (es.getText? "start") fun v => demand false (isNumber v)
    onEntry (es.getText? "length") fun v => demand false (isNumber v)

/-- An entry of the whole configuration that is null counts as missing. -/
def onTopEntry (es : Value.Entries) (name : String) (verdict : Value → Verdict) : Verdict :=
  onEntry (es.getText? name) fun v =>
    match v with
    | .null => .error (Config.missing es name).kind
    | v => verdict v

def verdict (es : Value.Entries) : Verdict := do
  demand false ((es.getText? "memory").isSome && (es.getText? "rom").isSome)
  onTopEntry es "memory" memoryVerdict
  onTopEntry es "rom" romVerdict
  onTopEntry es "constants" constantsVerdict

/-! Configurations that cannot be told apart -/

section Alike
variable {R : Value → Value → Prop} {v? w? : Option Value}

theorem isSome_congr (h : Option.Rel R v? w?) : v?.isSome = w?.isSome := by
  cases h <;> rfl

theorem onEntry_congr {f g : Value → Verdict} (h : Option.Rel R v? w?)
    (hfg : ∀ v w, R v w → f v = g w) : onEntry v? f = onEntry w? g := by
  cases h with
  | none => rfl
  | some h => exact hfg _ _ h

/-- Top-level values that come to the same, also by being missing. -/
def Alike (verdict : Value → Verdict) (v w : Value) : Prop :=
  (v = .null ↔ w = .null) ∧ verdict v = verdict w

def HasNullPart (es : Value.Entries) : Prop :=
  ∃ name ∈ ["memory", "rom", "constants"], es.getText? name = some .null

/-- The verdict sees three entries and, where one is null, whether something is too long to be
written. -/
theorem verdict_congr {es ds : Value.Entries}
    (hlong : HasNullPart es → (Value.map es).isOverlong = (Value.map ds).isOverlong)
    (hmemory : Option.Rel (Alike memoryVerdict) (es.getText? "memory") (ds.getText? "memory"))
    (hrom : Option.Rel (Alike romVerdict) (es.getText? "rom") (ds.getText? "rom"))
    (hconstants : Option.Rel (Alike constantsVerdict) (es.getText? "constants")
      (ds.getText? "constants")) : verdict es = verdict ds := by
  have hkind {name : String} (hname : name ∈ ["memory", "rom", "constants"])
      (hnull : es.getText? name = some .null) :
      (Config.missing es name).kind = (Config.missing ds name).kind := by
    rw [Config.missing, Config.missing, hlong ⟨name, hname, hnull⟩]
    split <;> rfl
  have htop {name : String} {part : Value → Verdict}
      (hname : name ∈ ["memory", "rom", "constants"])
      (h : Option.Rel (Alike part) (es.getText? name) (ds.getText? name)) :
      onTopEntry es name part = onTopEntry ds name part := by
    rw [onTopEntry, onTopEntry]
    generalize hv : es.getText? name = v? at h ⊢
    generalize ds.getText? name = w? at h ⊢
    cases h with
    | none => rfl
    | @some v w halike =>
      obtain ⟨hnull, hpart⟩ := halike
      cases v with
      | null =>
        obtain rfl := hnull.mp rfl
        exact congrArg Except.error (hkind hname hv)
      | bool | int | float | text | bytes | buffer | list | tuple | map | set | moment | model
      | bank | fileRef | dataRef | path =>
        cases w with
        | null => cases hnull.mpr rfl
        | bool | int | float | text | bytes | buffer | list | tuple | map | set | moment | model
        | bank | fileRef | dataRef | path => exact hpart
  rw [verdict, verdict, isSome_congr hmemory, isSome_congr hrom, htop (by simp) hmemory,
    htop (by simp) hrom, htop (by simp) hconstants]

end Alike

/-! The rules come to what they ask for -/

variable {s : Spot}

theorem bind_ok_unit (v : Verdict) : (v >>= fun _ => .ok ()) = v := by
  cases v <;> rfl

variable (s) in
theorem checks_numberRules :
    Checks (checkAll numberRules s) s.value (demand s.overlong (isNumber s.value)) := by
  have h := checks_cons (checks_type s [.integer, .string]) fun _ =>
    checks_cons (checks_number s) fun _ => checks_nil s
  rw [bind_ok_unit, demand_and] at h
  exact h

theorem isBounds_eq (v : Value) :
    isBounds v = (hasType [.array] v && (isSized .items .least (.int 2) v &&
      (isSized .items .most (.int 2) v && (itemsOf? v).elim true fun xs => xs.all isNumber))) := by
  cases hitems : itemsOf? v with
  | none =>
    have harray : hasType [.array] v = false := by
      cases v <;> simp_all [itemsOf?, hasType, TypeName.admits]
    simp [isBounds, hitems, harray]
  | some xs =>
    have harray : hasType [.array] v = true := by
      cases v <;> simp_all [itemsOf?, hasType, TypeName.admits]
    have hlength : Measure.items.of? v = some xs.length := by
      cases v <;> simp_all [itemsOf?, Measure.of?]
    have hleast := isSized_least hlength 2
    have hmost := isSized_most hlength 2
    change isSized .items .least (.int 2) v = _ at hleast
    change isSized .items .most (.int 2) v = _ at hmost
    rw [harray, hleast, hmost]
    rcases xs with _ | ⟨start, _ | ⟨last, _ | ⟨third, rest⟩⟩⟩ <;> simp [isBounds, hitems]

theorem forM_demand (overlong : Bool) (holds : Value → Bool) (xs : List Value) :
    (xs.forM fun v => demand overlong (holds v)) = demand overlong (xs.all holds) := by
  induction xs with
  | nil => rfl
  | cons v rest ih =>
    change (demand overlong (holds v) >>= fun _ => rest.forM _) = _
    rw [ih, demand_and, List.all_cons]

theorem checks_boundsRules :
    Checks (checkAll boundsRules s) s.value (demand s.overlong (isBounds s.value)) := by
  have h := checks_cons (checks_type s [.array]) fun _ =>
    checks_cons (checks_size s .items .least (.int 2)) fun _ =>
    checks_cons (checks_size s .items .most (.int 2)) fun _ =>
    checks_cons (checks_items (g := fun v => demand s.overlong (isNumber v))
      fun v => checks_numberRules (s.item v)) fun _ => checks_nil s
  have hitems : ((itemsOf? s.value).elim (.ok ()) fun xs =>
      xs.forM fun v => demand s.overlong (isNumber v)) =
        demand s.overlong ((itemsOf? s.value).elim true fun xs => xs.all isNumber) := by
    cases itemsOf? s.value with
    | none => rfl
    | some xs => exact forM_demand _ _ xs
  rw [bind_ok_unit, hitems, demand_and, demand_and, demand_and] at h
  rw [isBounds_eq]
  exact h

theorem checks_onMapping {rest : List Rule} {verdict : Value.Entries → Verdict}
    (hshort : s.overlong = false)
    (h : ∀ es, s.value = .map es → Checks (checkAll rest s) s.value (verdict es)) :
    Checks (checkAll (.type [.object] :: rest) s) s.value (onMapping s.value verdict) := by
  have htype := checks_type s [.object]
  cases hv : s.value with
  | map es =>
    have hrest := checks_cons htype fun _ => h es hv
    rw [hv] at hrest
    exact hrest
  | null | bool | int | float | text | bytes | buffer | list | tuple | set | moment | model | bank
  | fileRef | dataRef | path =>
    have hnone : demand s.overlong (hasType [.object] s.value) = .error .general := by
      rw [hv, hshort]
      rfl
    have hrest : Checks (checkAll (.type [.object] :: rest) s) s.value
        (demand s.overlong (hasType [.object] s.value) >>= fun _ => .ok ()) :=
      checks_cons htype fun hok => by cases hnone.symm.trans hok
    rw [hnone, hv] at hrest
    exact hrest

/-- A rule for the values of a mapping, each of which is named by its key. -/
theorem checks_onValues {schema : List Rule} {holds : Value → Bool} {es : Value.Entries}
    (hschema : ∀ t : Spot,
      Checks (checkAll schema t) t.value (demand t.overlong (holds t.value)))
    (hvalue : s.value = .map es) (hshort : s.overlong = false) (hpart : s.whole = false)
    (hproper : (Value.map es).isProper = true) :
    Checks (checkRule (.others [] schema) s) s.value (onValues es holds) := by
  have hall : es.filter (fun e => !([] : List String).any fun n => e.1.sameKey (.text n)) = es := by
    simp
  have hentries (e : Value × Value) (_ : e ∈ es) :
      Checks (checkAll schema (s.entry e.1 e.2)) e.2
        (demand e.1.isOverlong (holds e.2)) := by
    have hentry := hschema (s.entry e.1 e.2)
    rw [Spot.entry, hshort, Bool.false_or] at hentry
    rw [Spot.entry, hshort, Bool.false_or]
    exact hentry
  have h : Checks (checkRule (.others [] schema) s) s.value _ :=
    checks_others hpart hvalue (Value.proper_get? hproper) hentries
  rw [hall] at h
  exact h

variable (s) in
theorem checks_layoutRules (hshort : s.overlong = false) (hpart : s.whole = false)
    (hproper : s.value.isProper = true) :
    Checks (checkAll layoutRules s) s.value (layoutVerdict s.value) := by
  refine checks_onMapping hshort fun es hes => ?_
  have hentries : Measure.entries.of? s.value = some es.length := by rw [hes, Measure.of?]
  have hsize : isSized .entries .least (.int 1) s.value = !es.isEmpty := by
    have hleast := isSized_least hentries 1
    change isSized .entries .least (.int 1) s.value = _ at hleast
    rw [hleast]
    cases es <;> simp
  have h := checks_cons (checks_size s .entries .least (.int 1)) fun _ =>
    checks_cons (checks_onValues (fun _ => checks_boundsRules) hes hshort hpart (hes ▸ hproper))
      fun _ => checks_nil s
  rw [bind_ok_unit, hsize, hshort] at h
  exact h

theorem checks_constantsRules (hshort : s.overlong = false) (hpart : s.whole = false)
    (hproper : s.value.isProper = true) :
    Checks (checkAll constantsRules s) s.value (constantsVerdict s.value) := by
  refine checks_onMapping hshort fun es hes => ?_
  have h := checks_cons (checks_onValues (checks_numberRules) hes hshort hpart
    (hes ▸ hproper)) fun _ => checks_nil s
  rw [bind_ok_unit] at h
  exact h

theorem isModel_eq (v : Value) :
    isModel v = (hasType [.string] v &&
      ((Labelled.labels MemoryModel).map Value.text).any (·.eq v)) := by
  cases v with
  | text s =>
    have heq : ((Labelled.labels MemoryModel).map Value.text).any (·.eq (.text s)) =
        (Labelled.labels MemoryModel).any (· == s) := by
      rw [List.any_map]
      rfl
    rw [heq, isModel, List.contains_eq_any_beq]
    simp only [BEq.comm (a := s)]
    rfl
  | null | bool | int | float | bytes | buffer | list | tuple | map | set | moment | model | bank
  | fileRef | dataRef | path => rfl

variable (s) in
theorem checks_modelRules (hshort : s.overlong = false) :
    Checks (checkAll modelRules s) s.value (demand false (isModel s.value)) := by
  have h := checks_cons (checks_type s [.string]) fun _ =>
    checks_cons (checks_enum s ((Labelled.labels MemoryModel).map Value.text)) fun _ =>
    checks_nil s
  rw [bind_ok_unit, demand_and, hshort] at h
  rw [isModel_eq]
  exact h

theorem ofTexts (names : List String) : ∀ n ∈ names.map Value.text, ∃ t, n = .text t := by
  intro n hn
  obtain ⟨t, _, rfl⟩ := List.mem_map.mp hn
  exact ⟨t, rfl⟩

/-- Entries of a mapping that is not looked up by paths. -/
theorem comes_entry {name : String} {schema : List Rule}
    {rest : List (String × List Rule × Option Value)} {es : Value.Entries}
    {g : Value → Verdict} {u : Verdict} (hpart : s.whole = false)
    (h : ∀ v, es.getText? name = some v →
      Checks (checkAll schema (s.entry (.text name) v)) v (g v))
    (hrest : Comes Prod.snd (checkProperties rest s es) (es, none) u) :
    Comes Prod.snd (checkProperties ((name, schema, none) :: rest) s es) (es, none)
      (onEntry (es.getText? name) g >>= fun _ => u) := by
  have hentry (v : Value) (hv : es.getText? name = some v) (formats : Formats) :
      (Schema.entry s es (.text name)).eval formats true = .ok v := by
    rw [entry_of_part hpart]
    exact congrArg (fun w? : Option Value => Except.ok (w?.getD .null)) hv
  have hput (v : Value) (hv : es.getText? name = some v) :
      (if s.whole then Config.put es (.text name) v else es.insert (.text name) v) = es := by
    rw [hpart, if_neg Bool.false_ne_true, Value.Entries.insert_of_get? hv]
  exact comes_properties_cons hentry (fun _ _ hc => (Except.ok.inj hc).symm)
    (fun v hv _ => hput v hv) h hrest

theorem comes_nil {es : Value.Entries} :
    Comes Prod.snd (checkProperties [] s es) (es, none) (.ok ()) := by
  rw [checkProperties]
  exact comes_pure _

theorem checks_memoryRules (hshort : s.overlong = false) (hpart : s.whole = false)
    (hproper : s.value.isProper = true) :
    Checks (checkAll memoryRules s) s.value (memoryVerdict s.value) := by
  refine checks_onMapping hshort fun es hes => ?_
  have hmodel (v : Value) := checks_modelRules (s.entry (.text "model") v)
    (by rw [Spot.entry, hshort]; rfl)
  have hlayout (v : Value) (hv : Value.Entries.getText? es "layout" = some v) :=
    checks_layoutRules (s.entry (.text "layout") v)
      (by rw [Spot.entry, hshort]; rfl) rfl (Value.proper_getText? (hes ▸ hproper) hv)
  have h := checks_cons (checks_required s (ofTexts ["layout"])) fun _ =>
    checks_cons (checks_properties hes (comes_entry hpart (fun v _ => hmodel v)
      (comes_entry hpart hlayout comes_nil))) fun _ => checks_nil s
  have hall : hasAll (["layout"].map Value.text) s.value =
      (Value.Entries.getText? es "layout").isSome := by
    rw [hes, hasAll]
    exact Bool.and_true _
  rw [bind_ok_unit, bind_ok_unit, hshort, hall] at h
  exact h

theorem checks_romRules (hshort : s.overlong = false) (hpart : s.whole = false) :
    Checks (checkAll romRules s) s.value (romVerdict s.value) := by
  refine checks_onMapping hshort fun es hes => ?_
  have hbound (name : String) (v : Value) :
      Checks (checkAll numberRules (s.entry (.text name) v)) v
        (demand false (isNumber v)) := by
    have h := checks_numberRules (s.entry (.text name) v)
    rw [Spot.entry, hshort] at h
    rw [Spot.entry, hshort]
    exact h
  have h := checks_cons (checks_required s (ofTexts ["start", "length"])) fun _ =>
    checks_cons (checks_properties hes (comes_entry hpart (fun v _ => hbound "start" v)
      (comes_entry hpart (fun v _ => hbound "length" v) comes_nil))) fun _ => checks_nil s
  have hall : hasAll (["start", "length"].map Value.text) s.value =
      ((Value.Entries.getText? es "start").isSome &&
        (Value.Entries.getText? es "length").isSome) := by
    rw [hes, hasAll]
    exact congrArg _ (Bool.and_true _)
  rw [bind_ok_unit, bind_ok_unit, hshort, hall] at h
  exact h

/-- Entries of the whole configuration, which are looked up by their names. -/
theorem comes_topEntry {name : String} (hname : Config.keyPath (.text name) = [.text name])
    {schema : List Rule} {rest : List (String × List Rule × Option Value)} {es : Value.Entries}
    {g : Value → Verdict} {u : Verdict} (hwhole : s.whole = true)
    (h : ∀ v, es.getText? name = some v →
      Checks (checkAll schema (s.entry (.text name) v)) v (g v))
    (hrest : Comes Prod.snd (checkProperties rest s es) (es, none) u) :
    Comes Prod.snd (checkProperties ((name, schema, none) :: rest) s es) (es, none)
      (onTopEntry es name g >>= fun _ => u) := by
  let found (v : Value) : Except Fault Value :=
    match v with
    | .null => .error (Config.missing es name)
    | v => .ok v
  have hitem (v : Value) (hv : es.getText? name = some v) :
      Config.item es (.text name) = found v := by
    rw [Config.item_name hname, hv]
    cases v <;> rfl
  have hentry (v : Value) (hv : es.getText? name = some v) (formats : Formats) :
      (Schema.entry s es (.text name)).eval formats true = found v := by
    have hanswer : (Program.item es (.text name)).eval formats true = Config.item es (.text name) := by
      change (Config.item es (.text name) >>= fun v => .ok v) = _
      cases Config.item es (.text name) <;> rfl
    rw [Schema.entry, hwhole, if_pos rfl, hanswer, hitem v hv]
  have hput (v : Value) (hv : es.getText? name = some v) (hc : found v = .ok v) :
      (if s.whole then Config.put es (.text name) v else es.insert (.text name) v) = es := by
    rw [hwhole, if_pos rfl]
    exact Config.put_item ((hitem v hv).trans hc)
  have hfound (v c : Value) (hc : found v = .ok c) : c = v := by
    cases v <;> first | exact (Except.ok.inj hc).symm | cases hc
  have hcomes := comes_properties_cons hentry hfound hput h hrest
  have hverdict : (fun v => (found v).mapError Fault.kind >>= g) = fun v =>
      match v with
      | .null => .error (Config.missing es name).kind
      | v => g v := by
    funext v
    cases v <;> rfl
  rw [hverdict] at hcomes
  exact hcomes

theorem checks_rules {es : Value.Entries} (hvalue : s.value = .map es) (hshort : s.overlong = false)
    (hwhole : s.whole = true) (hproper : (Value.map es).isProper = true) :
    Checks (checkAll rules s) s.value (verdict es) := by
  have hentry (name : String) (v : Value) : (s.entry (.text name) v).overlong = false := by
    rw [Spot.entry, hshort]
    rfl
  have h := checks_cons (checks_type s [.object]) fun _ =>
    checks_cons (checks_required s (ofTexts ["memory", "rom"])) fun _ =>
    checks_cons (checks_properties hvalue
      (comes_topEntry rfl hwhole
        (fun v hv => checks_memoryRules (hentry "memory" v) rfl (Value.proper_getText? hproper hv))
      (comes_topEntry rfl hwhole (fun v _ => checks_romRules (hentry "rom" v) rfl)
      (comes_topEntry rfl hwhole
        (fun v hv => checks_constantsRules (hentry "constants" v) rfl
          (Value.proper_getText? hproper hv)) comes_nil)))) fun _ => checks_nil s
  have hobject : demand s.overlong (hasType [.object] s.value) = .ok () := by
    rw [hvalue]
    rfl
  have hall : hasAll (["memory", "rom"].map Value.text) s.value =
      ((es.getText? "memory").isSome && (es.getText? "rom").isSome) := by
    rw [hvalue, hasAll]
    exact congrArg _ (Bool.and_true _)
  rw [bind_ok_unit, bind_ok_unit, hobject, hall, hshort] at h
  exact h

end FirmwareKit.LinkConfig
