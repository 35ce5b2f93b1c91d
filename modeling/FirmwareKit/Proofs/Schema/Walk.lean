import FirmwareKit.Proofs.Schema.Growth
set_option autoImplicit false

/-!
# Checks, rule by rule

What holds of a check is found by one walk along its rules: what the check asks of the whole mapping,
what it makes of the value, and where a failure comes from. It is a frame that says what may be asked
and made; a frame has to be closed under the ways in which a check changes a value.
-/
namespace FirmwareKit.Schema
open Schema.Program
variable {formats : Formats} {keyed : Bool}

/-- A mapping, once a value that was found under a key is put back, has grown, stays in order if it is
the whole one, and keeps what it has. -/
def Restores (formats : Formats) (keyed : Bool) (asks : Query → Prop) (Grown : Value → Value → Prop)
    (Fits : Value.Entries → Prop) (Has : Value.Entries → Value → Prop) (s : Spot)
    (es : Value.Entries) (key v : Value) : Prop :=
  ∀ w, Grown v w → (putBack s es key w).Meets formats keyed asks fun es' =>
    Grown (.map es) (.map es') ∧ (s.whole = true → Fits es') ∧ ∀ k, Has es k → Has es' k

/-- What may be asked of the whole mapping, as long as it fits, and what may become of a value. The
names that are listed are looked up in the whole mapping, and other keys that it has where all are. -/
structure Frame (formats : Formats) (keyed : Bool) where
  asks : Query → Prop
  Grown : Value → Value → Prop
  IsDefault : Value → Prop
  IsAddition : String → Value → Prop
  IsListed : String → Prop
  all : Prop
  Fits : Value.Entries → Prop
  Has : Value.Entries → Value → Prop
  refl (v : Value) : Grown v v
  trans {u v w : Value} (huv : Grown u v) (hvw : Grown v w) : Grown u w
  item {v x y : Value} {xs : List Value} {i : Nat} (hv : itemsOf? v = some xs)
    (hx : xs[i]? = some x) (h : Grown x y) : Grown v (withItems v (xs.set i y))
  append {v d : Value} {xs : List Value} (hv : itemsOf? v = some xs) (hd : IsDefault d) :
    Grown v (withItems v (xs ++ [d]))
  enter {whole : Bool} {es : Value.Entries} {name : String} {d : Value}
    (hfits : whole = true → Fits es) (hnew : es.getText? name = none) (hd : IsDefault d)
    (hadd : whole = true → IsAddition name d) :
    Grown (.map es) (.map (es.insert (.text name) d)) ∧
      (whole = true → Fits (es.insert (.text name) d))
  has {es : Value.Entries} {key : Value} (h : key ∈ es.map Prod.fst) : Has es key
  listed {s : Spot} {es : Value.Entries} {name : String} {v : Value}
    (hfits : s.whole = true → Fits es) (hname : s.whole = true → IsListed name)
    (hv : es.getText? name = some v) :
    (entry s es (.text name)).Meets formats keyed asks
      (Restores formats keyed asks Grown Fits Has s es (.text name))
  others {s : Spot} {es : Value.Entries} {key : Value} (hfits : s.whole = true → Fits es)
    (hall : s.whole = true → all) (hkey : Has es key) :
    (entryOrNull s es key).Meets formats keyed asks
      (Restores formats keyed asks Grown Fits Has s es key)

namespace Frame
variable {F : Frame formats keyed} {s : Spot}

/-- Rules that look up and add what the frame lets them, where the whole mapping is checked. -/
structure Admits (F : Frame formats keyed) (whole : Bool) (ds : List Value) (t : Touch) : Prop where
  defaults : ∀ d ∈ ds, F.IsDefault d
  names : whole = true → ∀ name ∈ t.names, F.IsListed name
  others : whole = true → t.others = true → F.all
  additions : whole = true → ∀ a ∈ t.additions, F.IsAddition a.1 a.2

theorem Admits.of_append {whole : Bool} {ds ds' : List Value} {t t' : Touch}
    (h : F.Admits whole (ds ++ ds') (t ++ t')) : F.Admits whole ds t ∧ F.Admits whole ds' t' := by
  obtain ⟨hd, hn, ho, ha⟩ := h
  have hothers (hw : whole = true) : (t.others || t'.others) = true → F.all := ho hw
  rw [List.forall_mem_append] at hd
  exact ⟨⟨hd.1, fun hw => (List.forall_mem_append.mp (hn hw)).1,
      fun hw h => hothers hw (by rw [h, Bool.true_or]),
      fun hw => (List.forall_mem_append.mp (ha hw)).1⟩,
    ⟨hd.2, fun hw => (List.forall_mem_append.mp (hn hw)).2,
      fun hw h => hothers hw (by rw [h, Bool.or_true]),
      fun hw => (List.forall_mem_append.mp (ha hw)).2⟩⟩

theorem admits_part {ds : List Value} (h : ∀ d ∈ ds, F.IsDefault d) (t : Touch) :
    F.Admits false ds t := ⟨h, nofun, nofun, nofun⟩

def AdmitsEntries (F : Frame formats keyed) (whole : Bool)
    (schemas : List (String × List Rule × Option Value)) : Prop :=
  F.Admits whole (defaultsOfEntries schemas) (Rule.touch (.properties schemas))

theorem AdmitsEntries.of_cons {whole : Bool} {name : String} {schema : List Rule}
    {default : Option Value} {rest : List (String × List Rule × Option Value)}
    (h : F.AdmitsEntries whole ((name, schema, default) :: rest)) :
    (whole = true → F.IsListed name) ∧
      (∀ d ∈ default, F.IsDefault d ∧ (whole = true → F.IsAddition name d)) ∧
      (∀ d ∈ Schema.defaults schema, F.IsDefault d) ∧ F.AdmitsEntries whole rest := by
  obtain ⟨hd, hn, ho, ha⟩ := h
  rw [defaultsOfEntries, List.forall_mem_append, List.forall_mem_append] at hd
  have hname (hw : whole = true) := List.forall_mem_cons.mp (hn hw)
  cases default with
  | none => exact ⟨fun hw => (hname hw).1, nofun, hd.1.2, hd.2, fun hw => (hname hw).2, ho, ha⟩
  | some d =>
    have hadd (hw : whole = true) := List.forall_mem_cons.mp (ha hw)
    refine ⟨fun hw => (hname hw).1, fun _ h => ?_, hd.1.2, hd.2, fun hw => (hname hw).2, ho,
      fun hw => (hadd hw).2⟩
    obtain rfl := Option.some.inj h
    exact ⟨hd.1.1 d List.mem_cons_self, fun hw => (hadd hw).1⟩

def FitsAt (F : Frame formats keyed) (whole : Bool) (v : Value) : Prop :=
  whole = true → ∀ es, v = .map es → F.Fits es

theorem fitsAt_part (v : Value) : F.FitsAt false v := nofun

/-- A failure whose alternatives, if it is one of alternatives, are admitted and have been counted. -/
structure Traced (F : Frame formats keyed) (f : Flaw) : Prop where
  fits : F.FitsAt f.subject.whole f.subject.value
  alternatives : ∀ choice schemas, f.cause = .alternatives choice schemas →
    F.Admits f.subject.whole (defaultsOfEach schemas) (touchOfEach schemas) ∧
      ∃ (t : Spot) (n : Nat), t.whole = f.subject.whole ∧ t.overlong = false ∧
        (countPassed schemas choice.enough 0 t).eval formats keyed = .ok (f.subject.value, n) ∧
        choice.admits n = false

structure Checked (F : Frame formats keyed) (s : Spot) (o : Finding) : Prop where
  grown : F.Grown s.value o.value
  fits : F.FitsAt s.whole o.value
  failure : ∀ f ∈ o.failure, F.Traced f

structure PartsChecked {α : Type} (F : Frame formats keyed) (s : Spot) (v : Value) (whole : α → Value)
    (a : α × Option Flaw) : Prop where
  grown : F.Grown v (whole a.1)
  fits : F.FitsAt s.whole (whole a.1)
  failure : ∀ f ∈ a.2, F.Traced f

theorem Checked.under {o : Finding} (h : F.Checked s o) (step : String) :
    F.Checked s (o.under step) := by
  refine ⟨h.grown, h.fits, fun f hf => ?_⟩
  obtain ⟨g, hg, rfl⟩ := Option.map_eq_some_iff.mp hf
  obtain ⟨hfits, halternatives⟩ := h.failure g hg
  exact ⟨hfits, halternatives⟩

theorem Checked.trans {o u : Finding} (ho : F.Checked s o) (hu : F.Checked (s.with o.value) u) :
    F.Checked s u := ⟨F.trans ho.grown hu.grown, hu.fits, hu.failure⟩

/-! ## Single rules -/

theorem checked_passed (hs : F.FitsAt s.whole s.value) :
    (passed s).Meets formats keyed F.asks (F.Checked s) :=
  meets_pure ⟨F.refl _, hs, nofun⟩

theorem checked_failed (hs : F.FitsAt s.whole s.value) (text : String) {cause : Cause (List Rule)}
    (h : ∀ choice schemas, cause ≠ .alternatives choice schemas) :
    (failed s text cause).Meets formats keyed F.asks (F.Checked s) := by
  rw [failed]
  split
  · trivial
  · refine meets_pure ⟨F.refl _, hs, fun f hf => ?_⟩
    cases hf
    exact ⟨hs, fun choice schemas hcause => absurd hcause (h choice schemas)⟩

theorem checked_ensure (hs : F.FitsAt s.whole s.value) (holds : Bool) (text : String) :
    (ensure s holds text).Meets formats keyed F.asks (F.Checked s) := by
  rw [ensure]
  split
  · exact checked_passed hs
  · exact checked_failed hs text nofun

theorem checked_checkRequired (hs : F.FitsAt s.whole s.value) (names : List Value) :
    (checkRequired names s).Meets formats keyed F.asks (F.Checked s) := by
  rw [checkRequired]
  split
  · dsimp only
    split
    · exact checked_passed hs
    · exact (meets_ofExcept _).bind fun _ _ => checked_failed hs _ nofun
  · exact checked_passed hs

theorem checked_checkNoOthers (hs : F.FitsAt s.whole s.value) (known : List String) :
    (checkNoOthers known s).Meets formats keyed F.asks (F.Checked s) := by
  rw [checkNoOthers]
  split
  · dsimp only
    split
    · trivial
    · exact checked_ensure hs _ _
  · exact checked_passed hs

theorem checked_checkUnique (hs : F.FitsAt s.whole s.value) :
    (checkUnique s).Meets formats keyed F.asks (F.Checked s) := by
  rw [checkUnique]
  split
  · exact checked_ensure hs _ _
  · exact checked_passed hs

theorem checked_checkPlain (hs : F.FitsAt s.whole s.value) (r : Rule) :
    (checkPlain r s).Meets formats keyed F.asks (F.Checked s) := by
  cases r with
  | format format =>
    have hverdict (holds : Bool) : (if holds = true then passed s
        else failed s s!"must be {format.name}" (.format format.name)).Meets formats keyed F.asks
          (F.Checked s) := by
      split
      · exact checked_passed hs
      · exact checked_failed hs _ nofun
    rw [checkPlain]
    split
    · exact (meets_test _ _).bind fun holds _ => hverdict holds
    · exact hverdict true
  | multipleOf d => exact (meets_ofExcept _).bind fun _ _ => checked_ensure hs _ _
  | required names => exact checked_checkRequired hs names
  | noOthers known => exact checked_checkNoOthers hs known
  | unique => exact checked_checkUnique hs
  | never | type | enum | const | nothing | anything | size | pattern | magnitude | noItems =>
    exact checked_ensure hs _ _
  | _ => exact checked_passed hs

/-- What follows a count of alternatives. -/
theorem checked_counted {choice : Choice} {schemas : List (List Rule)} {v : Value} {n : Nat}
    (hcount : (countPassed schemas choice.enough 0 s).eval formats keyed = .ok (v, n))
    (hgrown : F.Grown s.value v) (hfits : F.FitsAt s.whole v)
    (hadmits : F.Admits s.whole (defaultsOfEach schemas) (touchOfEach schemas)) :
    (if choice.admits n then passed (s.with v)
      else failed (s.with v) (choice.refusal n) (.alternatives choice schemas)).Meets formats keyed
        F.asks (F.Checked s) := by
  split
  case isTrue => exact meets_pure ⟨hgrown, hfits, nofun⟩
  case isFalse hn =>
    rw [failed]
    split
    case isTrue => trivial
    case isFalse hlong =>
      refine meets_pure ⟨hgrown, hfits, fun f hf => ?_⟩
      cases hf
      refine ⟨hfits, fun choice' schemas' hcause => ?_⟩
      cases hcause
      exact ⟨hadmits, s, n, rfl, Bool.eq_false_iff.mpr hlong, hcount, Bool.eq_false_iff.mpr hn⟩

/-! ## Parts of a value -/

section Parts
variable {check : Spot → Program Finding}
  (hcheck : ∀ t : Spot, t.whole = false → (check t).Meets formats keyed F.asks (F.Checked t))
include hcheck

theorem checked_part {t : Spot} (ht : t.whole = false) (step : String) :
    (Outcome.under step <$> check t).Meets formats keyed F.asks (F.Checked t) :=
  ((hcheck t ht).mono fun _ h => h.under step).map

/-- The items behind those already checked. -/
theorem checked_checkItems (i : Nat) {v : Value} {before xs : List Value}
    (hv : itemsOf? v = some (before ++ xs)) :
    (checkItems check s i xs).Meets formats keyed F.asks
      (F.PartsChecked s v fun ys => withItems v (before ++ ys)) := by
  have hfits (ys : List Value) : F.FitsAt s.whole (withItems v ys) := by
    intro _ es hes
    have hitems := itemsOf?_withItems v ys
    rw [hes] at hitems
    cases hitems
  induction xs generalizing v before i with
  | nil =>
    refine meets_pure ⟨?_, hfits _, nofun⟩
    rw [withItems_of_itemsOf? hv]
    exact F.refl v
  | cons x rest ih =>
    rw [checkItems]
    refine (checked_part hcheck rfl _).bind fun o ho => ?_
    have hitem : F.Grown v (withItems v (before ++ o.value :: rest)) := by
      have hx : (before ++ x :: rest)[before.length]? = some x := by simp
      simpa using F.item hv hx ho.grown
    split
    case h_1 f hf => exact meets_pure ⟨hitem, hfits _, fun g hg => ho.failure g (hf.trans hg)⟩
    case h_2 =>
      have hrest : itemsOf? (withItems v (before ++ o.value :: rest)) =
          some ((before ++ [o.value]) ++ rest) := by
        rw [itemsOf?_withItems]
        simp
      have hsame (ys : List Value) : F.FitsAt s.whole
          (withItems (withItems v (before ++ o.value :: rest)) ys) := by
        rw [withItems_withItems]
        exact hfits ys
      refine (ih (i + 1) hrest hsame).bind fun a ha => meets_pure ⟨?_, hfits _, ha.failure⟩
      have hlater := F.trans hitem ha.grown
      rw [withItems_withItems, List.append_assoc] at hlater
      exact hlater

theorem checked_checkOthers {keys : List Value} {es : Value.Entries}
    (hfits : s.whole = true → F.Fits es) (hall : s.whole = true → F.all)
    (hkeys : ∀ k ∈ keys, F.Has es k) :
    (checkOthers check s keys es).Meets formats keyed F.asks
      (F.PartsChecked s (.map es) Value.map) := by
  have hwhole {fs : Value.Entries} (h : s.whole = true → F.Fits fs) : F.FitsAt s.whole (.map fs) := by
    intro hw ds hds
    cases hds
    exact h hw
  induction keys generalizing es with
  | nil => exact meets_pure ⟨F.refl _, hwhole hfits, fun g hg => absurd hg.symm (Option.some_ne_none g)⟩
  | cons k rest ih =>
    obtain ⟨hk, hrest⟩ := List.forall_mem_cons.mp hkeys
    rw [checkOthers]
    refine (F.others hfits hall hk).bind fun v hv => (checked_part hcheck rfl _).bind fun o ho => ?_
    refine (hv o.value ho.grown).bind fun es' hput => ?_
    obtain ⟨hgrown, hfits', hhas⟩ := hput
    split
    case h_1 f hf => exact meets_pure ⟨hgrown, hwhole hfits', fun g hg => ho.failure g (hf.trans hg)⟩
    case h_2 =>
      exact (ih hfits' fun k' hk' => hhas k' (hrest k' hk')).mono fun a ha =>
        ⟨F.trans hgrown ha.grown, ha.fits, ha.failure⟩

end Parts

/-! ## Schemas -/

mutual
theorem checked_checkAll : ∀ (rules : List Rule) {s : Spot},
    F.Admits s.whole (Schema.defaults rules) (touch rules) → F.FitsAt s.whole s.value →
    (checkAll rules s).Meets formats keyed F.asks (F.Checked s)
  | [], s, _, hs => checked_passed hs
  | r :: rest, s, h, hs => by
    rw [Schema.defaults, touch] at h
    rw [checkAll]
    refine (checked_checkRule r h.of_append.1 hs).bind fun o ho => ?_
    split
    · exact meets_pure ho
    · exact (checked_checkAll rest (s := s.with o.value) h.of_append.2 ho.fits).mono fun u hu =>
        ho.trans hu

theorem checked_checkRule : ∀ (r : Rule) {s : Spot}, F.Admits s.whole r.defaults r.touch →
    F.FitsAt s.whole s.value → (checkRule r s).Meets formats keyed F.asks (F.Checked s)
  | .allOf schemas, s, h, hs => by
    rw [checkRule]
    exact checked_checkEach schemas h hs
  | .choice choice schemas, s, h, hs => by
    rw [checkRule]
    exact (checked_countPassed schemas h choice.enough 0 hs).and_eval.bind
      fun a ⟨⟨hgrown, hfits⟩, hcount⟩ => checked_counted hcount hgrown hfits h
  | .not schema, s, h, hs => by
    rw [checkRule]
    refine (checked_checkAll schema h hs).bind fun o ho => ?_
    exact (checked_ensure (s := s.with o.value) ho.fits _ _).mono fun u hu => ho.trans hu
  | .items schema, s, h, hs => by
    rw [checkRule]
    split
    case h_1 => exact checked_passed hs
    case h_2 xs hxs =>
      have hitems : itemsOf? s.value = some ([] ++ xs) := hxs
      refine (checked_checkItems (fun t ht => checked_checkAll schema
        (ht ▸ admits_part h.defaults _) (ht ▸ fitsAt_part _)) 0 hitems).bind fun a ha => ?_
      exact meets_pure ⟨ha.grown, ha.fits, ha.failure⟩
  | .itemsAt schemas, s, h, hs => by
    rw [checkRule]
    split
    case h_1 => exact checked_passed hs
    case h_2 xs hxs =>
      exact (checked_checkPositions schemas h.defaults 0 hxs).bind fun a ha =>
        meets_pure ⟨ha.grown, ha.fits, ha.failure⟩
  | .properties schemas, s, h, hs => by
    rw [checkRule]
    split
    case h_1 es hes =>
      refine (checked_checkProperties schemas h fun hw => hs hw es hes).bind fun a ha => ?_
      exact meets_pure ⟨hes ▸ ha.grown, ha.fits, ha.failure⟩
    case h_2 => exact checked_passed hs
  | .others known schema, s, h, hs => by
    rw [checkRule]
    split
    case h_1 es hes =>
      have hkeys : ∀ k ∈ (es.map Prod.fst).filter fun k => !known.any fun n => k.sameKey (.text n),
          F.Has es k := fun k hk => F.has (List.mem_filter.mp hk).1
      refine (checked_checkOthers (fun t ht => checked_checkAll schema
        (ht ▸ admits_part h.defaults _) (ht ▸ fitsAt_part _)) (fun hw => hs hw es hes)
        (fun hw => h.others hw rfl) hkeys).bind fun a ha => ?_
      exact meets_pure ⟨hes ▸ ha.grown, ha.fits, ha.failure⟩
    case h_2 => exact checked_passed hs
  | .never, _, _, hs | .type _, _, _, hs | .enum _, _, _, hs | .const _, _, _, hs
  | .nothing, _, _, hs | .anything, _, _, hs | .size .., _, _, hs | .pattern .., _, _, hs
  | .format _, _, _, hs | .magnitude _, _, _, hs | .multipleOf _, _, _, hs | .unique, _, _, hs
  | .noItems, _, _, hs | .required _, _, _, hs | .noOthers _, _, _, hs | .inert _, _, _, hs => by
    simp only [checkRule]
    exact checked_checkPlain hs _

theorem checked_checkEach : ∀ (schemas : List (List Rule)) {s : Spot},
    F.Admits s.whole (defaultsOfEach schemas) (touchOfEach schemas) → F.FitsAt s.whole s.value →
    (checkEach schemas s).Meets formats keyed F.asks (F.Checked s)
  | [], s, _, hs => checked_passed hs
  | schema :: rest, s, h, hs => by
    rw [defaultsOfEach, touchOfEach] at h
    rw [checkEach]
    refine (checked_checkAll schema h.of_append.1 hs).bind fun o ho => ?_
    split
    · exact meets_pure ho
    · exact (checked_checkEach rest (s := s.with o.value) h.of_append.2 ho.fits).mono fun u hu =>
        ho.trans hu

theorem checked_countPassed : ∀ (schemas : List (List Rule)) {s : Spot},
    F.Admits s.whole (defaultsOfEach schemas) (touchOfEach schemas) → ∀ enough n : Nat,
    F.FitsAt s.whole s.value → (countPassed schemas enough n s).Meets formats keyed F.asks
      fun a => F.Grown s.value a.1 ∧ F.FitsAt s.whole a.1
  | [], s, _, _, _, hs => meets_pure ⟨F.refl _, hs⟩
  | schema :: rest, s, h, enough, n, hs => by
    rw [defaultsOfEach, touchOfEach] at h
    rw [countPassed]
    split
    · exact meets_pure ⟨F.refl _, hs⟩
    · refine (checked_checkAll schema h.of_append.1 hs).bind fun o ho => ?_
      exact (checked_countPassed rest (s := s.with o.value) h.of_append.2 enough _ ho.fits).mono
        fun a ha => ⟨F.trans ho.grown ha.1, ha.2⟩

theorem checked_checkPositions : ∀ (schemas : List (List Rule × Option Value)) {s : Spot},
    (∀ d ∈ defaultsOfItems schemas, F.IsDefault d) → ∀ (i : Nat) {v : Value} {xs : List Value},
    itemsOf? v = some xs → (checkPositions schemas s i xs).Meets formats keyed F.asks
      (F.PartsChecked s v (withItems v))
  | [], s, _, i, v, xs, hv => by
    refine meets_pure ⟨?_, fun _ es hes => ?_, nofun⟩
    · rw [withItems_of_itemsOf? hv]
      exact F.refl v
    · have hitems := itemsOf?_withItems v xs
      rw [hes] at hitems
      cases hitems
  | (schema, default) :: rest, s, h, i, v, xs, hv => by
    rw [defaultsOfItems, List.forall_mem_append, List.forall_mem_append] at h
    obtain ⟨⟨hdefault, hschema⟩, hrest⟩ := h
    have hgo {ys : List Value} (hys : F.Grown v (withItems v ys)) :
        (checkPositions rest s (i + 1) ys).Meets formats keyed F.asks
          (F.PartsChecked s v (withItems v)) :=
      (checked_checkPositions rest hrest (i + 1) (itemsOf?_withItems v ys)).mono fun a ha =>
        ⟨withItems_withItems v ys a.1 ▸ F.trans hys ha.grown,
          withItems_withItems v ys a.1 ▸ ha.fits, ha.failure⟩
    rw [checkPositions]
    split
    case h_1 =>
      refine hgo ?_
      cases default with
      | none =>
        rw [Option.toList_none, List.append_nil, withItems_of_itemsOf? hv]
        exact F.refl v
      | some d => exact F.append hv (hdefault d List.mem_cons_self)
    case h_2 x hx =>
      refine (checked_part (fun t ht => checked_checkAll schema (ht ▸ admits_part hschema _)
        (ht ▸ fitsAt_part _)) (t := s.item x) rfl _).bind fun o ho => ?_
      have hitem := F.item hv hx ho.grown
      dsimp only
      split
      case h_1 f hf =>
        refine meets_pure ⟨hitem, fun _ es hes => ?_, fun g hg => ho.failure g (hf.trans hg)⟩
        have hitems := itemsOf?_withItems v (xs.set i o.value)
        rw [hes] at hitems
        cases hitems
      case h_2 => exact hgo hitem

theorem checked_checkProperties : ∀ (schemas : List (String × List Rule × Option Value)) {s : Spot},
    F.AdmitsEntries s.whole schemas → ∀ {es : Value.Entries}, (s.whole = true → F.Fits es) →
    (checkProperties schemas s es).Meets formats keyed F.asks (F.PartsChecked s (.map es) Value.map)
  | [], s, _, es, hs => by
    refine meets_pure ⟨F.refl _, fun hw ds hds => ?_, nofun⟩
    cases hds
    exact hs hw
  | (name, schema, default) :: rest, s, h, es, hs => by
    obtain ⟨hname, hnew, hschema, hrest⟩ := h.of_cons
    have hgo {fs : Value.Entries} (hgrown : F.Grown (.map es) (.map fs))
        (hfits : s.whole = true → F.Fits fs) :
        (checkProperties rest s fs).Meets formats keyed F.asks
          (F.PartsChecked s (.map es) Value.map) :=
      (checked_checkProperties rest hrest hfits).mono fun a ha =>
        ⟨F.trans hgrown ha.grown, ha.fits, ha.failure⟩
    rw [checkProperties.eq_def]
    dsimp only
    split
    case h_1 hnone =>
      cases default with
      | none => exact hgo (F.refl _) hs
      | some d =>
        obtain ⟨hd, hadd⟩ := hnew d rfl
        obtain ⟨hgrown, hfits⟩ := F.enter hs hnone hd hadd
        exact hgo hgrown hfits
    case h_2 v hv =>
      refine (F.listed hs hname hv).bind fun u hu => ?_
      refine (checked_part (fun t ht => checked_checkAll schema (ht ▸ admits_part hschema _)
        (ht ▸ fitsAt_part _)) (t := s.entry (.text name) u) rfl _).bind fun o ho => ?_
      refine (hu o.value ho.grown).bind fun es' ⟨hgrown, hfits, _⟩ => ?_
      split
      case h_1 f hf =>
        refine meets_pure ⟨hgrown, fun hw ds hds => ?_, fun g hg => ho.failure g (hf.trans hg)⟩
        cases hds
        exact hfits hw
      case h_2 => exact hgo hgrown hfits
end

/-! ## The validator and its explanations -/

end Frame
end FirmwareKit.Schema
