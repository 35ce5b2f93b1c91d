import FirmwareKit.Proofs.Config.Parts
set_option autoImplicit false

/-!
# What the conversion of an accepted configuration refuses

The checks let an integral float pass for an integer, the conversion takes integers and texts only.
So a load of what was accepted may fail before the layout is brought into its normal form and after
it: for a float, for a stand-in of the model that is no text, for an integer that is too long to be
written.
-/
namespace FirmwareKit.LinkConfig
open Schema Fault

/-! Numbers -/

/-- The conversion takes every number but the floats. -/
theorem toInt_of_isNumber {v : Value} (h : isNumber v = true) :
    (∃ n, v.toInt none = .ok n ∧ ∀ x, v ≠ .float x) ∨
      ∃ x, v = .float x ∧ v.toInt none = .error (.notNumber (.float x)) := by
  cases v with
  | int n => exact .inl ⟨n, rfl, by rintro x ⟨⟩⟩
  | float x => exact .inr ⟨x, rfl, rfl⟩
  | text s =>
    obtain ⟨n, hn⟩ := Option.isSome_iff_exists.mp (Bool.and_eq_true_iff.mp h).2
    exact .inl ⟨n, toInt_of_toInt? hn, by rintro x ⟨⟩⟩
  | null | bool | bytes | buffer | list | tuple | map | set | moment | model | bank | fileRef
  | dataRef | path =>
    cases h

/-- Two numbers, in a list or a tuple. -/
theorem items_of_isBounds {v : Value} (h : isBounds v = true) :
    ∃ xs, itemsOf? v = some xs ∧ boundsOf v = (xs.mapM fun x => x.toInt none) >>=
      (fun ns => .ok (.list (ns.map Value.int))) ∧ ∀ x ∈ xs, isNumber x = true := by
  have hxs {xs : List Value} (h : isBounds (.list xs) = true) : ∀ x ∈ xs, isNumber x = true := by
    rcases xs with _ | ⟨start, _ | ⟨last, _ | _⟩⟩
    · cases h
    · cases h
    · obtain ⟨hstart, hlast⟩ := Bool.and_eq_true_iff.mp h
      exact List.forall_mem_cons.mpr ⟨hstart, List.forall_mem_singleton.mpr hlast⟩
    · cases h
  cases v with
  | list xs => exact ⟨xs, rfl, rfl, hxs h⟩
  | tuple xs => exact ⟨xs, rfl, rfl, hxs h⟩
  | null | bool | int | float | text | bytes | buffer | map | set | moment | model | bank
  | fileRef | dataRef | path => cases h

namespace Parts

def layoutNumbers (p : Parts) : List Value := p.layout.flatMap fun e => (itemsOf? e.2).getD []

/-- The numbers that a conversion reads; given bounds stand in for those of the ROM. -/
def numbers (p : Parts) (romStart romLength : Option Int) : List Value :=
  p.layoutNumbers ++ romStart.elim [p.romStart] (fun _ => []) ++
    romLength.elim [p.romLength] (fun _ => []) ++ (p.constants?.getD []).map Prod.snd

variable {p : Parts}

theorem isNumber_of_mem_constants (hfit : p.Fit) {e : Value × Value}
    (he : e ∈ p.constants?.getD []) : isNumber e.2 = true := by
  cases hp : p.constants? with
  | none =>
    rw [hp] at he
    cases he
  | some es =>
    rw [hp] at he
    exact hfit.constants es hp e he

theorem isNumber_of_mem (hfit : p.Fit) {romStart romLength : Option Int} {v : Value}
    (hv : v ∈ p.numbers romStart romLength) : isNumber v = true := by
  simp only [numbers, layoutNumbers, List.mem_append, List.mem_flatMap, List.mem_map] at hv
  rcases hv with ((⟨e, he, hv⟩ | hv) | hv) | ⟨e, he, rfl⟩
  · obtain ⟨xs, hxs, _, hnumbers⟩ := items_of_isBounds (hfit.bounds e he)
    rw [hxs, Option.getD_some] at hv
    exact hnumbers v hv
  · cases romStart with
    | none => exact List.mem_singleton.mp hv ▸ hfit.romStart
    | some => cases hv
  · cases romLength with
    | none => exact List.mem_singleton.mp hv ▸ hfit.romLength
    | some => cases hv
  · exact isNumber_of_mem_constants hfit he

inductive Refused (p : Parts) (overlong : Bool) (literal? : Option Value)
    (romStart romLength : Option Int) : Fault → Prop
  | normalized {raw : Value.Entries} {model : String} {f : Fault}
    (hraw : layoutEntries p.layout = .ok raw)
    (hmodel : p.model?.elim (standIn overlong (unnamedModel literal?)) .ok = .ok model)
    (h : Memory.normalize raw (.text model) = .error f) :
    Refused p overlong literal? romStart romLength f
  | float {x : Binary64} (h : .float x ∈ p.numbers romStart romLength) :
    Refused p overlong literal? romStart romLength (.notNumber (.float x))
  | literal {v : Value} (hmodel : p.model? = none) (hv : literal? = some v)
    (htext : ∀ s, v ≠ .text s) :
    Refused p overlong literal? romStart romLength (.notTextAt (.text "memory/model"))
  | overlong (hlong : overlong = true) (h : p.model? = none ∨ p.constants? = none) :
    Refused p overlong literal? romStart romLength (.system .overlongInteger)

theorem layoutEntries_eq_error (hfit : p.Fit) {f : Fault} (h : layoutEntries p.layout = .error f) :
    ∃ x, .float x ∈ p.layoutNumbers ∧ f = .notNumber (.float x) := by
  obtain ⟨e, he, hf⟩ := Outcome.exists_of_mapM_eq_error h
  obtain ⟨xs, hxs, hbounds, hnumbers⟩ := items_of_isBounds (hfit.bounds e he)
  have hitems : (xs.mapM fun x => x.toInt none) = .error f := by
    rw [hbounds] at hf
    generalize (xs.mapM fun x => x.toInt none) = ns at hf
    cases ns with
    | error => exact congrArg Except.error (Except.error.inj hf)
    | ok => cases hf
  obtain ⟨v, hv, hf⟩ := Outcome.exists_of_mapM_eq_error hitems
  rcases toInt_of_isNumber (hnumbers v hv) with ⟨n, hn, _⟩ | ⟨x, rfl, hx⟩
  · rw [hn] at hf
    cases hf
  · rw [hx] at hf
    exact ⟨x, List.mem_flatMap.mpr ⟨e, he, by rwa [hxs]⟩, (Except.error.inj hf).symm⟩

theorem unnamedModel_eq_error {literal? : Option Value} {f : Fault}
    (h : unnamedModel literal? = .error f) :
    f = .notTextAt (.text "memory/model") ∧ ∃ v, literal? = some v ∧ ∀ s, v ≠ .text s := by
  cases literal? with
  | none => cases h
  | some v =>
    cases v with
    | text => cases h
    | null | bool | int | float | bytes | buffer | list | tuple | map | set | moment | model
    | bank | fileRef | dataRef | path => exact ⟨(Except.error.inj h).symm, _, rfl, by rintro s ⟨⟩⟩

theorem standIn_eq_error {α : Type} {overlong : Bool} {e : Except Fault α} {f : Fault}
    (h : standIn overlong e = .error f) :
    (overlong = true ∧ f = .system .overlongInteger) ∨ e = .error f := by
  cases overlong with
  | true => exact .inl ⟨rfl, (Except.error.inj h).symm⟩
  | false => exact .inr h

theorem model_eq_error {overlong : Bool} {literal? : Option Value} {f : Fault}
    (h : p.model?.elim (standIn overlong (unnamedModel literal?)) .ok = .error f)
    (romStart romLength : Option Int) : p.Refused overlong literal? romStart romLength f := by
  cases hp : p.model? with
  | some s =>
    rw [hp] at h
    cases h
  | none =>
    rw [hp] at h
    rcases standIn_eq_error h with ⟨hlong, rfl⟩ | h
    · exact .overlong hlong (.inl hp)
    · obtain ⟨rfl, v, hv, htext⟩ := unnamedModel_eq_error h
      exact .literal hp hv htext

theorem bound_eq_error {given : Option Int} {v : Value} (hv : isNumber v = true) {f : Fault}
    (h : given.elim (v.toInt none) .ok = .error f) :
    ∃ x, .float x ∈ given.elim [v] (fun _ => []) ∧ f = .notNumber (.float x) := by
  cases given with
  | some => cases h
  | none =>
    have h : v.toInt none = .error f := h
    rcases toInt_of_isNumber hv with ⟨n, hn, _⟩ | ⟨x, rfl, hx⟩
    · rw [hn] at h
      cases h
    · rw [hx] at h
      exact ⟨x, List.mem_singleton.mpr rfl, (Except.error.inj h).symm⟩

theorem constants_eq_error {overlong : Bool} {f : Fault}
    (h : p.constants?.elim (standIn overlong (.ok [])) .ok = .error f) :
    overlong = true ∧ p.constants? = none ∧ f = .system .overlongInteger := by
  cases hp : p.constants? with
  | some =>
    rw [hp] at h
    cases h
  | none =>
    rw [hp] at h
    rcases standIn_eq_error h with ⟨hlong, rfl⟩ | h
    · exact ⟨hlong, rfl, rfl⟩
    · cases h

theorem constants_eq_ok {overlong : Bool} {es : Value.Entries}
    (h : p.constants?.elim (standIn overlong (.ok [])) .ok = .ok es) :
    es = p.constants?.getD [] := by
  cases hp : p.constants? with
  | some =>
    rw [hp] at h
    exact (Except.ok.inj h).symm
  | none =>
    rw [hp] at h
    cases overlong with
    | true => cases h
    | false => exact (Except.ok.inj h).symm

theorem constantsOf_eq_error {es : Value.Entries} (hes : ∀ e ∈ es, isNumber e.2 = true) {f : Fault}
    (h : constantsOf es = .error f) :
    ∃ x, .float x ∈ es.map Prod.snd ∧ f = .notNumber (.float x) := by
  obtain ⟨e, he, hf⟩ := Outcome.exists_of_mapM_eq_error h
  rcases toInt_of_isNumber (hes e he) with ⟨n, hn, _⟩ | ⟨x, hx, htoInt⟩
  · rw [hn] at hf
    cases hf
  · rw [htoInt] at hf
    exact ⟨x, hx ▸ List.mem_map_of_mem he, (Except.error.inj hf).symm⟩

/-- A conversion that fails has met one of these reasons. -/
theorem refused_of_converted (hfit : p.Fit) {overlong : Bool} {literal? : Option Value}
    {romStart romLength : Option Int} {f : Fault}
    (h : p.converted overlong literal? romStart romLength = .error f) :
    p.Refused overlong literal? romStart romLength f := by
  have mem {v : Value} {vs ws : List Value} (h : v ∈ vs) : v ∈ vs ++ ws := List.mem_append_left ws h
  -- The steps in their order: each one fails for a reason of its own, or the next one is reached.
  rcases (Outcome.bind_eq_error_iff _ _ _).mp h with hraw | ⟨raw, hraw, h⟩
  · obtain ⟨x, hx, rfl⟩ := layoutEntries_eq_error hfit hraw
    exact .float (mem (mem (mem hx)))
  rcases (Outcome.bind_eq_error_iff _ _ _).mp h with hmodel | ⟨model, hmodel, h⟩
  · exact model_eq_error hmodel romStart romLength
  rcases (Outcome.bind_eq_error_iff _ _ _).mp h with hlayout | ⟨layout, _, h⟩
  · exact .normalized hraw hmodel hlayout
  rcases (Outcome.bind_eq_error_iff _ _ _).mp h with hstart | ⟨start, _, h⟩
  · obtain ⟨x, hx, rfl⟩ := bound_eq_error hfit.romStart hstart
    exact .float (mem (mem (List.mem_append_right _ hx)))
  rcases (Outcome.bind_eq_error_iff _ _ _).mp h with hlength | ⟨length, _, h⟩
  · obtain ⟨x, hx, rfl⟩ := bound_eq_error hfit.romLength hlength
    exact .float (mem (List.mem_append_right _ hx))
  rcases (Outcome.bind_eq_error_iff _ _ _).mp h with hheld | ⟨es, hheld, h⟩
  · obtain ⟨hlong, hnone, rfl⟩ := constants_eq_error hheld
    exact .overlong hlong (.inr hnone)
  obtain rfl := constants_eq_ok hheld
  rcases (Outcome.bind_eq_error_iff _ _ _).mp h with hconstants | ⟨constants, _, h⟩
  · obtain ⟨x, hx, rfl⟩ :=
      constantsOf_eq_error (fun _ => isNumber_of_mem_constants hfit) hconstants
    exact .float (List.mem_append_right _ hx)
  · cases h

theorem toInt_of_layoutEntries (hfit : p.Fit) {raw : Value.Entries}
    (h : layoutEntries p.layout = .ok raw) {v : Value} (hv : v ∈ p.layoutNumbers) :
    ∃ n, v.toInt none = .ok n := by
  obtain ⟨e, he, hv⟩ := List.mem_flatMap.mp hv
  obtain ⟨xs, hxs, hbounds, _⟩ := items_of_isBounds (hfit.bounds e he)
  obtain ⟨_, h⟩ := Outcome.exists_of_mapM_eq_ok h he
  obtain ⟨b, hb, _⟩ := (Outcome.bind_eq_ok_iff _ _ _).mp h
  obtain ⟨ns, hns, _⟩ := (Outcome.bind_eq_ok_iff _ _ _).mp (hbounds ▸ hb)
  rw [hxs] at hv
  exact Outcome.exists_of_mapM_eq_ok hns hv

theorem toInt_of_bound {given : Option Int} {v w : Value} {n : Int}
    (h : given.elim (v.toInt none) .ok = .ok n) (hw : w ∈ given.elim [v] fun _ => []) :
    ∃ n, w.toInt none = .ok n := by
  cases given with
  | none => exact ⟨n, List.mem_singleton.mp hw ▸ h⟩
  | some => cases hw

/-- A conversion that succeeds has read every number. -/
theorem toInt_of_converted (hfit : p.Fit) {overlong : Bool} {literal? : Option Value}
    {romStart romLength : Option Int} {l : LinkConfig}
    (h : p.converted overlong literal? romStart romLength = .ok l) {v : Value}
    (hv : v ∈ p.numbers romStart romLength) : ∃ n, v.toInt none = .ok n := by
  obtain ⟨raw, hraw, h⟩ := (Outcome.bind_eq_ok_iff _ _ _).mp h
  obtain ⟨model, _, h⟩ := (Outcome.bind_eq_ok_iff _ _ _).mp h
  obtain ⟨layout, _, h⟩ := (Outcome.bind_eq_ok_iff _ _ _).mp h
  obtain ⟨start, hstart, h⟩ := (Outcome.bind_eq_ok_iff _ _ _).mp h
  obtain ⟨length, hlength, h⟩ := (Outcome.bind_eq_ok_iff _ _ _).mp h
  obtain ⟨es, hheld, h⟩ := (Outcome.bind_eq_ok_iff _ _ _).mp h
  obtain ⟨constants, hconstants, _⟩ := (Outcome.bind_eq_ok_iff _ _ _).mp h
  obtain rfl := constants_eq_ok hheld
  simp only [numbers, List.mem_append, List.mem_map] at hv
  rcases hv with ((hv | hv) | hv) | ⟨e, he, rfl⟩
  · exact toInt_of_layoutEntries hfit hraw hv
  · exact toInt_of_bound hstart hv
  · exact toInt_of_bound hlength hv
  · obtain ⟨_, h⟩ := Outcome.exists_of_mapM_eq_ok hconstants he
    obtain ⟨n, hn, _⟩ := (Outcome.bind_eq_ok_iff _ _ _).mp h
    exact ⟨n, hn⟩

end Parts

variable {c : Config} {p : Parts}

def Accepted (c : Config) : Prop :=
  ∀ w, ((validation c).unreporting.run Schema.standard true (.map c.entries)).outcome w =
    .ok ()

theorem verdict_of_accepted (hproper : (Value.map c.entries).isProper = true) (h : Accepted c) :
    verdict c.entries = .ok () :=
  (check_outcome hproper Workspace.bare).symm.trans (h Workspace.bare)

theorem fit_of_accepted (hproper : (Value.map c.entries).isProper = true) (h : Accepted c)
    (hin : p.In c.entries) : p.Fit := by
  obtain ⟨q, hq, hfit⟩ := (verdict_eq_ok_iff c.entries).mp (verdict_of_accepted hproper h)
  exact hin.unique hq ▸ hfit

/-- An accepted configuration is converted unless the name of an unknown entry cannot be written. -/
theorem ending_load (hproper : (Value.map c.entries).isProper = true) (h : Accepted c)
    (hin : p.In c.entries) (romStart romLength : Option Int) (w : Workspace) :
    (namesOverlong c.entries = true ∧
      ∃ f, f.kind = overlongKind ∧ (load c romStart romLength).ending w = .error f) ∨
    (namesOverlong c.entries = false ∧ (load c romStart romLength).ending w =
      p.converted (Value.map c.entries).isOverlong
        (Config.given? (c.entries.getText? "memory/model")) romStart romLength) := by
  -- The checks pass, so only the search for unknown entries can keep the conversion from starting.
  have hvalidation := validation_outcome hproper w
  rw [verdict_of_accepted hproper h] at hvalidation
  rw [load, Run.ending_bind fun _ => ends_convert c romStart romLength]
  rw [Run.outcome] at hvalidation
  generalize ((validation c).run Schema.standard true (.map c.entries)).ending w = ending at hvalidation
  cases hnames : namesOverlong c.entries with
  | true =>
    rw [hnames] at hvalidation
    cases ending with
    | ok => cases hvalidation
    | error f => exact .inl ⟨rfl, f, Except.error.inj hvalidation, rfl⟩
  | false =>
    rw [hnames] at hvalidation
    cases ending with
    | error => cases hvalidation
    | ok =>
      rw [← Parts.converted_of_parts hin (fit_of_accepted hproper h hin)]
      exact .inr ⟨rfl, rfl⟩

/-- Of the numbers that the checks accept, the conversion refuses exactly the floats; a load that
reads one fails. Every other failure of a load of an accepted configuration is one of the layout's
normal form, of a stand-in for the model that is no text, or of an integer too long to be written. -/
theorem load_refused (hproper : (Value.map c.entries).isProper = true) (haccepted : Accepted c)
    (hin : p.In c.entries) (romStart romLength : Option Int) :
    (∀ v ∈ p.numbers romStart romLength,
      (∃ n, v.toInt none = .ok n) ↔ ∀ x, v ≠ .float x) ∧
    ∀ w,
      (∀ f, (load c romStart romLength).ending w = .error f →
        p.Refused (Value.map c.entries).isOverlong
          (Config.given? (c.entries.getText? "memory/model")) romStart romLength f ∨
        (namesOverlong c.entries = true ∧ f.kind = overlongKind)) ∧
      ((∃ x, .float x ∈ p.numbers romStart romLength) →
        ∃ f, (load c romStart romLength).ending w = .error f) := by
  have hfit := fit_of_accepted hproper haccepted hin
  have hfloat {v : Value} (hv : v ∈ p.numbers romStart romLength) :
      (∃ n, v.toInt none = .ok n) ↔ ∀ x, v ≠ .float x := by
    rcases toInt_of_isNumber (Parts.isNumber_of_mem hfit hv) with ⟨n, hn, hne⟩ | ⟨x, hx, hf⟩
    · exact ⟨fun _ => hne, fun _ => ⟨n, hn⟩⟩
    · refine ⟨?_, fun hne => absurd hx (hne x)⟩
      rintro ⟨n, hn⟩
      rw [hf] at hn
      cases hn
  refine ⟨fun _ => hfloat, fun w => ?_⟩
  rcases ending_load hproper haccepted hin romStart romLength w with
    ⟨hnames, f, hkind, hending⟩ | ⟨_, hending⟩
  · refine ⟨fun g hg => ?_, fun _ => ⟨f, hending⟩⟩
    rw [hending] at hg
    exact .inr ⟨hnames, Except.error.inj hg ▸ hkind⟩
  · rw [hending]
    refine ⟨fun f hf => .inl (Parts.refused_of_converted hfit hf), ?_⟩
    rintro ⟨x, hx⟩
    cases hl : p.converted (Value.map c.entries).isOverlong
      (Config.given? (c.entries.getText? "memory/model")) romStart romLength with
    | error f => exact ⟨f, rfl⟩
    | ok l => exact absurd rfl ((hfloat hx).mp (Parts.toInt_of_converted hfit hl hx) x)

def floatEntries : Value.Entries := [
  entry "memory" (.map [entry "model" (.text "small"),
    entry "layout" (.map [entry "c_heap" (.list [.int 0x10000, .int 0x10FFF])])]),
  entry "rom" (.map [entry "start" (.float (.ofInt 0x20000)), entry "length" (.int 0x10000)])]

def floatParts : Parts :=
  ⟨some "small", [entry "c_heap" (.list [.int 0x10000, .int 0x10FFF])], .float (.ofInt 0x20000),
    .int 0x10000, none⟩

theorem floatParts_in : floatParts.In floatEntries :=
  ⟨⟨_, rfl, rfl, rfl⟩, ⟨_, rfl, rfl, rfl⟩, rfl⟩

theorem accepted_floatEntries : Accepted (Config.ofEntries "/" floatEntries) := by
  have hproper : (Value.map floatEntries).isProper = true := by decide +kernel
  have hverdict : verdict floatEntries = .ok () := by decide +kernel
  exact fun w => (check_outcome hproper w).trans hverdict

theorem load_refused_floatEntries :
    (Value.map floatEntries).isProper = true ∧ Accepted (Config.ofEntries "/" floatEntries) ∧
      floatParts.In floatEntries ∧ .float (.ofInt 0x20000) ∈ floatParts.numbers none none ∧
      ∃ f, (load (Config.ofEntries "/" floatEntries) none none).ending Workspace.bare =
        .error f := by
  have hproper : (Value.map floatEntries).isProper = true := by decide +kernel
  have hmem : .float (.ofInt 0x20000) ∈ floatParts.numbers none none :=
    List.mem_cons_of_mem _ (List.mem_cons_of_mem _ List.mem_cons_self)
  have hall := load_refused (c := Config.ofEntries "/" floatEntries) hproper accepted_floatEntries
    floatParts_in none none
  exact ⟨hproper, accepted_floatEntries, floatParts_in, hmem, (hall.2 Workspace.bare).2 ⟨_, hmem⟩⟩

/-- The start of the ROM passes the checks and the layout has a normal form, but the load fails. -/
theorem load_refuses_accepted_float :
    Accepted (Config.ofEntries "/" floatEntries) ∧
      (∃ raw l, layoutEntries floatParts.layout = .ok raw ∧
        Memory.normalize raw (.text "small") = .ok l) ∧
      (load (Config.ofEntries "/" floatEntries) none none).ending Workspace.bare =
        .error (.notNumber (.float (.ofInt 0x20000))) := by
  have hproper : (Value.map floatEntries).isProper = true := by decide +kernel
  have hnames : namesOverlong floatEntries = false := by decide +kernel
  have hending := ending_load (c := Config.ofEntries "/" floatEntries) hproper accepted_floatEntries
    floatParts_in none none Workspace.bare
  refine ⟨accepted_floatEntries, ⟨_, _, rfl, rfl⟩, ?_⟩
  rcases hending with ⟨hlong, _⟩ | ⟨_, hending⟩
  · cases hnames.symm.trans hlong
  · exact hending.trans rfl

end FirmwareKit.LinkConfig
