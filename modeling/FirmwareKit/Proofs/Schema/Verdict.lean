import FirmwareKit.Proofs.Schema.Program
import FirmwareKit.Proofs.Value.Proper
import FirmwareKit.Schema.Validate
set_option autoImplicit false

namespace FirmwareKit.Schema
open Fault

abbrev Verdict := Except Kind Unit

def overlongKind : Kind := (Fault.system .overlongInteger).kind

/-- The verdict on a condition that a failure could be named for unless its name is `overlong`. -/
def demand (overlong holds : Bool) : Verdict :=
  if holds then .ok () else .error (if overlong then overlongKind else .general)

theorem demand_and (overlong p q : Bool) :
    (demand overlong p >>= fun _ => demand overlong q) = demand overlong (p && q) := by
  cases p <;> cases q <;> rfl

/-- A failure that is explained without trying anything again. -/
def Failure.Plain {D : Type} (f : Failure D) : Prop :=
  match f.cause with
  | .other => True
  | .format _ => f.subject.value.isOverlong = false
  | .required names => (∃ es, f.subject.value = .map es) ∧ ∀ n ∈ names, ∃ s, n = .text s
  | .alternatives .. => False

/-- What a program comes to whose results may hold a failure: the result `a`, or a fault of a
kind. -/
inductive Judged {α D : Type} (failure? : α → Option (Failure D)) (a : α) :
    Except Fault α → Verdict → Prop
  | passes : Judged failure? a (.ok a) (.ok ())
  | fails {b : α} {f : Failure D} (hb : failure? b = some f) (hf : f.Plain) :
    Judged failure? a (.ok b) (.error .general)
  | breaks (f : Fault) : Judged failure? a (.error f) (.error f.kind)

/-- A program that comes to the same by key paths over all files. -/
def Comes {α D : Type} (failure? : α → Option (Failure D)) (p : Program α) (a : α) (v : Verdict) :
    Prop :=
  ∀ places w, Judged failure? a (p.eval (formatsOf places w) true) v

section Comes
variable {α β γ D : Type} {failure? : α → Option (Failure D)} {failed? : β → Option (Failure D)}

theorem comes_pure (a : α) : Comes failure? (pure a) a (.ok ()) := fun _ _ => .passes

theorem comes_system (f : SystemFault) (a : α) :
    Comes failure? (Program.system f) a (.error (Fault.system f).kind) :=
  fun _ _ => .breaks (.system f)

/-- A failure must not get lost on the way. -/
theorem Comes.bind {p : Program α} {k : α → Program β} {a : α} {b : β} {v u : Verdict}
    (hp : Comes failure? p a v) (hk : v = .ok () → Comes failed? (k a) b u)
    (hfail : ∀ x f, failure? x = some f → f.Plain → ∀ formats, ∃ y g,
      (k x).eval formats true = .ok y ∧ failed? y = some g ∧ g.Plain) :
    Comes failed? (p >>= k) b (v >>= fun _ => u) := by
  intro places w
  rw [Program.eval_bind]
  have hend := hp places w
  generalize p.eval _ true = result at hend
  cases hend with
  | passes => exact hk rfl places w
  | fails hb hf =>
    obtain ⟨y, g, hy, hfailed, hg⟩ := hfail _ _ hb hf (formatsOf places w)
    change Judged failed? b ((k _).eval _ true) _
    rw [hy]
    exact .fails hfailed hg
  | breaks f => exact .breaks f

theorem Comes.map {p : Program α} {k : α → β} {a : α} {v : Verdict} (hp : Comes failure? p a v)
    (hk : ∀ x f, failure? x = some f → f.Plain → ∃ g, failed? (k x) = some g ∧ g.Plain) :
    Comes failed? (k <$> p) (k a) v := by
  have h : Comes failed? (p >>= fun x => pure (k x)) (k a) (v >>= fun _ => .ok ()) :=
    hp.bind (fun _ => comes_pure (k a)) fun x f hf hplain _ =>
      let ⟨g, hg, hgplain⟩ := hk x f hf hplain
      ⟨k x, g, rfl, hg, hgplain⟩
  rw [map_eq_pure_bind]
  cases v with
  | ok => exact h
  | error kind => exact h

/-- A step that only looks something up. -/
theorem Comes.after {p : Program γ} {k : γ → Program β} {e : Except Fault γ} {b : β}
    {u : γ → Verdict} (hp : ∀ formats, p.eval formats true = e)
    (hk : ∀ c, e = .ok c → Comes failed? (k c) b (u c)) :
    Comes failed? (p >>= k) b (e.mapError Fault.kind >>= u) := by
  intro places w
  rw [Program.eval_bind, hp]
  cases he : e with
  | ok c => exact hk c he places w
  | error f => exact .breaks f

end Comes

/-! Single rules -/

/-- A check that leaves its value as it is, or ends with a fault of some kind. -/
def Checks (p : Program Finding) (value : Value) (v : Verdict) : Prop :=
  Comes Outcome.failure p ⟨value, none⟩ v

variable {s : Spot}

theorem checks_failed (text : String) {cause : Cause (List Rule)}
    (h : Failure.Plain ⟨" " ++ text, s.toSubject, cause⟩) :
    Checks (failed s text cause) s.value (demand s.overlong false) := by
  rw [failed]
  split
  case isTrue hlong =>
    rw [hlong]
    exact comes_system _ _
  case isFalse hshort =>
    rw [Bool.not_eq_true] at hshort
    rw [hshort]
    exact fun _ _ => .fails rfl h

theorem checks_ensure (holds : Bool) (text : String) :
    Checks (ensure s holds text) s.value (demand s.overlong holds) := by
  cases holds with
  | true => exact comes_pure _
  | false => exact checks_failed text trivial

section Rules
variable (s)

theorem checks_type (types : List TypeName) :
    Checks (checkRule (.type types) s) s.value
      (demand s.overlong (hasType types s.value)) :=
  checks_ensure (hasType types s.value) _

theorem checks_enum (values : List Value) :
    Checks (checkRule (.enum values) s) s.value
      (demand s.overlong (values.any (·.eq s.value))) :=
  checks_ensure (values.any (·.eq s.value)) _

def isSized (measure : Measure) (side : Side) (limit v : Value) : Bool :=
  match measure.of? v with
  | some n => !(Limit.violatedBy ⟨side, false, limit⟩ (.int n))
  | none => true

theorem checks_size (measure : Measure) (side : Side) (limit : Value) :
    Checks (checkRule (.size measure side limit) s) s.value
      (demand s.overlong (isSized measure side limit s.value)) :=
  checks_ensure (isSized measure side limit s.value) _

end Rules

theorem violatedBy_least (m n : Int) :
    Limit.violatedBy ⟨.least, false, .int m⟩ (.int n) = decide (n < m) := by
  simp only [Limit.violatedBy, Value.toNumber?, Value.Number.compare?, compare, compareOfLessAndEq]
  by_cases hlt : n < m
  · simp [hlt]
  · by_cases heq : n = m <;> simp [hlt, heq]

theorem violatedBy_most (m n : Int) :
    Limit.violatedBy ⟨.most, false, .int m⟩ (.int n) = decide (m < n) := by
  simp only [Limit.violatedBy, Value.toNumber?, Value.Number.compare?, compare, compareOfLessAndEq]
  by_cases hgt : m < n
  · simp [hgt, show ¬ n < m by omega, show n ≠ m by omega]
  · by_cases heq : n = m
    · simp [heq]
    · simp [hgt, show n < m by omega]

theorem isSized_least {measure : Measure} {v : Value} {n : Nat} (h : measure.of? v = some n)
    (m : Nat) : isSized measure .least (.int m) v = decide (m ≤ n) := by
  simp only [isSized, h, violatedBy_least, ← decide_not]
  exact decide_eq_decide.mpr (by omega)

theorem isSized_most {measure : Measure} {v : Value} {n : Nat} (h : measure.of? v = some n)
    (m : Nat) : isSized measure .most (.int m) v = decide (n ≤ m) := by
  simp only [isSized, h, violatedBy_most, ← decide_not]
  exact decide_eq_decide.mpr (by omega)

def readsAsNumber : Value → Bool
  | .text t => (Value.text t).toInt?.isSome
  | _ => true

variable (s) in
theorem checks_number :
    Checks (checkRule (.format .number) s) s.value
      (demand s.overlong (readsAsNumber s.value)) := by
  intro places w
  have hcheck : (checkRule (.format .number) s).eval (formatsOf places w) true =
      (if readsAsNumber s.value then passed s
        else failed s "must be number" (.format "number")).eval (formatsOf places w) true := by
    obtain ⟨⟨whole, v⟩, overlong⟩ := s
    cases v <;> rfl
  rw [hcheck]
  cases hreads : readsAsNumber s.value with
  | true => exact comes_pure _ places w
  | false =>
    have hshort : s.value.isOverlong = false := by
      cases hv : s.value with
      | text t => rfl
      | _ =>
        rw [hv] at hreads
        cases hreads
    have hplain : Failure.Plain
      (⟨" " ++ "must be number", s.toSubject, .format "number"⟩ : Flaw) := hshort
    exact checks_failed _ hplain places w

def hasAll (names : List Value) : Value → Bool
  | .map es => names.all fun n => (Value.Entries.get? es n).isSome
  | _ => true

theorem mapM_text?_of_texts {names : List Value} (h : ∀ n ∈ names, ∃ t, n = .text t) :
    ∃ ts, names.mapM text? = some ts := by
  induction names with
  | nil => exact ⟨[], rfl⟩
  | cons n rest ih =>
    obtain ⟨⟨t, rfl⟩, hrest⟩ := List.forall_mem_cons.mp h
    obtain ⟨ts, hts⟩ := ih hrest
    exact ⟨t :: ts, by simp [List.mapM_cons, text?, hts]⟩

theorem missingText_of_texts {names : List Value} (h : ∀ n ∈ names, ∃ t, n = .text t) :
    ∃ text, missingText names = .ok text := by
  obtain ⟨ts, hts⟩ := mapM_text?_of_texts h
  unfold missingText
  split
  · exact ⟨_, rfl⟩
  · simp [sortedTexts?, hts]

variable (s) in
theorem checks_required {names : List Value} (h : ∀ n ∈ names, ∃ t, n = .text t) :
    Checks (checkRule (.required names) s) s.value
      (demand s.overlong (hasAll names s.value)) := by
  change Checks (checkRequired names s) s.value _
  simp only [checkRequired]
  split
  case h_2 hvalue =>
    have hall : hasAll names s.value = true := by
      unfold hasAll
      split
      · rename_i es hes
        exact absurd hes (hvalue es)
      · rfl
    rw [hall]
    exact comes_pure _
  case h_1 es hes =>
    rw [hes]
    change Checks _ _ (demand s.overlong (names.all fun n => (Value.Entries.get? es n).isSome))
    split
    case isTrue hnone =>
      have hall : (names.all fun n => (Value.Entries.get? es n).isSome) = true := by
        simpa [Option.isSome_iff_ne_none] using hnone
      rw [hall, ← hes]
      exact comes_pure _
    case isFalse hsome =>
      have hall : (names.all fun n => (Value.Entries.get? es n).isSome) = false := by
        rw [Bool.eq_false_iff]
        simpa [Option.isSome_iff_ne_none] using hsome
      have hmissing : ∀ n ∈ names.filter fun n => (Value.Entries.get? es n).isNone,
          ∃ t, n = .text t := fun n hn => h n (List.mem_filter.mp hn).1
      obtain ⟨text, htext⟩ := missingText_of_texts hmissing
      rw [hall, htext, ← hes]
      exact checks_failed _ ⟨⟨es, hes⟩, h⟩

/-! Rules one after the other -/

variable (s) in
theorem checks_nil : Checks (checkAll [] s) s.value (.ok ()) := by
  rw [checkAll]
  exact comes_pure _

theorem checks_cons {r : Rule} {rest : List Rule} {v u : Verdict}
    (hr : Checks (checkRule r s) s.value v)
    (hrest : v = .ok () → Checks (checkAll rest s) s.value u) :
    Checks (checkAll (r :: rest) s) s.value (v >>= fun _ => u) := by
  rw [checkAll]
  refine Comes.bind hr hrest ?_
  intro o f ho hplain formats
  exact ⟨o, f, by simp only [ho]; rfl, ho, hplain⟩

/-- The check of a part, which names the way to it where it fails. -/
theorem Checks.under {p : Program Finding} {value : Value} {v : Verdict} (h : Checks p value v)
    (step : String) : Checks (Outcome.under step <$> p) value v := by
  refine Comes.map (k := Outcome.under step) h fun o f hf hplain => ⟨f.under step, ?_, hplain⟩
  rw [Outcome.under, hf]
  rfl

/-! Rules for the parts of a value -/

theorem comes_items {check : Spot → Program Finding} {g : Value → Verdict}
    (h : ∀ v, Checks (check (s.item v)) v (g v)) (i : Nat) (xs : List Value) :
    Comes Prod.snd (checkItems check s i xs) (xs, none) (xs.forM g) := by
  induction xs generalizing i with
  | nil => exact comes_pure _
  | cons v rest ih =>
    rw [checkItems]
    refine Comes.bind ((h v).under _) (fun _ => ?_) ?_
    · refine Comes.map (k := fun p : List Value × Option Flaw => (v :: p.1, p.2)) (ih (i + 1)) ?_
      exact fun a f hf hplain => ⟨f, hf, hplain⟩
    · intro o f ho hplain formats
      exact ⟨(o.value :: rest, some f), f, by simp only [ho]; rfl, rfl, hplain⟩

theorem withItems_of_itemsOf? {v : Value} {xs : List Value} (h : itemsOf? v = some xs) :
    withItems v xs = v := by
  cases v <;> simp_all [itemsOf?, withItems]

theorem checks_items {schema : List Rule} {g : Value → Verdict}
    (h : ∀ v, Checks (checkAll schema (s.item v)) v (g v)) :
    Checks (checkRule (.items schema) s) s.value
      ((itemsOf? s.value).elim (.ok ()) fun xs => xs.forM g) := by
  rw [checkRule]
  cases hitems : itemsOf? s.value with
  | none => exact comes_pure _
  | some xs =>
    have hmap : Comes Outcome.failure
        ((fun p : List Value × Option Flaw => (⟨withItems s.value p.1, p.2⟩ : Finding)) <$>
          checkItems (checkAll schema) s 0 xs) ⟨withItems s.value xs, none⟩ (xs.forM g) :=
      (comes_items h 0 xs).map fun _ f hf hplain => ⟨f, hf, hplain⟩
    rw [withItems_of_itemsOf? hitems] at hmap
    exact hmap

section Parts
variable (hpart : s.whole = false)
include hpart

theorem entry_of_part (es : Value.Entries) (key : Value) :
    entry s es key = pure ((es.get? key).getD .null) := by
  rw [entry, hpart]
  rfl

theorem entryOrNull_of_part (es : Value.Entries) (key : Value) :
    entryOrNull s es key = pure ((es.get? key).getD .null) := by
  rw [entryOrNull, hpart]
  rfl

theorem putBack_of_part (es : Value.Entries) (key v : Value) :
    putBack s es key v = pure (es.insert key v) := by
  rw [putBack, hpart]
  rfl

/-- The entries that are checked are there under their own keys, so checking them changes none. -/
theorem comes_others {check : Spot → Program Finding} {g : Value × Value → Verdict}
    {es others : Value.Entries} (hfound : ∀ e ∈ others, es.get? e.1 = some e.2)
    (h : ∀ e ∈ others, Checks (check (s.entry e.1 e.2)) e.2 (g e)) :
    Comes Prod.snd (checkOthers check s (others.map Prod.fst) es) (es, none) (others.forM g) := by
  induction others with
  | nil => exact comes_pure _
  | cons e rest ih =>
    obtain ⟨hefound, hrestfound⟩ := List.forall_mem_cons.mp hfound
    obtain ⟨he, hrest⟩ := List.forall_mem_cons.mp h
    rw [List.map_cons, checkOthers, entryOrNull_of_part hpart, hefound]
    change Comes Prod.snd (Outcome.under (entryStep e.1) <$> check (s.entry e.1 e.2) >>= _) _ _
    refine Comes.bind (he.under _) (fun _ => ?_) ?_
    · rw [putBack_of_part hpart, Value.Entries.insert_of_get? hefound]
      exact ih hrestfound hrest
    · intro o f ho hplain formats
      refine ⟨(es.insert e.1 o.value, some f), f, ?_, rfl, hplain⟩
      rw [putBack_of_part hpart]
      simp only [ho]
      rfl

theorem checks_others {known : List String} {schema : List Rule} {g : Value × Value → Verdict}
    {es : Value.Entries} (hvalue : s.value = .map es) (hfound : ∀ e ∈ es, es.get? e.1 = some e.2)
    (h : ∀ e ∈ es, Checks (checkAll schema (s.entry e.1 e.2)) e.2 (g e)) :
    Checks (checkRule (.others known schema) s) s.value
      ((es.filter fun e => !known.any fun n => e.1.sameKey (.text n)).forM g) := by
  let others := es.filter fun e => !known.any fun n => e.1.sameKey (.text n)
  have hothers := comes_others hpart (fun e he => hfound e (List.mem_filter.mp he).1)
    fun e (he : e ∈ others) => h e (List.mem_filter.mp he).1
  have hkeys : (es.map Prod.fst).filter (fun k => !known.any fun n => k.sameKey (.text n)) =
      others.map Prod.fst := List.filter_map
  rw [checkRule, hvalue]
  change Comes Outcome.failure ((fun p : Value.Entries × Option Flaw => (⟨.map p.1, p.2⟩ : Finding))
    <$> checkOthers _ s ((es.map Prod.fst).filter _) es) _ _
  rw [hkeys]
  exact hothers.map fun _ f hf hplain => ⟨f, hf, hplain⟩

end Parts

def checkNamed (name : String) (schema : List Rule)
    (rest : List (String × List Rule × Option Value)) (s : Spot) (es : Value.Entries)
    (v : Value) : Program (Value.Entries × Option Flaw) := do
  let o ← Outcome.under (entryStep (.text name)) <$> checkAll schema (s.entry (.text name) v)
  let es ← putBack s es (.text name) o.value
  match o.failure with
  | some f => pure (es, some f)
  | none => checkProperties rest s es

theorem eval_putBack (s : Spot) (es : Value.Entries) (key v : Value) (formats : Formats) :
    (putBack s es key v).eval formats true =
      .ok (if s.whole then Config.put es key v else es.insert key v) := by
  rw [putBack]
  split <;> rfl

/-- What an entry comes to whose value is looked up first. -/
theorem comes_properties_cons {name : String} {schema : List Rule}
    {rest : List (String × List Rule × Option Value)} {es : Value.Entries}
    {found : Value → Except Fault Value} {g : Value → Verdict} {u : Verdict}
    (hentry : ∀ v, es.getText? name = some v → ∀ formats,
      (entry s es (.text name)).eval formats true = found v)
    (hfound : ∀ v c, found v = .ok c → c = v)
    (hput : ∀ v, es.getText? name = some v → found v = .ok v →
      (if s.whole then Config.put es (.text name) v else es.insert (.text name) v) = es)
    (h : ∀ v, es.getText? name = some v →
      Checks (checkAll schema (s.entry (.text name) v)) v (g v))
    (hrest : Comes Prod.snd (checkProperties rest s es) (es, none) u) :
    Comes Prod.snd (checkProperties ((name, schema, none) :: rest) s es) (es, none)
      ((es.getText? name).elim (.ok ()) (fun v => (found v).mapError Fault.kind >>= g) >>=
        fun _ => u) := by
  rw [checkProperties]
  cases hv : es.getText? name with
  | none => exact hrest
  | some v =>
    have hchecked (hfoundv : found v = .ok v) :
        Comes Prod.snd (checkNamed name schema rest s es v) (es, none)
          (g v >>= fun _ => u) := by
      refine Comes.bind ((h v hv).under _) (fun _ places w => ?_) ?_
      · rw [Program.eval_bind, eval_putBack, hput v hv hfoundv]
        exact hrest places w
      · intro o f ho hplain formats
        refine ⟨(if s.whole then Config.put es (.text name) o.value
          else es.insert (.text name) o.value, some f), f, ?_, rfl, hplain⟩
        rw [Program.eval_bind, eval_putBack]
        simp only [ho]
        rfl
    have hafter : Comes Prod.snd
        (entry s es (.text name) >>= checkNamed name schema rest s es) (es, none)
        ((found v).mapError Fault.kind >>= fun _ => g v >>= fun _ => u) :=
      Comes.after (hentry v hv) fun c hc => by
        obtain rfl := hfound v c hc
        exact hchecked hc
    have hassoc : ((found v).mapError Fault.kind >>= fun _ => g v >>= fun _ => u) =
        ((found v).mapError Fault.kind >>= g) >>= fun _ => u := by
      cases hc : found v with
      | error f => rfl
      | ok c => rw [hfound v c hc]; rfl
    rw [hassoc] at hafter
    exact hafter

theorem checks_properties {schemas : List (String × List Rule × Option Value)}
    {es : Value.Entries} {u : Verdict} (hvalue : s.value = .map es)
    (h : Comes Prod.snd (checkProperties schemas s es) (es, none) u) :
    Checks (checkRule (.properties schemas) s) s.value u := by
  rw [checkRule, hvalue]
  exact h.map (k := fun p : Value.Entries × Option Flaw => (⟨.map p.1, p.2⟩ : Finding))
    fun _ f hf hplain => ⟨f, hf, hplain⟩

end FirmwareKit.Schema
