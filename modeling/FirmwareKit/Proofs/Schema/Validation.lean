import FirmwareKit.Proofs.Schema.Frame
import FirmwareKit.Proofs.Schema.Verdict
set_option autoImplicit false

namespace FirmwareKit

namespace Schema

theorem listNames_of_texts {names : List Value} (h : ∀ n ∈ names, ∃ t, n = .text t) :
    ∃ text, listNames names = .ok text := by
  obtain ⟨ts, hts⟩ := mapM_text?_of_texts h
  exact ⟨", ".intercalate ts, by rw [listNames, hts]⟩

theorem requiredRemark_of_texts {names : List Value} (h : ∀ n ∈ names, ∃ t, n = .text t)
    (es : Value.Entries) : ∃ text, requiredRemark names (.map es) = .ok text := by
  have hmissing : ∀ n ∈ names.filter fun n => (Value.Entries.get? es n).isNone, ∃ t, n = .text t :=
    fun n hn => h n (List.mem_filter.mp hn).1
  obtain ⟨text, htext⟩ := listNames_of_texts hmissing
  refine ⟨s!"; Missing field(s): {text}", ?_⟩
  rw [requiredRemark, missingNames]
  change (listNames _ >>= _ : Except Fault String) = _
  rw [htext]
  rfl

theorem formatRemark_of_short (format : String) {v : Value} (h : v.isOverlong = false) :
    ∃ text, formatRemark format v = .ok text := by
  have hwritten : written v = .ok v.display := by rw [written, h, if_neg Bool.false_ne_true]
  unfold formatRemark
  split <;> simp [hwritten, Except.map]

theorem explain_plain (V : Validator) (room : Nat) {f : Failure V.Definition} (h : f.Plain)
    (formats : Formats) (keyed : Bool) : ∃ text, (V.explain room f).eval formats keyed = .ok text := by
  obtain ⟨message, subject, cause⟩ := f
  cases cause with
  | other => exact ⟨message, by rw [Validator.explain.eq_def]; rfl⟩
  | alternatives => exact h.elim
  | format name =>
    obtain ⟨text, htext⟩ := formatRemark_of_short name h
    refine ⟨message ++ text, ?_⟩
    rw [Validator.explain.eq_def]
    dsimp only
    rw [Program.eval_bind, Program.eval_ofExcept, htext]
    rfl
  | required names =>
    obtain ⟨⟨es, hes⟩, hnames⟩ := h
    obtain ⟨text, htext⟩ := requiredRemark_of_texts hnames es
    refine ⟨message ++ text, ?_⟩
    rw [Validator.explain.eq_def]
    dsimp only at hes ⊢
    rw [Program.eval_bind, Program.eval_ofExcept, hes, htext]
    rfl

def overlongFault? (overlong : Bool) : Option Fault :=
  if overlong then some (.system .overlongInteger) else none

theorem unknownEntries_fault {path schema properties : Value} {es : Value.Entries}
    (overlong : Value × Value → Bool)
    (h : ∀ e ∈ es, (unknownAt path schema properties e.1
      fun here inner => unknown here inner e.2).fault = overlongFault? (overlong e)) :
    (unknownEntries path schema properties es).fault = overlongFault? (es.any overlong) := by
  induction es with
  | nil => rfl
  | cons e rest ih =>
    obtain ⟨he, hrest⟩ := List.forall_mem_cons.mp h
    rw [unknownEntries, List.any_cons]
    cases hlong : overlong e with
    | true =>
      rw [hlong] at he
      simp only [he, overlongFault?, Bool.true_or, if_true]
    | false =>
      rw [hlong] at he
      simp only [he, overlongFault?, Bool.false_eq_true, if_false, Findings.append, Bool.false_or]
      exact ih hrest

theorem ends_notes (paths : List String) :
    Run.Ends (paths.forM fun p => Run.note (unknownNote p)) (.ok ()) := by
  induction paths with
  | nil => exact Run.ends_pure ()
  | cons p rest ih => exact (Run.ends_note (unknownNote p)).bind fun _ => ih

theorem ends_reportUnknown {schema : Value.Entries} (v : Value)
    (h : (schema.getText? "properties").isSome = true) :
    Run.Ends (reportUnknown (.map schema) v)
      (match (unknown (.text "") (.map schema) v).fault with
        | some f => .error f
        | none => .ok ()) := by
  rw [reportUnknown]
  simp only [h, if_true]
  generalize unknown (.text "") (.map schema) v = found
  refine (ends_notes found.paths).bind (g := fun _ => match found.fault with
    | some f => .error f
    | none => .ok ()) fun _ => ?_
  cases found.fault with
  | some f => exact fun _ => rfl
  | none => exact Run.ends_pure ()

end Schema

namespace Validation
open Schema

variable {c : Validation} {v : Value} {rules : List Rule} {verdict : Verdict}

/-- What is left of a validation once its rules are read. -/
theorem outcome_verdict (hcompile : compile (mergeAll c.parts) = .ok rules)
    (hchecks : Checks (checkAll rules ⟨⟨true, v⟩, false⟩) v verdict) (w : Workspace) :
    ((c.verdict standard v).run c.places true).outcome w = verdict := by
  have hcheck : Judged Outcome.failure ⟨v, none⟩
      ((standard.check rules ⟨true, v⟩).eval (formatsOf c.places w) true) verdict :=
    hchecks.under rootName c.places w
  have hrules : standard.compile (mergeAll c.parts) = .ok rules := hcompile
  rw [Run.outcome, Program.ending_run, eval_verdict hrules]
  generalize (standard.check rules ⟨true, v⟩).eval _ true = result at hcheck
  cases hcheck with
  | passes => rfl
  | breaks f => rfl
  | @fails o f ho hf =>
    obtain ⟨text, htext⟩ :=
      explain_plain standard (standard.room + 1) hf (formatsOf c.places w) true
    rw [Outcome.ok_bind, ho]
    dsimp only
    rw [Validator.explanation, htext]
    rfl

theorem run_outcome (hunknown : c.reportsUnknown = false) (hverbose : c.verbose = false)
    (hcompile : compile (mergeAll c.parts) = .ok rules)
    (hchecks : Checks (checkAll rules ⟨⟨true, v⟩, false⟩) v verdict)
    (w : Workspace) : (c.run standard true v).outcome w = verdict := by
  rw [run, opening, hunknown, hverbose]
  exact outcome_verdict hcompile hchecks w

/-- Unknown entries end a validation before anything is checked. -/
theorem run_outcome_reporting {schema : Value.Entries} {overlong : Bool}
    (hunknown : c.reportsUnknown = true) (hverbose : c.verbose = false)
    (hschema : mergeAll c.parts = .map schema)
    (hlists : (schema.getText? "properties").isSome = true)
    (hfault : (unknown (.text "") (.map schema) v).fault = overlongFault? overlong)
    (hcompile : compile (.map schema) = .ok rules)
    (hchecks : Checks (checkAll rules ⟨⟨true, v⟩, false⟩) v verdict)
    (w : Workspace) :
    (c.run standard true v).outcome w = (demand true (!overlong) >>= fun _ => verdict) := by
  have hopening : Run.Ends (c.opening v)
      (if overlong then .error (.system .overlongInteger) else .ok ()) := by
    have h := ends_reportUnknown v hlists
    rw [hfault, ← hschema] at h
    rw [opening, hunknown, hverbose, if_pos rfl]
    have hends := h.bind (f := fun _ => (pure () : Run Unit)) (g := fun _ => .ok ())
      fun _ => Run.ends_pure ()
    cases overlong <;> exact hends
  refine (Run.outcome_bind (g := fun _ => verdict) (fun _ w' =>
    outcome_verdict (hschema ▸ hcompile) hchecks w') w).trans ?_
  rw [hopening.outcome w]
  cases overlong <;> rfl

end Validation
end FirmwareKit
