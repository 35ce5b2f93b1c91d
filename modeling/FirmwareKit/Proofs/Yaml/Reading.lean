import FirmwareKit.Proofs.Sequence
import FirmwareKit.Yaml.Node
set_option autoImplicit false

/-!
# Reading up to where the tokens end

The tokens of a text may end before the text does, for a reason of the lexer. The reader of nodes
does not look at the reason: it is done before the tokens end, or it refuses them for a fault of its
own, or it comes to their end and passes the reason on.
-/
namespace FirmwareKit.Yaml

/-- The three ways a reading may depend on why the tokens end. -/
inductive Steady {α : Type} : (Refusal → Except Refusal α) → Prop
  | reads (a : α) : Steady fun _ => .ok a
  | refuses : Steady fun _ => .error .malformed
  | stops : Steady fun stop => .error stop

namespace Steady
variable {α β : Type} {x : Refusal → Except Refusal α}

theorem bind {f : Refusal → α → Except Refusal β} (hx : Steady x)
    (hf : ∀ a, Steady fun stop => f stop a) : Steady fun stop => x stop >>= f stop := by
  cases hx with
  | reads a => exact hf a
  | refuses => exact .refuses
  | stops => exact .stops

theorem map (hx : Steady x) (f : α → β) : Steady fun stop => (x stop).map f := by
  cases hx with
  | reads a => exact .reads (f a)
  | refuses => exact .refuses
  | stops => exact .stops

theorem ite {y : Refusal → Except Refusal α} (p : Prop) [Decidable p] (hx : Steady x)
    (hy : Steady y) : Steady fun stop => if p then x stop else y stop := by
  by_cases h : p
  · simpa [h] using hx
  · simpa [h] using hy

/-- A fault that is not the reader's own is why the tokens end, and the reader came to their end. -/
theorem eq_system_iff (hx : Steady x) (stop : Refusal) (f : SystemFault) :
    x stop = .error (.system f) ↔ stop = .system f ∧ ∀ stop, x stop = .error stop := by
  cases hx with
  | reads a => simpa using fun _ => ⟨stop⟩
  | refuses => simpa using fun _ => ⟨.system .nulCharacter, nofun⟩
  | stops => simp

end Steady

namespace Node
variable {handles : List (String × String)} {fuel : Nat}

structure AllSteady (handles : List (String × String)) (fuel : Nat) : Prop where
  read (inBlock indentless : Bool) (i : Input) :
    Steady fun stop => Node.read fuel ⟨handles, stop⟩ inBlock indentless i
  readContent (inBlock indentless : Bool) (p : Properties) (tag : Option String) (i : Input) :
    Steady fun stop => Node.readContent fuel ⟨handles, stop⟩ inBlock indentless p tag i
  readUnless (inBlock indentless : Bool) (ends : List Token) (i : Input) :
    Steady fun stop => Node.readUnless fuel ⟨handles, stop⟩ inBlock indentless ends i
  readBlockSequence (i : Input) :
    Steady fun stop => Node.readBlockSequence fuel ⟨handles, stop⟩ i
  readIndentless (i : Input) : Steady fun stop => Node.readIndentless fuel ⟨handles, stop⟩ i
  readBlockMapping (i : Input) : Steady fun stop => Node.readBlockMapping fuel ⟨handles, stop⟩ i
  readValue (inBlock : Bool) (ends : List Token) (i : Input) :
    Steady fun stop => Node.readValue fuel ⟨handles, stop⟩ inBlock ends i
  readFlowSequence (first : Bool) (i : Input) :
    Steady fun stop => Node.readFlowSequence fuel ⟨handles, stop⟩ first i
  readFlowMapping (first : Bool) (i : Input) :
    Steady fun stop => Node.readFlowMapping fuel ⟨handles, stop⟩ first i

theorem steady_expect (t : Token) (i : Input) :
    Steady fun stop => expect ⟨handles, stop⟩ t i := by
  simp only [expect]
  cases i.peek with
  | none => exact .stops
  | some u => exact .ite _ (.reads _) .refuses

theorem steady_fullTag (tag : Option (Option String × String)) :
    Steady fun stop => fullTag ⟨handles, stop⟩ tag := by
  rcases tag with _ | ⟨_ | handle, suffix⟩
  · exact .reads none
  · exact .reads (some suffix)
  · simp only [fullTag]
    cases handles.lookup handle with
    | none => exact .refuses
    | some lead => exact .reads _

theorem steady_missing (p : Properties) (tag : Option String) (i : Input) :
    Steady fun _ => missing p tag i := by
  rw [missing.eq_def]
  split
  · exact .refuses
  · exact .reads _

theorem steady_read (h : AllSteady handles fuel) (inBlock indentless : Bool) (i : Input) :
    Steady fun stop => read (fuel + 1) ⟨handles, stop⟩ inBlock indentless i := by
  simp only [read]
  cases i.peek with
  | none => exact .stops
  | some t =>
    have hnode : Steady fun stop =>
        if ((properties i).1.anchor.isNone || (properties i).1.tag.isNone)
            && (properties i).2.peek.isNone then .error stop
        else fullTag ⟨handles, stop⟩ (properties i).1.tag >>= fun tag =>
          readContent fuel ⟨handles, stop⟩ inBlock indentless (properties i).1 tag
            (properties i).2 :=
      .ite _ .stops (.bind (steady_fullTag _) fun tag => h.readContent _ _ _ tag _)
    cases t with
    | «alias» a =>
      simp only []
      cases i.anchors.lookup a with
      | none => exact .refuses
      | some n => exact .reads _
    | _ => exact hnode

theorem steady_readContent (h : AllSteady handles fuel) (inBlock indentless : Bool)
    (p : Properties) (tag : Option String) (i : Input) :
    Steady fun stop => readContent (fuel + 1) ⟨handles, stop⟩ inBlock indentless p tag i := by
  have hmissing := steady_missing p tag i
  simp only [readContent]
  cases i.peek with
  | none => exact .stops
  | some t =>
    refine .ite _ .refuses ?_
    cases t with
    | blockEntry => exact .ite _ (.bind (h.readIndentless _) fun _ => .reads _) hmissing
    | scalar text plain => exact .reads _
    | flowSequenceStart => exact .bind (h.readFlowSequence _ _) fun _ => .reads _
    | flowMappingStart => exact .bind (h.readFlowMapping _ _) fun _ => .reads _
    | blockSequenceStart =>
      exact .ite _ (.bind (h.readBlockSequence _) fun _ => .reads _) hmissing
    | blockMappingStart =>
      exact .ite _ (.bind (h.readBlockMapping _) fun _ => .reads _) hmissing
    | _ => exact hmissing

theorem steady_readUnless (h : AllSteady handles fuel) (inBlock indentless : Bool)
    (ends : List Token) (i : Input) :
    Steady fun stop => readUnless (fuel + 1) ⟨handles, stop⟩ inBlock indentless ends i := by
  simp only [readUnless]
  cases i.peek with
  | none => exact .stops
  | some t => exact .ite _ (.reads _) (h.read _ _ _)

theorem steady_readBlockSequence (h : AllSteady handles fuel) (i : Input) :
    Steady fun stop => readBlockSequence (fuel + 1) ⟨handles, stop⟩ i := by
  simp only [readBlockSequence]
  refine .ite _ (.bind (h.readUnless _ _ _ _) fun r => ?_) ?_
  · exact .bind (h.readBlockSequence _) fun _ => .reads _
  · exact .bind (steady_expect _ _) fun _ => .reads _

theorem steady_readIndentless (h : AllSteady handles fuel) (i : Input) :
    Steady fun stop => readIndentless (fuel + 1) ⟨handles, stop⟩ i := by
  simp only [readIndentless]
  cases i.peek with
  | none => exact .stops
  | some t =>
    cases t with
    | blockEntry =>
      exact .bind (h.readUnless _ _ _ _) fun r => .bind (h.readIndentless _) fun _ => .reads _
    | _ => exact .reads _

theorem steady_readBlockMapping (h : AllSteady handles fuel) (i : Input) :
    Steady fun stop => readBlockMapping (fuel + 1) ⟨handles, stop⟩ i := by
  simp only [readBlockMapping]
  refine .ite _ (.bind (h.readUnless _ _ _ _) fun k => .bind (h.readValue _ _ _) fun v => ?_) ?_
  · exact .bind (h.readBlockMapping _) fun _ => .reads _
  · exact .bind (steady_expect _ _) fun _ => .reads _

theorem steady_readValue (h : AllSteady handles fuel) (inBlock : Bool) (ends : List Token)
    (i : Input) : Steady fun stop => readValue (fuel + 1) ⟨handles, stop⟩ inBlock ends i := by
  simp only [readValue]
  cases i.peek with
  | none => exact .stops
  | some t =>
    cases t with
    | value => exact h.readUnless _ _ _ _
    | _ => exact .reads _

theorem steady_entryMark (first : Bool) (i : Input) :
    Steady fun stop => entryMark ⟨handles, stop⟩ first i :=
  .ite _ (.reads i) (steady_expect _ i)

theorem steady_readFlowSequence (h : AllSteady handles fuel) (first : Bool) (i : Input) :
    Steady fun stop => readFlowSequence (fuel + 1) ⟨handles, stop⟩ first i := by
  simp only [readFlowSequence]
  refine .ite _ (.reads _) (.bind (steady_entryMark first i) fun i => ?_)
  cases i.peek with
  | none => exact .stops
  | some t =>
    cases t with
    | flowSequenceEnd => exact .reads _
    | key =>
      refine .bind (h.readUnless _ _ _ _) fun k => .bind (h.readValue _ _ _) fun v => ?_
      exact .bind (h.readFlowSequence _ _) fun _ => .reads _
    | _ => exact .bind (h.read _ _ _) fun n => .bind (h.readFlowSequence _ _) fun _ => .reads _

theorem steady_readFlowMapping (h : AllSteady handles fuel) (first : Bool) (i : Input) :
    Steady fun stop => readFlowMapping (fuel + 1) ⟨handles, stop⟩ first i := by
  simp only [readFlowMapping]
  refine .ite _ (.reads _) (.bind (steady_entryMark first i) fun i => ?_)
  cases i.peek with
  | none => exact .stops
  | some t =>
    cases t with
    | flowMappingEnd => exact .reads _
    | key =>
      refine .bind (h.readUnless _ _ _ _) fun k => .bind (h.readValue _ _ _) fun v => ?_
      exact .bind (h.readFlowMapping _ _) fun _ => .reads _
    | _ => exact .bind (h.read _ _ _) fun n => .bind (h.readFlowMapping _ _) fun _ => .reads _

/-- Without fuel everything is refused, so the reason never shows. -/
theorem allSteady (handles : List (String × String)) (fuel : Nat) : AllSteady handles fuel := by
  induction fuel with
  | zero =>
    constructor <;> intros <;> exact .refuses
  | succ fuel ih =>
    exact ⟨steady_read ih, steady_readContent ih, steady_readUnless ih,
      steady_readBlockSequence ih, steady_readIndentless ih, steady_readBlockMapping ih,
      steady_readValue ih, steady_readFlowSequence ih, steady_readFlowMapping ih⟩

theorem directives_error {d : Directives} {ts : List Token} {r : Refusal}
    (h : directives d ts = .error r) : r = .malformed := by
  fun_induction directives d ts <;> simp_all

theorem steady_directives (d : Directives) (ts : List Token) :
    Steady fun _ => directives d ts := by
  cases h : directives d ts with
  | error r => exact directives_error h ▸ .refuses
  | ok r => exact .reads r

theorem steady_finishStream (handles : List (String × String)) (ts : List Token) :
    Steady fun stop => finishStream ⟨handles, stop⟩ ts := by
  simp only [finishStream]
  cases dropEnds ts with
  | nil => exact .stops
  | cons t ts =>
    cases t with
    | streamEnd => exact .reads ()
    | _ => exact .refuses

theorem steady_wholeDocument (handles : List (String × String)) (ts : List Token) :
    Steady fun stop => wholeDocument ⟨handles, stop⟩ ts :=
  .bind ((allSteady handles _).read _ _ _) fun _ => .bind (steady_finishStream _ _) fun _ =>
    .reads _

theorem steady_startedDocument (handles : List (String × String)) (ts : List Token) :
    Steady fun stop => startedDocument ⟨handles, stop⟩ ts := by
  simp only [startedDocument]
  rcases ts with _ | ⟨t, _ | ⟨u, rest⟩⟩
  · exact .stops
  · cases t with
    | documentStart => exact .stops
    | _ => exact .refuses
  · cases t with
    | documentStart =>
      refine .ite _ ?_ (steady_wholeDocument _ _)
      exact (steady_finishStream handles (u :: rest)).map fun _ => some (⟨empty, []⟩ : Document)
    | _ => exact .refuses

theorem steady_explicitDocument (ts : List Token) : Steady (explicitDocument ts) := by
  unfold explicitDocument
  cases dropEnds ts with
  | nil => exact .stops
  | cons t ts =>
    cases t with
    | streamEnd => exact .reads none
    | _ => exact .bind (steady_directives _ _) fun _ => steady_startedDocument _ _

theorem steady_document (ts : List Token) : Steady (document ts) := by
  unfold document
  cases ts with
  | nil => exact .stops
  | cons t ts =>
    cases t with
    | directive | documentStart | streamEnd => exact steady_explicitDocument _
    | _ => exact steady_wholeDocument defaultHandles _

/-- A text's tokens bring a fault of their own to its document exactly where they end for that fault
and the reader comes to their end. -/
theorem ofText_eq_system_iff (text : List Char) (f : SystemFault) :
    ofText text = .error (.system f) ↔
      (tokens text).2 = some (.system f) ∧
        ∀ stop, document (tokens text).1 stop = .error stop := by
  rw [ofText, (steady_document _).eq_system_iff]
  cases (tokens text).2 <;> simp

end Node
end FirmwareKit.Yaml
