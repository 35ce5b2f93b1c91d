import Mathlib.Logic.Function.Basic
import Mathlib.Tactic.Simps.Basic
import FirmwareKit.Proofs.Script.Nesting
import FirmwareKit.Proofs.Script.References
set_option autoImplicit false

/-!
# Evaluation of scripts

A linker goes through a script in order. It keeps the location counter, the values of the symbols
and the sizes of the output sections placed so far. How large an output section is and where in it a
symbol stands is up to the program that is linked.
-/
namespace FirmwareKit.Script

/-- What the program that is linked decides: the size of each output section, and how far into a
section a symbol stands. -/
structure Placement where
  size : String → Nat
  offset : String → String → Nat

structure Linking where
  counter : Int
  symbols : String → Option Int
  sizes : String → Option Nat
  /-- The output section that is being filled. -/
  opened : Option String

def integer? : Value → Option Int
  | .int n => some n
  | _ => none

def alignUp (boundary counter : Int) : Int := (counter + boundary - 1) / boundary * boundary

def Expr.value? (s : Linking) : Expr → Option Int
  | .here => some s.counter
  | .zero _ => some 0
  | .number n => some n
  | .absolute v => integer? v
  | .align boundary => (integer? boundary).map (alignUp · s.counter)
  | .sizeOf name => (s.sizes name).map Int.ofNat
  | .words symbol => (s.symbols symbol).map fun n => (n + 1) / 2

def Address.value? (s : Linking) : Address → Option Int
  | .here => some s.counter
  | .fixed v => integer? v
  | .aligned => some (alignUp 16 s.counter)

namespace Linking

def start : Linking := ⟨0, fun _ => none, fun _ => none, none⟩

@[simps] def define (s : Linking) (symbol : String) (n : Int) : Linking :=
  { s with symbols := Function.update s.symbols symbol (some n) }

def assign (s : Linking) : Target → Int → Linking
  | .counter, n => { s with counter := n }
  | .symbol name, n => s.define name.text n

/-- Inside of a section the counter stays where the section starts. -/
def mark (p : Placement) (s : Linking) (sectionName : String) : Target → Linking
  | .counter => s
  | .symbol name => s.define name.text (s.counter + p.offset sectionName name.text)

@[simps] def enter (s : Linking) (sectionName : String) (n : Int) : Linking :=
  { s with counter := n, opened := some sectionName }

@[simps] def leave (p : Placement) (s : Linking) (sectionName : String) : Linking :=
  { s with
    counter := s.counter + p.size sectionName
    sizes := Function.update s.sizes sectionName (some (p.size sectionName))
    opened := none }

end Linking

/-- What a command does. There is no answer where a value is missing, or where a section would open
or close that cannot. -/
def step (p : Placement) (s : Linking) (c : Command) : Option Linking :=
  match c, s.opened with
  | .assign _ target value, none => (value.value? s).map (s.assign target)
  | .assign _ target _, some sectionName => some (s.mark p sectionName target)
  | .openSection h, none | .openInline h, none =>
    (h.address.value? s).map (s.enter h.name.text)
  | .closeSection _, some sectionName => some (s.leave p sectionName)
  | .outside name _, none => some ((s.enter name 0).leave p name)
  | .openSection _, some _ | .openInline _, some _ | .closeSection _, none
  | .outside .., some _ => none
  | .input .., _ | .verbatim _, _ | .blank, _ | .comment _, _ | .memory .., _ => some s

def run (p : Placement) (s : Linking) (cs : List Command) : Option Linking := cs.foldlM (step p) s

variable {p : Placement} {s s' : Linking} {c : Command} {cs before : List Command}

theorem run_append (p : Placement) (s : Linking) (xs ys : List Command) :
    run p s (xs ++ ys) = (run p s xs).bind fun t => run p t ys := List.foldlM_append

theorem run_cons_eq_some_iff :
    run p s (c :: cs) = some s' ↔ ∃ t, step p s c = some t ∧ run p t cs = some s' := by
  rw [run, List.foldlM_cons]
  exact Option.bind_eq_some_iff

inductive Effect (p : Placement) (s : Linking) : Command → Linking → Prop
  | assign (level : Nat) (target : Target) {value : Expr} {n : Int} (hs : s.opened = none)
    (hn : value.value? s = some n) : Effect p s (.assign level target value) (s.assign target n)
  | mark (level : Nat) (target : Target) (value : Expr) {sectionName : String}
    (hs : s.opened = some sectionName) :
    Effect p s (.assign level target value) (s.mark p sectionName target)
  | enter {h : Header} {n : Int} (hs : s.opened = none) (hn : h.address.value? s = some n) :
    Effect p s (.openSection h) (s.enter h.name.text n)
  | enterInline {h : Header} {n : Int} (hs : s.opened = none) (hn : h.address.value? s = some n) :
    Effect p s (.openInline h) (s.enter h.name.text n)
  | leave (region : Option String) {sectionName : String} (hs : s.opened = some sectionName) :
    Effect p s (.closeSection region) (s.leave p sectionName)
  | outside (name : String) (patterns : List String) (hs : s.opened = none) :
    Effect p s (.outside name patterns) ((s.enter name 0).leave p name)
  | input (level : Nat) (i : Input) : Effect p s (.input level i) s
  | silent {d : Command} (hd : d.Silent) : Effect p s d s

theorem Effect.of_step (h : step p s c = some s') : Effect p s c s' := by
  unfold step at h
  split at h
  case h_1 level target value hs =>
    obtain ⟨n, hn, rfl⟩ := Option.map_eq_some_iff.mp h
    exact .assign level target hs hn
  case h_2 level target value sectionName hs =>
    cases h
    exact .mark level target value hs
  case h_3 header hs =>
    obtain ⟨n, hn, rfl⟩ := Option.map_eq_some_iff.mp h
    exact .enter hs hn
  case h_4 header hs =>
    obtain ⟨n, hn, rfl⟩ := Option.map_eq_some_iff.mp h
    exact .enterInline hs hn
  case h_5 region sectionName hs =>
    cases h
    exact .leave region hs
  case h_6 name patterns hs =>
    cases h
    exact .outside name patterns hs
  case h_11 level i =>
    cases h
    exact .input level i
  all_goals
    cases h
    try exact .silent (by simp)

section Symbols
variable {name : String}

theorem Linking.define_symbols_of_ne {symbol : String} (h : symbol ≠ name) (n : Int) :
    (s.define symbol n).symbols name = s.symbols name := Function.update_of_ne h.symm _ _

theorem step_symbols_of_ne (h : step p s c = some s') (hc : c.assigned? ≠ some name) :
    s'.symbols name = s.symbols name := by
  cases Effect.of_step h with
  | assign level target hs hn =>
    cases target with
    | counter => rfl
    | symbol symbol => exact Linking.define_symbols_of_ne (fun heq => hc (congrArg some heq)) _
  | mark level target value hs =>
    cases target with
    | counter => rfl
    | symbol symbol => exact Linking.define_symbols_of_ne (fun heq => hc (congrArg some heq)) _
  | _ => rfl

/-- A symbol keeps its value along commands that do not assign it. -/
theorem run_symbols_of_not_mem (h : run p s cs = some s') (hname : name ∉ symbols cs) :
    s'.symbols name = s.symbols name := by
  induction cs generalizing s with
  | nil => cases h; rfl
  | cons c cs ih =>
    obtain ⟨t, hstep, hrun⟩ := run_cons_eq_some_iff.mp h
    rw [symbols_cons, List.mem_append, Option.mem_toList, not_or] at hname
    rw [ih hrun hname.2, step_symbols_of_ne hstep hname.1]

end Symbols

theorem step_nest (h : step p s c = some s') :
    c.nest s.opened.isSome = some s'.opened.isSome := by
  cases Effect.of_step h with
  | assign level target hs hn => cases target <;> rfl
  | mark level target value hs => cases target <;> rfl
  | enter hs hn | enterInline hs hn | leave region hs | outside name patterns hs =>
    rw [hs]
    rfl
  | input level i => rfl
  | silent hd => cases hd <;> rfl

theorem run_nest (h : run p s cs = some s') :
    nest s.opened.isSome cs = some s'.opened.isSome := by
  induction cs generalizing s with
  | nil => cases h; rfl
  | cons c cs ih =>
    obtain ⟨t, hstep, hrun⟩ := run_cons_eq_some_iff.mp h
    rw [nest_cons, step_nest hstep]
    exact ih hrun

theorem run_opened_of_closed (h : run p s cs = some s') (hs : s.opened = none)
    (hcs : Closed cs) : s'.opened = none := by
  have hnest := run_nest h
  rw [hs] at hnest
  simpa using (hcs.symm.trans hnest).symm

def Command.Integral (c : Command) : Prop := c.Silent ∨ ∀ v ∈ c.numbers, (integer? v).isSome

/-- What commands leave behind for those that follow: values for their symbols, sizes for their
sections. -/
structure Linking.Knows (s : Linking) (before : List Command) : Prop where
  symbols : ∀ n ∈ Script.symbols before, (s.symbols n).isSome
  sections : ∀ n ∈ Script.sections before, s.opened = some n ∨ (s.sizes n).isSome

theorem Expr.value?_isSome {level : Nat} {target : Target} {value : Expr} (hs : s.Knows before)
    (hopened : s.opened = none) (hc : (Command.assign level target value).ResolvedBy before)
    (hint : (Command.assign level target value).Integral) : (value.value? s).isSome := by
  have hnumbers := hint.resolve_left nofun
  cases value with
  | here | zero | number => rfl
  | absolute v => exact hnumbers v (List.mem_singleton_self v)
  | align boundary =>
    have hboundary := hnumbers boundary (List.mem_singleton_self boundary)
    rwa [value?, Option.isSome_map]
  | sizeOf name =>
    have hsize := hs.sections name (hc.1 name (List.mem_singleton_self name))
    rw [hopened] at hsize
    simpa [value?] using hsize
  | words symbol =>
    have hsymbol := hs.symbols symbol (hc.2 symbol (List.mem_singleton_self symbol))
    rwa [value?, Option.isSome_map]

theorem Address.value?_isSome {h : Header}
    (hnumbers : ∀ v ∈ (Command.openSection h).numbers, (integer? v).isSome) (s : Linking) :
    (h.address.value? s).isSome := by
  cases haddress : h.address with
  | here | aligned => rfl
  | fixed v => exact hnumbers v (by simp [Command.numbers, haddress])

theorem step_isSome (hs : s.Knows before) (hc : c.ResolvedBy before) (hint : c.Integral)
    (hnest : (c.nest s.opened.isSome).isSome) : (step p s c).isSome := by
  cases hopened : s.opened with
  | none =>
    rw [hopened] at hnest
    cases c with
    | assign level target value =>
      simpa [step, hopened] using Expr.value?_isSome hs hopened hc hint
    | openSection h =>
      simpa [step, hopened] using Address.value?_isSome (hint.resolve_left nofun) s
    | openInline h =>
      simpa [step, hopened] using Address.value?_isSome (h := h) (hint.resolve_left nofun) s
    | closeSection => simp [Command.nest] at hnest
    | _ => simp [step, hopened]
  | some sectionName =>
    rw [hopened] at hnest
    cases c with
    | openSection | openInline | outside => simp [Command.nest] at hnest
    | _ => simp [step, hopened]

/-- It is enough that a command keeps what is known, and adds the names it writes itself. -/
theorem Linking.Knows.snoc (hs : s.Knows before)
    (hsymbols : ∀ n, (s.symbols n).isSome ∨ c.assigned? = some n → (s'.symbols n).isSome)
    (hsections : ∀ n, (s.opened = some n ∨ (s.sizes n).isSome) ∨ c.opened? = some n →
      s'.opened = some n ∨ (s'.sizes n).isSome) : s'.Knows (before ++ [c]) := by
  constructor
  · intro n hn
    rw [symbols_append, List.mem_append, symbols_cons, symbols_nil, List.append_nil,
      Option.mem_toList] at hn
    exact hsymbols n (hn.imp_left (hs.symbols n))
  · intro n hn
    rw [sections_append, List.mem_append, sections_cons, sections_nil, List.append_nil,
      Option.mem_toList] at hn
    exact hsections n (hn.imp_left (hs.sections n))

theorem Linking.define_symbols_isSome {symbol n : String}
    (h : (s.symbols n).isSome ∨ some symbol = some n) (value : Int) :
    ((s.define symbol value).symbols n).isSome := by
  rw [define_symbols, Function.update_apply]
  split
  · rfl
  · next hne => exact h.resolve_right fun heq => hne (Option.some.inj heq).symm

theorem Linking.leave_sizes_isSome {sectionName n : String}
    (h : sectionName = n ∨ (s.sizes n).isSome) : ((s.leave p sectionName).sizes n).isSome := by
  rw [leave_sizes, Function.update_apply]
  split
  · rfl
  · next hne => exact h.resolve_left fun heq => hne heq.symm

theorem Linking.Knows.define (hs : s.Knows before) (level : Nat) (name : Name) (value : Expr)
    (n : Int) :
    (s.define name.text n).Knows (before ++ [Command.assign level (.symbol name) value]) := by
  refine hs.snoc (fun _ hn => define_symbols_isSome hn n) fun _ hn => ?_
  simpa [Command.opened?] using hn

theorem step_knows (hs : s.Knows before) (h : step p s c = some s') :
    s'.Knows (before ++ [c]) := by
  cases Effect.of_step h with
  | assign level target hopened hn =>
    cases target with
    | symbol name => exact hs.define level name _ _
    | counter =>
      refine hs.snoc ?_ ?_ <;> intro n hn <;>
        simpa [Command.assigned?, Command.opened?, Linking.assign] using hn
  | mark level target value hopened =>
    cases target with
    | symbol name => exact hs.define level name value _
    | counter =>
      refine hs.snoc ?_ ?_ <;> intro n hn <;>
        simpa [Command.assigned?, Command.opened?, Linking.mark] using hn
  | enter hopened hn | enterInline hopened hn =>
    refine hs.snoc ?_ ?_ <;> simp [Command.assigned?, Command.opened?, hopened, or_comm]
  | leave region hopened =>
    refine hs.snoc (by simp [Command.assigned?]) fun n hn => .inr (Linking.leave_sizes_isSome ?_)
    simpa [Command.opened?, hopened] using hn
  | outside name patterns hopened =>
    refine hs.snoc (by simp [Command.assigned?]) fun n hn => .inr (Linking.leave_sizes_isSome ?_)
    simpa [Command.opened?, hopened, or_comm] using hn
  | input level i => exact hs.snoc (by simp [Command.assigned?]) (by simp [Command.opened?])
  | silent hd => refine hs.snoc ?_ ?_ <;> simp [hd.assigned?_eq, hd.opened?_eq]

/-- Commands that refer to what stands before them, close their sections and show integers all have
an effect. -/
theorem run_isSome (hs : s.Knows before) (hcs : Resolved before cs)
    (hint : ∀ c ∈ cs, c.Integral) (hnest : (nest s.opened.isSome cs).isSome) :
    (run p s cs).isSome := by
  induction cs generalizing s before with
  | nil => rfl
  | cons c cs ih =>
    -- What is known grows with the commands that have been carried out.
    obtain ⟨hc, hcs⟩ := hcs
    obtain ⟨hint, hints⟩ := List.forall_mem_cons.mp hint
    rw [nest_cons, Option.isSome_bind] at hnest
    obtain ⟨t, hstep⟩ := Option.isSome_iff_exists.mp
      (step_isSome (p := p) hs hc hint (Option.isSome_of_any hnest))
    rw [step_nest hstep] at hnest
    obtain ⟨final, hrun⟩ := Option.isSome_iff_exists.mp (ih (step_knows hs hstep) hcs hints hnest)
    exact Option.isSome_iff_exists.mpr ⟨final, run_cons_eq_some_iff.mpr ⟨t, hstep, hrun⟩⟩

end FirmwareKit.Script
