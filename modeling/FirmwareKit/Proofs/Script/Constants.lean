import FirmwareKit.Proofs.Script.Ascending
import FirmwareKit.Proofs.Script.Numbers
import FirmwareKit.Proofs.Value.Entries
set_option autoImplicit false

namespace FirmwareKit.Script
open Value.Entries

/-- What a caller says of the stack pointer does not count. -/
def Unexportable (entry : String × Value) : Prop :=
  entry.1 ≠ stackPointerSymbol ∧ ∀ n, entry.2 ≠ .int n

def exported (sp : Int) (constants : List (String × Value)) : List (String × Value) :=
  entered constants stackPointerSymbol (.int sp)

section Checks
variable {sp : Int} {constants : List (String × Value)}

theorem exported_ints (h : ∀ c ∈ constants, ¬ Unexportable c) :
    ∀ c ∈ exported sp constants, ∃ n, c.2 = .int n := by
  intro c hc
  rcases mem_entered hc with rfl | ⟨hc, hname⟩
  · exact ⟨sp, rfl⟩
  · exact not_forall_not.mp (not_and.mp (h c hc) hname)

theorem exists_exports {cs : List (String × Value)} (h : ∀ c ∈ cs, ∃ n, c.2 = .int n) :
    ∃ exports : List (String × Int), exports.map (fun c => (c.1, Value.int c.2)) = cs := by
  induction cs with
  | nil => exact ⟨[], rfl⟩
  | cons c cs ih =>
    obtain ⟨n, hn⟩ := h c List.mem_cons_self
    obtain ⟨exports, hexports⟩ := ih fun d hd => h d (List.mem_cons_of_mem c hd)
    refine ⟨(c.1, n) :: exports, ?_⟩
    rw [List.map_cons, hexports, ← hn]

/-- The first constant that cannot be exported is the first of the exports that is no integer. -/
theorem first_exported {c : String × Value} (h : First Unexportable constants c) :
    First (fun d => ∀ n, d.2 ≠ .int n) (exported sp constants) c := by
  let replaced (d : String × Value) : String × Value :=
    if d.1 = stackPointerSymbol then (d.1, .int sp) else d
  have hiff (d : String × Value) : Unexportable d ↔ ∀ n, (replaced d).2 ≠ .int n := by
    by_cases hname : d.1 = stackPointerSymbol
    · simp [Unexportable, replaced, hname]
    · simp [Unexportable, replaced, hname]
  have hkept : replaced c = c := if_neg h.holds.1
  have hfirst : First (fun d => ∀ n, d.2 ≠ .int n) (constants.map replaced) (replaced c) :=
    (h.congr fun d _ => hiff d).map
  rw [hkept] at hfirst
  exact hfirst.append _

theorem checkConstants_of_ints (exports : List (String × Int)) :
    checkConstants (named (exports.map fun c => (c.1, Value.int c.2))) =
      .ok (exports.map fun c => (.text c.1, c.2)) := by
  rw [checkConstants, Outcome.mapM_eq_ok_iff, named, List.map_map, List.forall₂_map_left_iff,
    List.forall₂_map_right_iff, List.forall₂_same]
  exact fun c _ => rfl

theorem checkConstants_of_first {cs : List (String × Value)} {c : String × Value}
    (h : First (fun d => ∀ n, d.2 ≠ .int n) cs c) :
    checkConstants (named cs) = .error (.invalidConstant (.text c.1)) := by
  have hraise (s : String) : ((Fault.invalidConstant (.text s)).raise : Except Fault (Value × Int)) =
      .error (.invalidConstant (.text s)) := by
    simp [Fault.raise, Fault.shown, Fault.shownValues, Value.isOverlong]
  have hnamed : First (fun e : Value × Value => ∀ n, e.2 ≠ .int n) (named cs)
      (.text c.1, c.2) := h.map
  refine Outcome.mapM_eq_error_of_first (hnamed.congr ?_) ?_
  · intro e he
    obtain ⟨d, _, rfl⟩ := List.mem_map.mp he
    cases d.2 <;> simp [hraise]
  · have hc := h.holds
    cases hv : c.2 with
    | int n => exact absurd hv (hc n)
    | null | bool | float | text | bytes | buffer | list | tuple | map | set | moment | model
    | bank | fileRef | dataRef | path => simp [hraise]

end Checks

section Makes
variable {l : Layout} {constants : List (String × Value)} (hn : (constants.map Prod.fst).Nodup)
  (romStart romLength : Value) (programName : String)
include hn

theorem withStackPointer_named :
    withStackPointer l (named constants) = named (exported l.sp constants) :=
  insert_named hn stackPointerSymbol (.int l.sp)

theorem make_of_first {c : String × Value} (h : First Unexportable constants c) :
    Emitter.make l (named constants) romStart romLength programName =
      .error (.invalidConstant (.text c.1)) := by
  rw [Emitter.make, withStackPointer_named hn, checkConstants_of_first (first_exported h)]
  rfl

theorem make_of_exportable (h : ∀ c ∈ constants, ¬ Unexportable c) :
    ∃ exports : List (String × Int),
      exports.map (fun c => (c.1, Value.int c.2)) = exported l.sp constants ∧
      Emitter.make l (named constants) romStart romLength programName =
        .ok ⟨l, exports.map fun c => (.text c.1, c.2), romStart, romLength, programName,
          romEnd⟩ := by
  obtain ⟨exports, hexports⟩ := exists_exports (exported_ints h : ∀ c ∈ exported l.sp constants, _)
  refine ⟨exports, hexports, Emitter.make_eq_ok_iff.mpr ⟨_, ?_, rfl⟩⟩
  rw [withStackPointer_named hn, ← hexports, checkConstants_of_ints]

end Makes

def exportText (c : String × Int) : String :=
  "\n    \"" ++ c.1 ++ "!\" = 0;\n    \"" ++ c.1 ++ "\" = ABSOLUTE("
    ++ String.ofList (Text.integer c.2) ++ ");\n"

theorem render_constant (c : String × Int) :
    render (constant (.text c.1) (.int c.2)) = exportText c := by
  have hcommands : render (constant (.text c.1) (.int c.2)) =
      String.join ["\n", assignment 1 ("\"" ++ (c.1 ++ "!") ++ "\"") "0",
        assignment 1 ("\"" ++ c.1 ++ "\"")
          ("ABSOLUTE(" ++ String.ofList (Text.integer c.2) ++ ")")] := rfl
  simp only [hcommands, assignment_eq, indent_one, exportText]
  apply String.toList_inj.mp
  simp [String.join_cons]

theorem render_exports (exports : List (String × Int)) :
    render (exports.flatMap fun c => constant (.text c.1) (.int c.2)) =
      String.join (exports.map exportText) := by
  induction exports with
  | nil => rfl
  | cons c cs ih =>
    rw [List.flatMap_cons, render_append, render_constant, ih, List.map_cons, String.join_cons]

def Command.export? : Command → Option (String × Value)
  | .assign _ (.symbol name) (.absolute v) => some (name.text, v)
  | _ => none

def absolutes (cs : List Command) : List (String × Value) := cs.filterMap Command.export?

theorem absolutes_append (xs ys : List Command) :
    absolutes (xs ++ ys) = absolutes xs ++ absolutes ys := List.filterMap_append

theorem absolutes_of_formed {cs : List Command} (h : ∀ c ∈ cs, c.Formed) : absolutes cs = [] := by
  refine List.filterMap_eq_nil_iff.mpr fun c hc => ?_
  have hformed := h c hc
  unfold Command.export?
  split
  case h_1 => exact hformed.elim
  case h_2 => rfl

namespace Emitter

def beforePrimary (e : Emitter) (date : String) : List Command :=
  e.header date ++ e.text .shadow ++ [.blank]

def behindMirror (e : Emitter) : List Command :=
  (if e.farText then farFamilies.flatMap farBand else [])
    ++ endMarker romEnd (.int 16) ++ [.blank] ++ e.ramPart ++ debugPart ++ [.verbatim "\x7d\n"]

theorem script_eq_around (e : Emitter) (date : String) :
    e.script date = (e.beforePrimary date ++ e.text .primary)
      ++ e.constants.flatMap (fun c => constant c.1 (.int c.2))
      ++ ([Command.blank] ++ e.text .mirror ++ e.behindMirror) := by
  simp only [script, romPart, beforePrimary, behindMirror, List.append_assoc]

theorem absolutes_beforePrimary (e : Emitter) (date : String) :
    absolutes (e.beforePrimary date) = [] := by
  have hheader : absolutes (e.header date) = [] := rfl
  have htext : absolutes (e.text .shadow) = [] := absolutes_of_formed (textBand_formed _ _ _)
  rw [beforePrimary, absolutes_append, absolutes_append, hheader, htext]
  rfl

theorem absolutes_behindMirror (e : Emitter) : absolutes e.behindMirror = [] := by
  have hformed : ∀ c ∈ (if e.farText then farFamilies.flatMap farBand else [])
      ++ endMarker romEnd (.int 16) ++ [.blank] ++ e.ramPart ++ debugPart, c.Formed := by
    simp only [List.forall_mem_append, List.forall_mem_singleton, forall_mem_ite,
      List.forall_mem_flatMap]
    exact ⟨⟨⟨⟨⟨fun _ f _ => farBand_formed f, by simp⟩, endMarker_formed _ _⟩, trivial⟩,
      chain_formed _ _⟩, debugPart_formed⟩
  rw [behindMirror, absolutes_append, absolutes_of_formed hformed]
  rfl

theorem absolutes_script {e : Emitter} {exports : List (String × Int)}
    (h : e.constants = exports.map fun c => (.text c.1, c.2)) (date : String) :
    absolutes (e.script date) = exports.map fun c => (c.1, .int c.2) := by
  have hconstants : absolutes (e.constants.flatMap fun c => constant c.1 (.int c.2)) =
      exports.map fun c => (c.1, .int c.2) := by
    rw [h, absolutes, List.flatMap_map, List.filterMap_flatMap, List.map_eq_flatMap]
    rfl
  have htext (tag : BankTag) : absolutes (e.text tag) = [] :=
    absolutes_of_formed (textBand_formed _ _ _)
  have hblank : absolutes [.blank] = [] := rfl
  rw [script_eq_around]
  simp only [absolutes_append, hconstants, htext, hblank, absolutes_beforePrimary,
    absolutes_behindMirror, List.nil_append, List.append_nil]

theorem render_script {e : Emitter} {exports : List (String × Int)}
    (h : e.constants = exports.map fun c => (.text c.1, c.2)) (date : String) :
    render (e.script date) = render (e.beforePrimary date ++ e.text .primary)
      ++ String.join (exports.map exportText)
      ++ render ([Command.blank] ++ e.text .mirror ++ e.behindMirror) := by
  rw [script_eq_around, render_append, render_append, h, List.flatMap_map, render_exports]

end Emitter

theorem emitTo_of_make {l : Layout} {constants : Value.Entries} {romStart romLength : Value}
    {e : Emitter} (h : Emitter.make l constants romStart romLength defaultProgramName = .ok e)
    {exports : List (String × Int)} (hexports : e.constants = exports.map fun c => (.text c.1, c.2))
    (date sink : String) :
    emitTo sink l constants romStart romLength date =
      if (shown l (exports.map fun c => .int c.2) romStart romLength).any Value.isOverlong then
        (sink ++ render (writable (e.script date)), some (.system .overlongInteger))
      else (sink ++ render (e.script date), none) := by
  have hoverlong := e.isOverlong_script date
  rw [hexports, List.flatMap_map, any_shown_named] at hoverlong
  obtain ⟨cs, _, rfl⟩ := Emitter.make_eq_ok_iff.mp h
  simp only [emitTo, h, Emitter.writeTo, Emitter.commands, hoverlong]
  split <;> rfl

section Exports
variable {l : Layout} {constants : List (String × Value)} (hn : (constants.map Prod.fst).Nodup)
  (romStart romLength : Value) (date sink : String)
include hn

theorem emitTo_of_first {c : String × Value} (h : First Unexportable constants c) :
    emitTo sink l (named constants) romStart romLength date =
      (sink, some (.invalidConstant (.text c.1))) := by
  simp only [emitTo, make_of_first hn romStart romLength defaultProgramName h]

theorem emitTo_of_exportable (h : ∀ c ∈ constants, ¬ Unexportable c) :
    ∃ (e : Emitter) (exports : List (String × Int)),
      Emitter.make l (named constants) romStart romLength defaultProgramName = .ok e ∧
      exports.map (fun c => (c.1, Value.int c.2)) = exported l.sp constants ∧
      absolutes (e.script date) = exports.map (fun c => (c.1, .int c.2)) ∧
      emitTo sink l (named constants) romStart romLength date =
        if (shown l (exports.map fun c => .int c.2) romStart romLength).any Value.isOverlong then
          (sink ++ render (writable (e.script date)), some (.system .overlongInteger))
        else
          (sink ++ (render (e.beforePrimary date ++ e.text .primary)
            ++ String.join (exports.map exportText)
            ++ render ([Command.blank] ++ e.text .mirror ++ e.behindMirror)), none) := by
  obtain ⟨exports, hexports, hmake⟩ :=
    make_of_exportable (l := l) hn romStart romLength defaultProgramName h
  refine ⟨_, exports, hmake, hexports, Emitter.absolutes_script rfl date, ?_⟩
  rw [emitTo_of_make hmake (by rfl), Emitter.render_script (by rfl)]

end Exports

/-- How a script ends for its caller: at the first constant that cannot be exported before anything
is written, at the first number that is too long to be written, or with exactly the exports between
the primary and the mirror text band. -/
theorem emitTo_exports (l : Layout) (constants : List (String × Value))
    (hn : (constants.map Prod.fst).Nodup) (romStart romLength : Value) (date sink : String) :
    ((∃ name, (emitTo sink l (named constants) romStart romLength date).2 =
        some (.invalidConstant name)) ↔ ∃ c ∈ constants, Unexportable c) ∧
    (∀ c, First Unexportable constants c →
      emitTo sink l (named constants) romStart romLength date =
        (sink, some (.invalidConstant (.text c.1)))) ∧
    ((∀ c ∈ constants, ¬ Unexportable c) →
      ∃ (e : Emitter) (exports : List (String × Int)),
        Emitter.make l (named constants) romStart romLength defaultProgramName = .ok e ∧
        exports.map (fun c => (c.1, Value.int c.2)) = exported l.sp constants ∧
        (exports.map Prod.fst).Nodup ∧
        absolutes (e.script date) = exports.map (fun c => (c.1, .int c.2)) ∧
        emitTo sink l (named constants) romStart romLength date =
          if (shown l (exports.map fun c => .int c.2) romStart romLength).any Value.isOverlong then
            (sink ++ render (writable (e.script date)), some (.system .overlongInteger))
          else
            (sink ++ (render (e.beforePrimary date ++ e.text .primary)
              ++ String.join (exports.map exportText)
              ++ render ([.blank] ++ e.text .mirror ++ e.behindMirror)), none)) := by
  have hfirst {c : String × Value} (h : First Unexportable constants c) :=
    emitTo_of_first (l := l) hn romStart romLength date sink h
  have hends := emitTo_of_exportable (l := l) hn romStart romLength date sink
  refine ⟨⟨?_, ?_⟩, fun c h => hfirst h, ?_⟩
  · rintro ⟨name, hname⟩
    by_contra hnone
    obtain ⟨e, exports, _, _, _, hend⟩ := hends fun c hc hbad => hnone ⟨c, hc, hbad⟩
    rw [hend] at hname
    split at hname <;> simp at hname
  · rintro ⟨c, hc, hbad⟩
    rcases First.forall_not_or_exists Unexportable constants with hnone | ⟨d, hd⟩
    · exact absurd hbad (hnone c hc)
    · exact ⟨.text d.1, by rw [hfirst hd]⟩
  · intro h
    obtain ⟨e, exports, hmake, hexports, habsolutes, hend⟩ := hends h
    have hnames := nodup_entered hn stackPointerSymbol (.int l.sp)
    rw [← exported, ← hexports, List.map_map] at hnames
    exact ⟨e, exports, hmake, hexports, hnames, habsolutes, hend⟩

def aroundStackPointer : List (String × Value) :=
  [("answer", .int 42), (stackPointerSymbol, .text "top"), ("below", .int (-1))]

theorem emitTo_exports_aroundStackPointer :
    (aroundStackPointer.map Prod.fst).Nodup ∧ ∃ before behind,
      emitTo "kept" adjoiningLayout (named aroundStackPointer) (.int 0x20000) (.int 0x40000) "today" =
        ("kept" ++ (before
          ++ String.join ([("answer", 42), (stackPointerSymbol, adjoiningLayout.sp),
            ("below", -1)].map exportText) ++ behind), none) := by
  have hnames : (aroundStackPointer.map Prod.fst).Nodup := by decide
  have hgood : ∀ c ∈ aroundStackPointer, ¬ Unexportable c := by
    simp [aroundStackPointer, Unexportable]
  obtain ⟨e, exports, _, hexports, _, _, hend⟩ :=
    (emitTo_exports adjoiningLayout aroundStackPointer hnames (.int 0x20000) (.int 0x40000)
      "today" "kept").2.2 hgood
  have hlist : exports = [("answer", 42), (stackPointerSymbol, adjoiningLayout.sp),
      ("below", -1)] := by
    have hinjective : Function.Injective fun c : String × Int => (c.1, Value.int c.2) := by
      rintro ⟨name, n⟩ ⟨name', n'⟩ h
      simpa using h
    refine List.map_injective_iff.mpr hinjective (hexports.trans ?_)
    rfl
  subst hlist
  have hshort : (shown adjoiningLayout ([("answer", 42), (stackPointerSymbol, adjoiningLayout.sp),
      ("below", -1)].map fun c => .int c.2) (.int 0x20000) (.int 0x40000)).any Value.isOverlong =
        false := by
    decide +kernel
  rw [hshort] at hend
  exact ⟨hnames, _, _, hend⟩

def leastOverlong : Int := Int.ofNat (Nat.pow 10 Value.greatestDigitCount)

/-- An integer constant that is too long to be written keeps a script from being ended. -/
theorem emitTo_leastOverlong :
    (∀ c ∈ [("big", Value.int leastOverlong)], ¬ Unexportable c) ∧
      (emitTo "" adjoiningLayout (named [("big", .int leastOverlong)]) (.int 0x20000)
        (.int 0x40000) "today").2 = some (.system .overlongInteger) := by
  have hgood : ∀ c ∈ [("big", Value.int leastOverlong)], ¬ Unexportable c :=
    List.forall_mem_singleton.mpr fun h => h.2 leastOverlong rfl
  have hmake : Emitter.make adjoiningLayout (named [("big", .int leastOverlong)]) (.int 0x20000)
      (.int 0x40000) defaultProgramName = .ok ⟨adjoiningLayout, [(.text "big", leastOverlong),
        (.text stackPointerSymbol, adjoiningLayout.sp)], .int 0x20000, .int 0x40000,
        defaultProgramName, romEnd⟩ := rfl
  let exports : List (String × Int) :=
    [("big", leastOverlong), (stackPointerSymbol, adjoiningLayout.sp)]
  have hlong : (shown adjoiningLayout (exports.map fun c => .int c.2) (.int 0x20000)
      (.int 0x40000)).any Value.isOverlong = true := by
    decide +kernel
  have hexports : [(Value.text "big", leastOverlong), (.text stackPointerSymbol, adjoiningLayout.sp)]
      = exports.map fun c => (.text c.1, c.2) := rfl
  have hend := emitTo_of_make hmake hexports "today" ""
  rw [if_pos hlong] at hend
  exact ⟨hgood, congrArg Prod.snd hend⟩

end FirmwareKit.Script
