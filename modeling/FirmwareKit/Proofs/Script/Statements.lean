import FirmwareKit.Script.Emitter
import FirmwareKit.Proofs.Sequence
import FirmwareKit.Proofs.Text.Rows
set_option autoImplicit false

namespace FirmwareKit.Script
open Text

def statements (script : String) : List (List Char) := (rows script.toList).map trimmed

def Command.statements (c : Command) : List (List Char) := Script.statements c.render

theorem line_toList (level : Int) (text : String) :
    (line level text).toList =
      (if text.isEmpty then [] else (indent level).toList ++ text.toList) ++ ['\n'] := by
  unfold line
  split
  · rfl
  · simp

theorem line_ended (level : Int) (text : String) : Ended (line level text).toList := by
  rw [line_toList]
  exact Ended.append rfl

/-- Text that stands in the script as it is has to bring its own line end. -/
def Command.Whole : Command → Prop
  | .verbatim text => Ended text.toList
  | _ => True

theorem Command.Whole.ended {c : Command} (h : c.Whole) : Ended c.render.toList := by
  cases c with
  | verbatim text => exact h
  | blank => rfl
  | openSection header =>
    change Ended (opening header.render).toList
    rw [opening, String.toList_append]
    exact (line_ended 1 _).append
  | comment | memory | assign | openInline | closeSection | input | outside =>
    exact line_ended _ _

theorem statements_append {s : String} (h : Ended s.toList) (t : String) :
    statements (s ++ t) = statements s ++ statements t := by
  unfold statements
  rw [String.toList_append, rows_append h, List.map_append]

theorem render_append (xs ys : List Command) : render (xs ++ ys) = render xs ++ render ys := by
  simp [render, String.join_append]

theorem statements_render {commands : List Command} (h : ∀ c ∈ commands, c.Whole) :
    statements (render commands) = commands.flatMap Command.statements := by
  induction commands with
  | nil => rfl
  | cons c cs ih =>
    have hc : Ended c.render.toList := (h c List.mem_cons_self).ended
    have hcs := ih fun d hd => h d (List.mem_cons_of_mem c hd)
    change statements (render ([c] ++ cs)) = _
    rw [render_append, List.flatMap_cons, ← hcs]
    have hone : render [c] = c.render := by simp [render, String.join_cons]
    rw [hone, statements_append hc]
    rfl

theorem indent_toList (level : Int) :
    (indent level).toList = List.replicate (4 * level.toNat) ' ' := by
  unfold indent
  induction level.toNat with
  | zero => rfl
  | succ n ih =>
    rw [List.replicate_succ, String.join_cons, String.toList_append, ih, Nat.mul_succ, Nat.add_comm,
      ← List.replicate_append_replicate]
    rfl

theorem indent_one : indent 1 = "    " := rfl

theorem indent_two : indent 2 = "        " := rfl

theorem line_eq (level : Int) {text : String} (h : text ≠ "") :
    line level text = indent level ++ text ++ "\n" := by
  rw [line, Bool.eq_false_iff.mpr fun hempty => h (String.isEmpty_iff.mp hempty)]
  rfl

theorem assignment_eq (level : Int) (symbol value : String) :
    assignment level symbol value = indent level ++ (symbol ++ " = " ++ value ++ ";\n") := by
  have hend : ";\n" = ";" ++ "\n" := rfl
  rw [assignment, line_eq level (by simp), hend]
  simp only [String.append_assoc]

theorem statements_line (level : Int) {text : String} (hend : '\n' ∉ text.toList)
    (hstart : text.toList.head? ≠ some ' ') : statements (line level text) = [text.toList] := by
  unfold statements
  rw [line_toList, indent_toList]
  split
  case isTrue hempty =>
    rw [String.isEmpty_iff] at hempty
    subst hempty
    rfl
  case isFalse =>
    rw [rows_singleton (by simp [hend]), List.map_singleton, trimmed_blanks_append _ hstart]

theorem statements_opening {header : String} (hend : '\n' ∉ header.toList)
    (hstart : header.toList.head? ≠ some ' ') :
    statements (opening header) = [header.toList, ['\x7b']] := by
  rw [opening, statements_append (line_ended 1 header), statements_line 1 hend hstart]
  rfl

theorem forall_mem_ite {α : Type} {p : α → Prop} {c : Prop} [Decidable c] {xs ys : List α} :
    (∀ x ∈ (if c then xs else ys), p x) ↔ (c → ∀ x ∈ xs, p x) ∧ (¬ c → ∀ x ∈ ys, p x) := by
  split <;> simp_all

section Parts
variable {p : Command → Prop} (hblank : p .blank)
include hblank

theorem forall_mem_window {chainHead : String} {w : Window}
    (hcomment : p (.comment (Text.upper w.name)))
    (hmarker : ∀ tag, ∀ c ∈ markerBand chainHead w tag, p c)
    (hregions : ∀ r ∈ w.regions, ∀ c ∈ placedRegion r, p c)
    (hend : ∀ c ∈ endMarker (windowMarker w) (.int 2), p c) : ∀ c ∈ window chainHead w, p c := by
  simp only [window, List.forall_mem_append, forall_mem_ite, List.forall_mem_flatMap,
    List.forall_mem_singleton, List.not_mem_nil, false_implies, implies_true, true_and]
  exact ⟨⟨hcomment, fun _ => ⟨⟨⟨hmarker _, hregions⟩, hmarker _⟩, hend⟩⟩, hblank⟩

theorem Emitter.forall_mem_romPart {e : Emitter} (htext : ∀ tag, ∀ c ∈ e.text tag, p c)
    (hconstants : ∀ q ∈ e.constants, ∀ c ∈ constant q.1 (.int q.2), p c)
    (hfar : ∀ f ∈ farFamilies, ∀ c ∈ farBand f, p c)
    (hend : ∀ c ∈ endMarker romEnd (.int 16), p c) : ∀ c ∈ e.romPart, p c := by
  simp only [romPart, List.forall_mem_append, forall_mem_ite, List.forall_mem_flatMap,
    List.forall_mem_singleton, List.not_mem_nil, false_implies, implies_true, and_true]
  exact ⟨⟨⟨⟨⟨⟨⟨⟨htext _, hblank⟩, htext _⟩, hconstants⟩, hblank⟩, htext _⟩, fun _ => hfar⟩,
    hend⟩, hblank⟩

end Parts

/-- A command that neither stands in the script as it is nor exports a constant. -/
def Command.Formed : Command → Prop
  | .verbatim _ | .assign _ _ (.absolute _) => False
  | _ => True

theorem Command.Formed.whole {c : Command} (h : c.Formed) : c.Whole := by
  cases c with
  | verbatim text => exact h.elim
  | _ => trivial

theorem textBand_formed (farText : Bool) (romStart : Value) (tag : BankTag) :
    ∀ c ∈ textBand farText romStart tag, c.Formed := by
  simp only [textBand, List.forall_mem_append, forall_mem_ite, List.forall_mem_cons,
    List.forall_mem_map]
  simp [mark, define, collect, alignCounter, Command.Formed]

theorem farBand_formed (name : String) : ∀ c ∈ farBand name, c.Formed := by
  simp only [farBand, List.forall_mem_append, List.forall_mem_cons, List.forall_mem_map]
  simp [moveNowhere, Command.Formed]

theorem endMarker_formed (key : String) (alignment : Value) :
    ∀ c ∈ endMarker key alignment, c.Formed := by
  simp only [endMarker, List.forall_mem_append, List.forall_mem_cons, List.forall_mem_map]
  simp [alignCounter, moveNowhere, define, Command.Formed]

theorem markerBand_formed (chainHead : String) (w : Window) (tag : BankTag) :
    ∀ c ∈ markerBand chainHead w tag, c.Formed := by
  simp only [markerBand, List.forall_mem_append, forall_mem_ite, List.forall_mem_cons,
    List.forall_mem_map, List.forall_mem_flatMap]
  simp [mark, define, collect, Command.Formed]

theorem placedRegion_formed (r : Region) : ∀ c ∈ placedRegion r, c.Formed := by
  simp only [placedRegion, heapBody, regionBody, lengths, List.forall_mem_append, forall_mem_ite,
    List.forall_mem_cons]
  simp [moveTo, markHere, collect, define, zeroAlias, Command.Formed]

theorem chain_formed (chainHead : String) (ws : List Window) :
    ∀ c ∈ Emitter.chain chainHead ws, c.Formed := by
  induction ws generalizing chainHead with
  | nil => simp [Emitter.chain]
  | cons w ws ih =>
    rw [Emitter.chain, List.forall_mem_append]
    refine ⟨?_, ih (chainAfter chainHead w)⟩
    exact forall_mem_window trivial trivial (markerBand_formed chainHead w)
      (fun r _ => placedRegion_formed r) (endMarker_formed _ _)

theorem debugPart_formed : ∀ c ∈ Emitter.debugPart, c.Formed := by
  simp only [Emitter.debugPart, List.forall_mem_flatMap]
  simp [debugSection, zeroAlias, define, Command.Formed]

theorem constant_whole (name value : Value) : ∀ c ∈ constant name value, c.Whole := by
  simp [constant, define, Command.Whole]

namespace Emitter

theorem header_whole (e : Emitter) (date : String) : ∀ c ∈ e.header date, c.Whole := by
  simp only [header, List.forall_mem_cons, Command.Whole, String.toList_append]
  refine ⟨Ended.append rfl, rfl, rfl, rfl, ?_⟩
  simp [Ended]

theorem romPart_whole (e : Emitter) : ∀ c ∈ e.romPart, c.Whole :=
  forall_mem_romPart trivial (fun tag c hc => (textBand_formed _ _ tag c hc).whole)
    (fun q _ => constant_whole q.1 (.int q.2)) (fun f _ c hc => (farBand_formed f c hc).whole)
    fun c hc => (endMarker_formed _ _ c hc).whole

/-- A whole script has the statements of its commands. -/
theorem statements_script (e : Emitter) (date : String) :
    statements (render (e.script date)) = (e.script date).flatMap Command.statements := by
  apply statements_render
  simp only [script, List.forall_mem_append, List.forall_mem_singleton]
  exact ⟨⟨⟨⟨e.header_whole date, e.romPart_whole⟩, fun c hc => (chain_formed _ _ c hc).whole⟩,
    fun c hc => (debugPart_formed c hc).whole⟩, rfl⟩

end Emitter

theorem Emitter.make_eq_ok_iff {l : Layout} {constants : Value.Entries}
    {romStart romLength : Value} {programName : String} {e : Emitter} :
    Emitter.make l constants romStart romLength programName = .ok e ↔
      ∃ cs, checkConstants (withStackPointer l constants) = .ok cs ∧
        e = ⟨l, cs, romStart, romLength, programName, romEnd⟩ := by
  unfold Emitter.make
  cases checkConstants (withStackPointer l constants) with
  | error f => simp [Except.map]
  | ok cs => simp [Except.map, eq_comm]

theorem Emitter.of_make {l : Layout} {constants : Value.Entries} {romStart romLength : Value}
    {programName : String} {e : Emitter}
    (h : Emitter.make l constants romStart romLength programName = .ok e) :
    e.layout = l ∧ e.romStart = romStart := by
  obtain ⟨cs, _, rfl⟩ := Emitter.make_eq_ok_iff.mp h
  exact ⟨rfl, rfl⟩

/-- A script that was written whole, and the emitter it comes from. -/
theorem emit_eq_ok {l : Layout} {constants : Value.Entries} {romStart romLength : Value}
    {date text : String} (h : emit l constants romStart romLength date = .ok text) :
    ∃ e, Emitter.make l constants romStart romLength defaultProgramName = .ok e ∧
      e.layout = l ∧ text = render (e.script date) := by
  obtain ⟨e, hmake, h⟩ := (Outcome.bind_eq_ok_iff _ _ _).mp h
  obtain ⟨⟨written, e'⟩, hwrite, h⟩ := (Outcome.bind_eq_ok_iff _ _ _).mp h
  cases h
  refine ⟨e, hmake, (Emitter.of_make hmake).1, ?_⟩
  have hwritten : e.write (.script date) =
      if isOverlong (e.script date) then .error (.system .overlongInteger)
      else .ok (render (e.script date), { e with chainHead := e.lastChainHead }) := rfl
  rw [hwritten] at hwrite
  by_cases ho : isOverlong (e.script date) = true
  · rw [if_pos ho] at hwrite
    cases hwrite
  · rw [if_neg ho] at hwrite
    exact (Prod.mk.inj (Except.ok.inj hwrite)).1.symm

end FirmwareKit.Script
