import FirmwareKit.Proofs.Script.Writing
set_option autoImplicit false

namespace FirmwareKit.Script

def displayed (cs : List Command) : List Value := cs.flatMap Command.displayed

theorem isOverlong_eq (cs : List Command) :
    isOverlong cs = (displayed cs).any Value.isOverlong := by
  rw [displayed, List.any_flatMap]
  rfl

@[simp] theorem displayed_nil : displayed [] = [] := rfl

@[simp] theorem displayed_cons (c : Command) (cs : List Command) :
    displayed (c :: cs) = c.displayed ++ displayed cs := List.flatMap_cons

@[simp] theorem displayed_append (xs ys : List Command) :
    displayed (xs ++ ys) = displayed xs ++ displayed ys := List.flatMap_append

@[simp] theorem displayed_flatMap {α : Type} (f : α → List Command) (xs : List α) :
    displayed (xs.flatMap f) = xs.flatMap fun x => displayed (f x) := List.flatMap_assoc

theorem displayed_of_forall {cs : List Command} (h : ∀ c ∈ cs, c.displayed = []) :
    displayed cs = [] :=
  List.flatMap_eq_nil_iff.mpr h

section Bands
variable (chainHead : String) (w : Window)

theorem displayed_textBand (farText : Bool) (romStart : Value) (tag : BankTag) :
    displayed (textBand farText romStart tag) =
      match tag with
      | .shadow => [romStart]
      | .primary => [.int 16]
      | .mirror => [] := by
  cases farText <;> cases tag <;> rfl

theorem displayed_constant (name value : Value) :
    displayed (constant name value) = [name, value] := rfl

theorem displayed_endMarker (key : String) (alignment : Value) :
    displayed (endMarker key alignment) = [alignment] := rfl

theorem displayed_marks (level : Nat) (tag : BankTag) (start : String) (rs : List Region) :
    displayed (rs.map fun r => mark level tag (start ++ symbolStem r)) = [] :=
  displayed_of_forall (by
    simp [mark, define, Command.displayed, Command.constant?, Command.numbers])

theorem displayed_collect (level : Nat) (tag : BankTag) (families : List String) :
    displayed (families.map (collect level tag)) = [] :=
  displayed_of_forall (by simp [collect, Command.displayed, Command.constant?, Command.numbers])

theorem displayed_markerBand (tag : BankTag) :
    displayed (markerBand chainHead w tag) = if tag = .shadow then [.int w.base] else [] := by
  have hfamilies : w.regions.flatMap
      (fun r => displayed ((regionFamilies r).map (collect 2 tag))) = [] := by
    simp [displayed_collect]
  cases tag <;> simp [markerBand, markerHeader, Command.displayed, Command.constant?,
    Command.numbers, displayed_marks, hfamilies]

theorem displayed_placedRegion (r : Region) :
    displayed (placedRegion r) = [.int r.start, .int (r.last + 1)] := by
  unfold placedRegion
  split <;> rfl

theorem displayed_window :
    displayed (window chainHead w) =
      if w.regions.isEmpty then []
      else Value.int w.base :: w.regions.flatMap (fun r => [Value.int r.start, .int (r.last + 1)])
        ++ [Value.int 2] := by
  unfold window
  split
  · simp [Command.displayed, Command.constant?, Command.numbers]
  · simp [Command.displayed, Command.constant?, Command.numbers, displayed_markerBand,
      displayed_placedRegion, displayed_endMarker]

end Bands

def shown (l : Layout) (constants : List Value) (romStart romLength : Value) : List Value :=
  [romStart, romLength] ++ constants
    ++ l.regions.flatMap fun r => [.int r.start, .int (r.last + 1)]

/-- Names that are texts are never too long. -/
theorem any_shown_named (l : Layout) (exports : List (String × Int)) (romStart romLength : Value) :
    (shown l (exports.flatMap fun c => [.text c.1, .int c.2]) romStart romLength).any
        Value.isOverlong =
      (shown l (exports.map fun c => .int c.2) romStart romLength).any Value.isOverlong := by
  have hname (c : String × Int) : [Value.text c.1, .int c.2].any Value.isOverlong =
      (Value.int c.2).isOverlong := by
    change (false || ((Value.int c.2).isOverlong || false)) = _
    rw [Bool.false_or, Bool.or_false]
  simp only [shown, List.any_append, List.any_flatMap, List.any_map, hname, Function.comp_def]

theorem any_displayed_window (chainHead : String) (w : Window)
    (hbase : (Value.int w.base).isOverlong = false) :
    (displayed (window chainHead w)).any Value.isOverlong =
      (w.regions.flatMap fun r => [.int r.start, .int (r.last + 1)]).any Value.isOverlong := by
  have h2 : (Value.int 2).isOverlong = false := by decide +kernel
  rw [displayed_window]
  cases hw : w.regions with
  | nil => rfl
  | cons r rs =>
    simp only [List.isEmpty_cons, Bool.false_eq_true, if_false, List.any_append, List.any_cons,
      List.any_nil, hbase, h2, Bool.false_or, Bool.or_false]

namespace Emitter

theorem any_displayed_header (e : Emitter) (date : String) :
    (displayed (e.header date)).any Value.isOverlong =
      (e.romStart.isOverlong || e.romLength.isOverlong) := by
  have h0 : (Value.int 0).isOverlong = false := by decide +kernel
  have hsize : (Value.int 0x10000).isOverlong = false := by decide +kernel
  change [Value.int 0, .int 0x10000, .int 0x10000, .int 0x10000, e.romStart, e.romLength].any
    Value.isOverlong = _
  simp only [List.any_cons, List.any_nil, h0, hsize, Bool.false_or, Bool.or_false]

theorem displayed_romPart (e : Emitter) :
    displayed e.romPart =
      [e.romStart, .int 16] ++ e.constants.flatMap (fun c => [c.1, Value.int c.2])
        ++ [Value.int 16] := by
  have hfar : displayed (if e.farText then farFamilies.flatMap farBand else []) = [] := by
    split <;> rfl
  simp [romPart, text, displayed_textBand, displayed_constant, displayed_endMarker, hfar,
    Command.displayed, Command.constant?, Command.numbers]

theorem any_displayed_romPart (e : Emitter) :
    (displayed e.romPart).any Value.isOverlong =
      (e.romStart.isOverlong ||
        (e.constants.flatMap fun c => [c.1, Value.int c.2]).any Value.isOverlong) := by
  have h16 : (Value.int 16).isOverlong = false := by decide +kernel
  simp only [displayed_romPart, List.any_append, List.any_cons, List.any_nil, h16, Bool.or_false]

theorem any_displayed_ramPart (e : Emitter) :
    (displayed e.ramPart).any Value.isOverlong =
      (e.layout.regions.flatMap fun r =>
        [Value.int r.start, .int (r.last + 1)]).any Value.isOverlong := by
  have hbase : ∀ base ∈ [Memory.iramBase, Memory.sramBase],
      (Value.int base).isOverlong = false := by decide +kernel
  have hiram := any_displayed_window romEnd ⟨"iram", Memory.iramBase, e.layout.iram⟩
    (hbase Memory.iramBase (by decide))
  have hsram (chainHead : String) := any_displayed_window chainHead
    ⟨"sram", Memory.sramBase, e.layout.sram⟩ (hbase Memory.sramBase (by decide))
  rw [ramPart, Layout.windows, chain, chain, chain, List.append_nil, displayed_append,
    List.any_append, hiram, hsram, ← List.any_append, ← List.flatMap_append, Layout.regions]

/-- Of the values in a script, only those of its arguments can be too long. -/
theorem isOverlong_script (e : Emitter) (date : String) :
    isOverlong (e.script date) =
      (shown e.layout (e.constants.flatMap fun c => [c.1, .int c.2]) e.romStart e.romLength).any
        Value.isOverlong := by
  have hrest : displayed (debugPart ++ [Command.verbatim "\x7d\n"]) = [] := rfl
  rw [isOverlong_eq, script, List.append_assoc, displayed_append, displayed_append,
    displayed_append, hrest, List.append_nil, List.any_append, List.any_append, any_displayed_header,
    any_displayed_romPart, any_displayed_ramPart, shown, List.any_append, List.any_append]
  simp only [List.any_cons, List.any_nil, Bool.or_false]
  have htwice : ∀ a b c d : Bool, (((a || b) || (a || c)) || d) = (((a || b) || c) || d) := by decide
  exact htwice _ _ _ _

end Emitter
end FirmwareKit.Script
