import FirmwareKit.Proofs.Script.Ascending
import FirmwareKit.Proofs.Script.Writing
set_option autoImplicit false

namespace FirmwareKit.Script

def headsAlong (chainHead : String) : List Window → List String
  | [] => [chainHead]
  | w :: rest => chainHead :: headsAlong (chainAfter chainHead w) rest

theorem head_mem_headsAlong (chainHead : String) (ws : List Window) :
    chainHead ∈ headsAlong chainHead ws := by
  cases ws <;> simp [headsAlong]

theorem foldl_mem_headsAlong (chainHead : String) (ws : List Window) :
    ws.foldl chainAfter chainHead ∈ headsAlong chainHead ws := by
  induction ws generalizing chainHead with
  | nil => simp [headsAlong]
  | cons w ws ih => exact List.mem_cons_of_mem _ (ih (chainAfter chainHead w))

namespace Emitter

theorem headCut_mem_headsAlong (chainHead : String) (ws : List Window) :
    headCut chainHead ws ∈ headsAlong chainHead ws := by
  induction ws generalizing chainHead with
  | nil => simp [headCut, headsAlong]
  | cons w ws ih =>
    rw [headCut]
    split
    · exact head_mem_headsAlong chainHead (w :: ws)
    · exact List.mem_cons_of_mem _ (ih (chainAfter chainHead w))

def heads (e : Emitter) : Step → List String
  | .script _ => e.chainHead :: headsAlong romEnd e.layout.windows
  | s => [e.chainHead, e.chainHeadAfter s]

theorem chainHeadAfter_mem_heads (e : Emitter) (s : Step) : e.chainHeadAfter s ∈ e.heads s := by
  cases s with
  | script date => exact List.mem_cons_of_mem _ (foldl_mem_headsAlong romEnd e.layout.windows)
  | header | textBand | constant | farBand | endMarker | window | markerBand | lengths | heapBody
  | regionBody | debugSection => simp [heads]

theorem chainHeadCut_mem_heads (e : Emitter) (s : Step) : e.chainHeadCut s ∈ e.heads s := by
  cases s with
  | script date =>
    refine List.mem_cons_of_mem _ ?_
    rw [chainHeadCut]
    split
    · exact head_mem_headsAlong romEnd e.layout.windows
    · exact headCut_mem_headsAlong romEnd e.layout.windows
  | header | textBand | constant | farBand | endMarker | window | markerBand | lengths | heapBody
  | regionBody | debugSection => simp [heads, chainHeadCut]

/-- A write moves the chain head on its way and changes nothing else of the emitter. -/
theorem writeTo_emitter (e : Emitter) (sink : String) (s : Step) :
    ∃ chainHead ∈ e.heads s, (e.writeTo sink s).emitter = { e with chainHead } := by
  cases h : isOverlong (e.commands s) with
  | true => exact ⟨_, e.chainHeadCut_mem_heads s, by simp [writeTo, h]⟩
  | false => exact ⟨_, e.chainHeadAfter_mem_heads s, by simp [writeTo, h]⟩

/-- What an emitter can have become by writes to any sinks. -/
inductive Later (e : Emitter) : Emitter → Prop
  | unused : Later e e
  /-- A write that ended, be it by a number that could not be written. -/
  | wrote {f : Emitter} (h : Later e f) (sink : String) (s : Step) :
      Later e (f.writeTo sink s).emitter
  /-- A write that its sink did not take whole. -/
  | stopped {f : Emitter} (h : Later e f) (s : Step) (chainHead : String)
      (hc : chainHead ∈ f.heads s) : Later e { f with chainHead }

theorem Later.eq {e f : Emitter} (h : e.Later f) : ∃ chainHead, f = { e with chainHead } := by
  induction h with
  | unused => exact ⟨e.chainHead, rfl⟩
  | wrote _ sink s ih =>
    obtain ⟨chainHead, rfl⟩ := ih
    obtain ⟨after, _, hafter⟩ := writeTo_emitter { e with chainHead } sink s
    exact ⟨after, hafter⟩
  | stopped _ s chainHead _ ih =>
    obtain ⟨before, rfl⟩ := ih
    exact ⟨chainHead, rfl⟩

theorem writeTo_script_congr (e : Emitter) (chainHead sink date : String) :
    ({ e with chainHead } : Emitter).writeTo sink (.script date) =
      e.writeTo sink (.script date) := rfl

/-- A script without the comment it begins with. -/
def body (e : Emitter) : List Command :=
  (e.header "").tail ++ e.romPart ++ e.ramPart ++ debugPart ++ [.verbatim "\x7d\n"]

def dateLine (programName date : String) : String :=
  s!"/* automatically generated by {programName} on {date} */\n"

theorem script_eq_cons (e : Emitter) (date : String) :
    e.script date = .verbatim (dateLine e.programName date) :: e.body := rfl

theorem isOverlong_script_eq (e : Emitter) (date : String) :
    isOverlong (e.script date) = isOverlong e.body := by
  have hdate : (Command.verbatim (dateLine e.programName date)).isOverlong = false := rfl
  rw [script_eq_cons, isOverlong, List.any_cons, hdate, Bool.false_or, isOverlong]

theorem writeTo_script_sink (e : Emitter) (sink date : String) :
    (e.writeTo sink (.script date)).sink =
      sink ++ dateLine e.programName date ++ render (writable e.body) := by
  have hcons : writable (e.script date) =
      [Command.verbatim (dateLine e.programName date)] ++ writable e.body := rfl
  have hline : render [.verbatim (dateLine e.programName date)] =
      dateLine e.programName date := by
    simp [render, Command.render, String.join_cons]
  rw [writeTo_sink, commands, hcons, render_append, hline, String.append_assoc]

theorem writeTo_script_fault? (e : Emitter) (sink date : String) :
    (e.writeTo sink (.script date)).fault? =
      if isOverlong e.body then some (.system .overlongInteger) else none := by
  simp only [writeTo, commands, isOverlong_script_eq]
  split <;> rfl

end Emitter

inductive Part where
  | step (s : Step)
  | added (c : Command)

namespace Emitter

section Parts

def performed (e : Emitter) : List Part → List Command
  | [] => []
  | .step s :: rest => e.commands s ++ performed { e with chainHead := e.chainHeadAfter s } rest
  | .added c :: rest => c :: performed e rest

def after (e : Emitter) : List Part → Emitter
  | [] => e
  | .step s :: rest => after { e with chainHead := e.chainHeadAfter s } rest
  | .added _ :: rest => after e rest

theorem performed_append (e : Emitter) (xs ys : List Part) :
    e.performed (xs ++ ys) = e.performed xs ++ (e.after xs).performed ys := by
  induction xs generalizing e with
  | nil => rfl
  | cons x xs ih =>
    cases x with
    | step s => simp only [List.cons_append, performed, after, ih, List.append_assoc]
    | added c => simp only [List.cons_append, performed, after, ih]

theorem after_append (e : Emitter) (xs ys : List Part) :
    e.after (xs ++ ys) = (e.after xs).after ys := by
  induction xs generalizing e with
  | nil => rfl
  | cons x xs ih => cases x <;> exact ih _

/-- Writes that leave the chain head alone do not show in later ones. -/
theorem performed_map {α : Type} (e : Emitter) (f : α → Step)
    (hf : ∀ x, e.chainHeadAfter (f x) = e.chainHead) (xs : List α) :
    e.performed (xs.map fun x => Part.step (f x)) = xs.flatMap (fun x => e.commands (f x)) ∧
      e.after (xs.map fun x => Part.step (f x)) = e := by
  induction xs with
  | nil => exact ⟨rfl, rfl⟩
  | cons x xs ih =>
    have hsame : { e with chainHead := e.chainHeadAfter (f x) } = e := by rw [hf x]
    simp only [List.map_cons, performed, after, hsame, ih, List.flatMap_cons, and_self]

theorem performed_windows (e : Emitter) (ws : List Window) :
    e.performed (ws.map fun w => Part.step (.window w)) = chain e.chainHead ws := by
  induction ws generalizing e with
  | nil => rfl
  | cons w ws ih =>
    rw [List.map_cons, performed, ih, chain]
    rfl

def parts (e : Emitter) (date : String) : List Part :=
  [Part.step (.header date), Part.step (.textBand .shadow), Part.added .blank,
    Part.step (.textBand .primary)]
  ++ e.constants.map (fun c => Part.step (.constant c.1 (.int c.2)))
  ++ [Part.added .blank, Part.step (.textBand .mirror)]
  ++ (if e.farText then farFamilies else []).map (fun f => Part.step (.farBand f))
  ++ [Part.step (.endMarker romEnd (.int 16)), Part.added .blank]
  ++ e.layout.windows.map (fun w => Part.step (.window w))
  ++ debugSections.map (fun s => Part.step (.debugSection s.1 s.2))
  ++ [Part.added (.verbatim "\x7d\n")]

/-- The end marker of the ROM stands before the windows, so whatever chain head was left, the parts
make up the script. -/
theorem performed_parts (e : Emitter) (date : String) :
    e.performed (e.parts date) = e.script date := by
  have hconstants (e : Emitter) :=
    performed_map e (fun c : Value × Int => .constant c.1 (.int c.2)) fun _ => rfl
  have hfar (e : Emitter) := performed_map e Step.farBand fun _ => rfl
  have hdebug (e : Emitter) :=
    performed_map e (fun s : String × List String => .debugSection s.1 s.2) fun _ => rfl
  simp only [parts, performed_append, after_append, hconstants, hfar, hdebug, performed_windows]
  have hgroup : (if e.farText then farFamilies else []).flatMap farBand =
      if e.farText then farFamilies.flatMap farBand else [] := by
    split <;> rfl
  simp only [performed, after, commands, chainHeadAfter, script, romPart, ramPart, debugPart,
    hgroup, List.append_assoc, List.cons_append, List.nil_append, List.append_nil]

end Parts

/-- An emitter that was used before appends the script that a fresh one would, and only the date in
the first comment tells two such scripts apart. -/
theorem writeTo_script_later (l : Layout) (constants : Value.Entries) (romStart romLength : Value)
    (programName : String) (fresh used : Emitter)
    (hmake : make l constants romStart romLength programName = .ok fresh)
    (hused : fresh.Later used) :
    ∃ body fault?, ∀ sink date,
      used.writeTo sink (.script date) = fresh.writeTo sink (.script date) ∧
      (used.writeTo sink (.script date)).sink =
        sink ++ s!"/* automatically generated by {programName} on {date} */\n" ++ body ∧
      (used.writeTo sink (.script date)).fault? = fault? := by
  obtain ⟨chainHead, rfl⟩ := hused.eq
  have hname : fresh.programName = programName := by
    obtain ⟨cs, _, rfl⟩ := make_eq_ok_iff.mp hmake
    rfl
  refine ⟨render (writable fresh.body),
    if isOverlong fresh.body then some (.system .overlongInteger) else none, ?_⟩
  intro sink date
  rw [writeTo_script_congr, writeTo_script_sink, writeTo_script_fault?, hname]
  exact ⟨rfl, rfl, rfl⟩

theorem writeTo_script_later_adjoiningLayout : ∃ fresh used,
    make adjoiningLayout [] (.int 0x20000) (.int 0x40000) "kit" = .ok fresh ∧
      fresh.Later used ∧ used.chainHead = "early" ∧
      ∀ sink date, used.writeTo sink (.script date) = fresh.writeTo sink (.script date) := by
  have hmarked (e : Emitter) :
      (e.writeTo "" (.endMarker "early" (.int 2))).emitter.chainHead = "early" := by
    have hshort : isOverlong (Script.endMarker "early" (.int 2)) = false := by decide +kernel
    simp [writeTo, commands, chainHeadAfter, hshort]
  obtain ⟨_, _, h⟩ := writeTo_script_later adjoiningLayout [] (.int 0x20000) (.int 0x40000) "kit"
    _ _ rfl (.wrote .unused "" (.endMarker "early" (.int 2)))
  exact ⟨_, _, rfl, .wrote .unused "" (.endMarker "early" (.int 2)), hmarked _,
    fun sink date => (h sink date).1⟩

end Emitter
end FirmwareKit.Script
