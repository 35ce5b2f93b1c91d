import FirmwareKit.Proofs.Script.Legible
set_option autoImplicit false

namespace FirmwareKit.Script
open Text Value.Entries

namespace Emitter

theorem exports_of_make {l : Layout} {constants : List (String × Value)}
    (hn : (constants.map Prod.fst).Nodup) {romStart romLength : Value} {programName : String}
    {e : Emitter} (h : make l (named constants) romStart romLength programName = .ok e) :
    ∃ exports : List (String × Int),
      exports.map (fun c => (c.1, Value.int c.2)) = exported l.sp constants ∧
      e = ⟨l, exports.map fun c => (.text c.1, c.2), romStart, romLength, programName, romEnd⟩ := by
  rcases First.forall_not_or_exists Unexportable constants with hgood | ⟨c, hc⟩
  · obtain ⟨exports, hexports, hmake⟩ :=
      make_of_exportable (l := l) hn romStart romLength programName hgood
    rw [hmake] at h
    exact ⟨exports, hexports, (Except.ok.inj h).symm⟩
  · rw [make_of_first hn romStart romLength programName hc] at h
    cases h

theorem header_inj {e e' : Emitter} (hname : e.programName = e'.programName)
    (hstart : Integral e.romStart) (hlength : Integral e.romLength)
    (hstart' : Integral e'.romStart) (hlength' : Integral e'.romLength) {date : String}
    {s t : List Char} (h : chars (e.header date) ++ s = chars (e'.header date) ++ t) :
    e.romStart = e'.romStart ∧ e.romLength = e'.romLength ∧ s = t := by
  obtain ⟨before, after, haround⟩ : ∃ before after, ∀ f : Emitter,
      f.programName = e.programName → f.header date =
        before ++ Command.memory "ROM" "rx" f.romStart f.romLength :: after := by
    refine ⟨(e.header date).take 6, (e.header date).drop 7, ?_⟩
    intro f hf
    simp only [header, hf]
    rfl
  rw [haround e rfl, haround e' hname.symm] at h
  simp only [chars_append, chars_cons, List.append_assoc, List.append_cancel_left_eq] at h
  obtain ⟨ho, hl, hrest⟩ := memory_inj "ROM" "rx" hstart hlength hstart' hlength' h
  exact ⟨ho, hl, List.append_cancel_left hrest⟩

def farPart (farText : Bool) : List Command :=
  (if farText then farFamilies.flatMap farBand else []) ++ endMarker romEnd (.int 16) ++ [.blank]

theorem chars_script {e : Emitter} {exports : List (String × Int)}
    (h : e.constants = exports.map fun c => (.text c.1, c.2)) (date : String) :
    chars (e.script date) = chars (e.header date) ++ (chars (e.text .shadow) ++
      (chars (.blank :: e.text .primary) ++ (exports.flatMap (fun c => (exportText c).toList) ++
        (chars (.blank :: e.text .mirror) ++ (chars (farPart e.farText) ++
          (chars e.ramPart ++ chars (debugPart ++ [Command.verbatim "\x7d\n"]))))))) := by
  have hexports : chars (e.constants.flatMap fun c => constant c.1 (.int c.2)) =
      exports.flatMap fun c => (exportText c).toList := by
    rw [h, List.flatMap_map, chars, render_exports, String.toList_join, List.flatMap_map]
  simp only [script, romPart, farPart, chars_append, hexports, chars_cons, chars_nil,
    List.append_assoc, List.append_nil, List.singleton_append]

theorem chars_ramPart (e : Emitter) (rest : List Char) :
    chars e.ramPart ++ rest = chars (window romEnd ⟨"iram", Memory.iramBase, e.layout.iram⟩) ++
      (chars (window (chainAfter romEnd ⟨"iram", Memory.iramBase, e.layout.iram⟩)
        ⟨"sram", Memory.sramBase, e.layout.sram⟩) ++ rest) := by
  simp only [ramPart, Layout.windows, chain, chars_append, List.append_nil,
    List.append_assoc]

/-- The heading of the second window is not the head of a section of the first. -/
theorem sram_stop (chainHead : String) (base : Int) (rs : List Region) (rest : List Char) :
    ¬ ("    \"." ++ "iram" ++ "!").toList <+:
      chars (window chainHead ⟨"sram", base, rs⟩) ++ rest := by
  have hheading : (Command.comment (Text.upper "sram")).render.toList =
      "    /* SRAM */\n".toList := by decide
  rintro ⟨tail, htail⟩
  simp only [window, chars_append, chars_cons, hheading] at htail
  simp at htail

theorem debug_stop (rest : List Command) :
    ¬ ("    \"." ++ "sram" ++ "!").toList <+: chars (debugPart ++ rest) := by
  obtain ⟨behind, hdebug⟩ : ∃ behind, debugPart = zeroAlias ".debug" :: behind := ⟨_, rfl⟩
  have halias : (zeroAlias ".debug").render.toList = "    \".debug!\" = 0;\n".toList := by decide
  rintro ⟨tail, htail⟩
  rw [hdebug, List.cons_append, chars_cons, halias] at htail
  simp at htail

theorem ramPart_inj {e e' : Emitter} (h : ∀ r ∈ e.layout.regions, Memory.Identifier r.name)
    (h' : ∀ r ∈ e'.layout.regions, Memory.Identifier r.name) {rest rest' : List Command}
    (heq : chars e.ramPart ++ chars (debugPart ++ rest) =
      chars e'.ramPart ++ chars (debugPart ++ rest')) :
    e.layout.iram = e'.layout.iram ∧ e.layout.sram = e'.layout.sram := by
  rw [Layout.regions, List.forall_mem_append] at h h'
  rw [chars_ramPart, chars_ramPart] at heq
  obtain ⟨hiram, heq⟩ := window_inj h.1 h'.1 (sram_stop _ _ _ _) (sram_stop _ _ _ _) heq
  rw [hiram] at heq
  obtain ⟨hsram, _⟩ := window_inj h.2 h'.2 (debug_stop _) (debug_stop _) heq
  exact ⟨hiram, hsram⟩

theorem script_inj {e e' : Emitter} (hname : e.programName = e'.programName)
    {exports exports' : List (String × Int)}
    (hexports : e.constants = exports.map fun c => (.text c.1, c.2))
    (hexports' : e'.constants = exports'.map fun c => (.text c.1, c.2))
    (hquotes : ∀ c ∈ exports, '"' ∉ c.1.toList) (hquotes' : ∀ c ∈ exports', '"' ∉ c.1.toList)
    (hnames : ∀ r ∈ e.layout.regions, Memory.Identifier r.name)
    (hnames' : ∀ r ∈ e'.layout.regions, Memory.Identifier r.name)
    (hrom : Integral e.romStart ∧ Integral e.romLength)
    (hrom' : Integral e'.romStart ∧ Integral e'.romLength) {date : String}
    (h : chars (e.script date) = chars (e'.script date)) :
    e.layout.iram = e'.layout.iram ∧ e.layout.sram = e'.layout.sram ∧ exports = exports' ∧
      e.romStart = e'.romStart ∧ e.romLength = e'.romLength ∧ e.farText = e'.farText := by
  rw [chars_script hexports, chars_script hexports'] at h
  -- what is known of the front of the scripts makes the parts before the next field equal
  obtain ⟨hstart, hlength, h⟩ := header_inj hname hrom.1 hrom.2 hrom'.1 hrom'.2 h
  simp only [text, hstart] at h
  have hfar := farText_inj h
  simp only [hfar, List.append_cancel_left_eq] at h
  obtain ⟨hconstants, h⟩ := exportText_legible.flatMap hquotes hquotes'
    (fun c hc => exportText_not_prefix hc _ _ _) (fun c hc => exportText_not_prefix hc _ _ _) h
  simp only [List.append_cancel_left_eq] at h
  obtain ⟨hiram, hsram⟩ := ramPart_inj hnames hnames' h
  exact ⟨hiram, hsram, hconstants, hstart, hlength, hfar⟩

theorem exported_quotes {sp : Int} {constants : List (String × Value)}
    {exports : List (String × Int)} (h : ∀ c ∈ constants, '"' ∉ c.1.toList)
    (hexports : exports.map (fun c => (c.1, Value.int c.2)) = exported sp constants) :
    ∀ c ∈ exports, '"' ∉ c.1.toList := by
  intro c hc
  have hmem : (c.1, Value.int c.2) ∈ exported sp constants := by
    rw [← hexports]
    exact List.mem_map_of_mem hc
  rcases mem_entered hmem with heq | ⟨hold, _⟩
  · rw [(Prod.mk.inj heq).1]
    decide
  · exact h _ hold

/-- The exports tell the stack pointer. -/
theorem stackPointer_inj {sp sp' : Int} {constants constants' : List (String × Value)}
    (h : exported sp constants = exported sp' constants') : sp = sp' := by
  have hmem := self_mem_entered constants stackPointerSymbol (.int sp)
  rw [← exported, h] at hmem
  rcases mem_entered hmem with heq | ⟨_, hne⟩
  · exact Value.int.inj (Prod.mk.inj heq).2
  · exact absurd rfl hne

/-- Scripts of one program name and date that read the same come from the same regions, stack
pointer, exported constants and ROM bounds, and both keep far text apart or neither does. -/
theorem write_script_lossless (l l' : Layout)
    (hnames : ∀ r ∈ l.regions, Memory.Identifier r.name)
    (hnames' : ∀ r ∈ l'.regions, Memory.Identifier r.name)
    (constants constants' : List (String × Value))
    (hn : (constants.map Prod.fst).Nodup) (hn' : (constants'.map Prod.fst).Nodup)
    (hquotes : ∀ c ∈ constants, '"' ∉ c.1.toList) (hquotes' : ∀ c ∈ constants', '"' ∉ c.1.toList)
    (romStart romLength romStart' romLength' : Value)
    (hrom : Integral romStart ∧ Integral romLength)
    (hrom' : Integral romStart' ∧ Integral romLength')
    (programName date text : String) (e e' after after' : Emitter)
    (hmake : make l (named constants) romStart romLength programName = .ok e)
    (hmake' : make l' (named constants') romStart' romLength' programName = .ok e')
    (hwrite : e.write (.script date) = .ok (text, after))
    (hwrite' : e'.write (.script date) = .ok (text, after')) :
    l.iram = l'.iram ∧ l.sram = l'.sram ∧ l.sp = l'.sp ∧ e.constants = e'.constants ∧
      romStart = romStart' ∧ romLength = romLength' ∧ l.model.farText = l'.model.farText := by
  obtain ⟨exports, hexports, rfl⟩ := exports_of_make hn hmake
  obtain ⟨exports', hexports', rfl⟩ := exports_of_make hn' hmake'
  obtain ⟨_, htext, _⟩ := write_eq_ok_iff.mp hwrite
  obtain ⟨_, htext', _⟩ := write_eq_ok_iff.mp hwrite'
  have hchars : chars (script _ date) = chars (script _ date) :=
    congrArg String.toList (htext.symm.trans htext')
  obtain ⟨hiram, hsram, rfl, hstart, hlength, hfar⟩ :=
    script_inj (by rfl) (by rfl) (by rfl) (exported_quotes hquotes hexports)
      (exported_quotes hquotes' hexports') hnames hnames' hrom hrom' hchars
  have hsp := stackPointer_inj (hexports.symm.trans hexports')
  exact ⟨hiram, hsram, hsp, rfl, hstart, hlength, hfar⟩

/-- The registers of a layout other than the stack pointer are not shown. -/
theorem write_script_lossless_adjoiningLayout : ∃ e e' text after after',
    make adjoiningLayout (named [("answer", .int 42)]) (.int 0x20000) (.int 0x40000) "kit" = .ok e ∧
    make { adjoiningLayout with ds := 0 } (named [("answer", .int 42)]) (.int 0x20000)
      (.int 0x40000) "kit" = .ok e' ∧
    e.write (.script "today") = .ok (text, after) ∧
    e'.write (.script "today") = .ok (text, after') ∧
    e.constants = [(.text "answer", 42), (.text stackPointerSymbol, adjoiningLayout.sp)] ∧
    e.constants = e'.constants := by
  let e : Emitter := ⟨adjoiningLayout, [(.text "answer", 42),
    (.text stackPointerSymbol, adjoiningLayout.sp)], .int 0x20000, .int 0x40000, "kit", romEnd⟩
  let e' : Emitter := { e with layout := { adjoiningLayout with ds := 0 } }
  have hshort : isOverlong (e.script "today") = false := by
    rw [isOverlong_script]
    decide +kernel
  have hwrite : e.write (.script "today") = .ok (render (e.script "today"),
      { e with chainHead := e.chainHeadAfter (.script "today") }) :=
    write_eq_ok_iff.mpr ⟨hshort, rfl, rfl⟩
  have hwrite' : e'.write (.script "today") = .ok (render (e.script "today"),
      { e' with chainHead := e'.chainHeadAfter (.script "today") }) :=
    write_eq_ok_iff.mpr ⟨hshort, rfl, rfl⟩
  have hnames : ∀ r ∈ adjoiningLayout.regions, Memory.Identifier r.name :=
    Memory.normalize_identifier normalize_adjoiningMap
  have hrom : Integral (.int 0x20000) ∧ Integral (.int 0x40000) := ⟨.inl ⟨_, rfl⟩, .inl ⟨_, rfl⟩⟩
  have hsame := write_script_lossless adjoiningLayout { adjoiningLayout with ds := 0 } hnames hnames
    [("answer", .int 42)] [("answer", .int 42)] (by decide) (by decide) (by decide) (by decide)
    _ _ _ _ hrom hrom "kit" "today" _ e e' _ _ rfl rfl hwrite hwrite'
  exact ⟨e, e', _, _, _, rfl, rfl, hwrite, hwrite', rfl, hsame.2.2.2.1⟩

end Emitter
end FirmwareKit.Script
