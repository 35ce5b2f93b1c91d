import FirmwareKit.Proofs.Script.Bands
set_option autoImplicit false

namespace FirmwareKit

/-- The base of a window, then the start of each region and the address above its end. -/
def Window.path (w : Window) : List Int :=
  if w.regions.isEmpty then [] else w.base :: w.regions.flatMap fun r => [r.start, r.last + 1]

def Window.Known (w : Window) : Prop := w.name = "iram" ∨ w.name = "sram"

namespace Layout

def iramWindow (l : Layout) : Window := ⟨"iram", Memory.iramBase, l.iram⟩

def sramWindow (l : Layout) : Window := ⟨"sram", Memory.sramBase, l.sram⟩

theorem windows_path (l : Layout) :
    l.windows.flatMap Window.path = l.iramWindow.path ++ l.sramWindow.path := by
  simp [windows, iramWindow, sramWindow]

end Layout

namespace Script
open Text

theorem reads_moveTo (level : Nat) (address : Int) : Reads [moveTo level address] [address] := by
  have hend : '\n' ∉ (". = " ++ String.ofList (integer address) ++ ";").toList := by
    have hsign : '\n' ≠ '-' := by decide
    simp [not_mem_integer hsign rfl]
  have hstatements : (moveTo level address).statements =
      [". = ".toList ++ (integer address ++ [';'])] := by
    change statements (line level (". = " ++ String.ofList (integer address) ++ ";")) = _
    rw [statements_line level hend (by simp)]
    simp
  have hread : counterAddress? (". = ".toList ++ (integer address ++ [';'])) = some address := by
    rw [counterAddress?, movedTo?_assignment]
    rfl
  exact Reads.of_statement hstatements (by simp) hread (by simp)

/-- The body of a region leads the counter behind its end. -/
theorem reads_regionBody {r : Region} (h : Solid r.name) : Reads (regionBody r) [r.last + 1] := by
  have hname := h.1
  have hstart : Symbolic ("__s" ++ r.name) := by simp [Symbolic, hname]
  have hlast : Symbolic ("__e" ++ r.name) := by simp [Symbolic, hname]
  have hsection : '\n' ∉ ("." ++ r.name).toList := by simp [hname]
  have hbefore : Reads ([markHere ("__s" ++ r.name),
      .openSection ⟨.plain ("." ++ r.name), .here, false, none⟩,
      collect 3 .primary r.name, .closeSection none, markHere ("__e" ++ r.name)]
      ++ lengths r.name ("." ++ r.name)) [] := by
    apply Reads.quiet
    simp only [List.forall_mem_append, List.forall_mem_cons]
    exact ⟨⟨markHere_quiet hstart, bareSection_quiet h, collect_quiet 3 .primary hname,
      by decide, markHere_quiet hlast, by simp⟩, lengths_quiet hname hsection⟩
  have hafter : Reads [markHere ("__e" ++ r.name)] [] := by
    apply Reads.quiet
    simpa using markHere_quiet hlast
  exact hbefore.append ((reads_moveTo 1 (r.last + 1)).append hafter)

theorem reads_heapBody (r : Region) : Reads (heapBody r) [r.last + 1] := by
  have hblank : Command.blank.Quiet := by decide
  have hclosed : (Command.closeSection none).Quiet := by decide
  have hcollect (name : String) (h : '\n' ∉ name.toList) : (collect 3 .primary name).Quiet :=
    collect_quiet 3 .primary h
  have hdata : (Command.openSection ⟨.inQuotes ".data", .here, true, some ".erom"⟩).Quiet := by
    decide
  have hbss : (Command.openSection ⟨.plain ".bss", .here, false, none⟩).Quiet := by decide
  refine ((((Reads.quiet ?data).append (Reads.quiet ?dataLengths)).append (Reads.quiet ?bss)).append
    (Reads.quiet ?bssLengths)).append (Reads.skip hblank
      ((reads_moveTo 1 (r.last + 1)).append (Reads.quiet ?heapEnd)))
  case data =>
    simp only [List.forall_mem_cons]
    exact ⟨markHere_quiet (by decide), hblank, markHere_quiet (by decide), hdata,
      hcollect "rodata" (by decide), hcollect "data" (by decide), hclosed,
      markHere_quiet (by decide), by simp⟩
  case dataLengths => exact lengths_quiet (by decide) (by decide)
  case bss =>
    simp only [List.forall_mem_cons]
    exact ⟨hblank, markHere_quiet (by decide), hbss,
      hcollect "bss" (by decide), hclosed, markHere_quiet (by decide), by simp⟩
  case bssLengths => exact lengths_quiet (by decide) (by decide)
  case heapEnd =>
    simp only [List.forall_mem_cons]
    exact ⟨zeroAlias_quiet (by decide), markHere_quiet (by decide), by simp⟩

theorem reads_placedRegion {r : Region} (h : Solid r.name) :
    Reads (placedRegion r) [r.start, r.last + 1] := by
  have hbody : Reads (if r.isHeap then heapBody r else regionBody r) [r.last + 1] := by
    split
    · exact reads_heapBody r
    · exact reads_regionBody h
  exact Reads.skip (by decide) ((reads_moveTo 1 r.start).append hbody)

theorem openingHeader_toList {chainHead : String} (hchain : '\n' ∉ chainHead.toList) (w : Window) :
    ∃ rest, '\n' ∉ rest ∧ (markerHeader chainHead w .shadow).render.toList =
      ("\"." ++ w.name ++ "!\" ").toList ++ (integer w.base ++ ' ' :: rest) := by
  have hrender : (markerHeader chainHead w .shadow).render =
      "\"" ++ ("." ++ w.name ++ "!") ++ "\"" ++ " " ++ String.ofList (integer w.base)
        ++ " (NOLOAD) :" ++ (" AT(ADDR(" ++ ("\"" ++ ("." ++ chainHead) ++ "\"") ++ ") + SIZEOF("
        ++ ("\"" ++ ("." ++ chainHead) ++ "\"") ++ "))") := rfl
  refine ⟨("(NOLOAD) : AT(ADDR(\"." ++ chainHead ++ "\") + SIZEOF(\"." ++ chainHead
    ++ "\"))").toList, ?_, ?_⟩
  · simp [hchain]
  · rw [hrender]
    simp

theorem reads_opening {chainHead : String} (hchain : '\n' ∉ chainHead.toList) {w : Window}
    (hw : w.Known) : Reads [.openSection (markerHeader chainHead w .shadow)] [w.base] := by
  obtain ⟨rest, hrest, htext⟩ := openingHeader_toList hchain w
  have hend : '\n' ∉ (markerHeader chainHead w .shadow).render.toList := by
    have hsign : '\n' ≠ '-' := by decide
    have hname : '\n' ∉ w.name.toList := by
      rcases hw with hw | hw <;> rw [hw] <;> decide
    rw [htext]
    simp [hname, hrest, not_mem_integer hsign rfl]
  have hstart : (markerHeader chainHead w .shadow).render.toList.head? = some '"' := by
    rw [htext]
    simp
  have hstatements : (Command.openSection (markerHeader chainHead w .shadow)).statements = _ :=
    statements_opening hend (by simp [hstart])
  refine Reads.of_statement hstatements (by simp [hstart]) ?_ (by decide)
  rw [htext]
  exact counterAddress?_header hw w.base rest

theorem reads_closing (chainHead : String) {w : Window} (hw : w.Known) :
    Reads [.openSection (markerHeader chainHead w .mirror)] [] := by
  apply Reads.quiet
  rw [List.forall_mem_singleton]
  change (Command.openSection ⟨.tagged .mirror ("." ++ w.name), .here, false, none⟩).Quiet
  rcases hw with hw | hw <;> rw [hw] <;> decide

theorem stem_newline {r : Region} (h : Solid r.name) : '\n' ∉ (symbolStem r).toList := by
  unfold symbolStem
  split
  · decide
  · exact h.1

theorem families_newline {r : Region} (h : Solid r.name) :
    ∀ f ∈ regionFamilies r, '\n' ∉ f.toList := by
  unfold regionFamilies
  split
  · decide
  · simpa using h.1

/-- Behind its header, the band of a window leaves the counter to the linker. -/
theorem reads_markerBand {chainHead : String} {w : Window} {tag : BankTag} {as : List Int}
    (hw : w.Known) (hr : ∀ r ∈ w.regions, Solid r.name)
    (hopen : Reads [.openSection (markerHeader chainHead w tag)] as) :
    Reads (markerBand chainHead w tag) as := by
  have hbounds (start : String) (hs : Symbolic start) : ∀ c ∈ (if tag = .shadow then
      w.regions.map fun r => mark 2 tag (start ++ symbolStem r) else []), c.Quiet := by
    simp only [forall_mem_ite, List.forall_mem_map]
    refine ⟨fun _ r hmem => mark_quiet 2 tag ?_, by simp⟩
    have := stem_newline (hr r hmem)
    simp [Symbolic, hs.1, hs.2, this]
  have hfamilies : ∀ r ∈ w.regions, ∀ f ∈ regionFamilies r, (collect 2 tag f).Quiet :=
    fun r hmem f hf => collect_quiet 2 tag (families_newline (hr r hmem) f hf)
  have hclose : (Command.closeSection (some (Text.upper w.name))).Quiet := by
    rcases hw with hw | hw <;> rw [hw] <;> decide
  have hrest : Reads ((if tag = .shadow then
      w.regions.map fun r => mark 2 tag ("__s" ++ symbolStem r) else [])
      ++ w.regions.flatMap (fun r => (regionFamilies r).map (collect 2 tag))
      ++ (if tag = .shadow then w.regions.map fun r => mark 2 tag ("__e" ++ symbolStem r) else [])
      ++ [Command.closeSection (some (Text.upper w.name))]) [] := by
    apply Reads.quiet
    simp only [List.forall_mem_append, List.forall_mem_flatMap, List.forall_mem_map,
      List.forall_mem_singleton]
    exact ⟨⟨⟨hbounds "__s" (by decide), hfamilies⟩, hbounds "__e" (by decide)⟩, hclose⟩
  have hblank : Command.blank.Quiet := by decide
  have hall := Reads.skip hblank (hopen.append hrest)
  simpa [markerBand] using hall

theorem windowMarker_solid {w : Window} (hw : w.Known) : Solid (windowMarker w) := by
  unfold windowMarker
  rcases hw with hw | hw <;> simp [Solid, hw]

/-- Below its comment, a window leads the counter along its path. -/
theorem reads_window_tail {chainHead : String} (hchain : '\n' ∉ chainHead.toList) {w : Window}
    (hw : w.Known) (hr : ∀ r ∈ w.regions, Solid r.name) :
    Reads (window chainHead w).tail w.path := by
  have hblank : Reads [.blank] [] := Reads.quiet (by decide)
  cases he : w.regions.isEmpty with
  | true => simpa [window, Window.path, he] using hblank
  | false =>
    have hopen := reads_markerBand hw hr (reads_opening hchain hw)
    have hregions : Reads (w.regions.flatMap placedRegion) (w.regions.flatMap fun r =>
        [r.start, r.last + 1]) := Reads.flatMap fun r hmem => reads_placedRegion (hr r hmem)
    have hclose := reads_markerBand hw hr (reads_closing chainHead hw)
    have hmarker := Reads.quiet (endMarker_quiet (windowMarker_solid hw))
    have hall := (((hopen.append hregions).append hclose).append hmarker).append hblank
    simpa [window, Window.path, he] using hall

theorem chainAfter_newline {chainHead : String} (hchain : '\n' ∉ chainHead.toList) {w : Window}
    (hw : w.Known) : '\n' ∉ (chainAfter chainHead w).toList := by
  unfold chainAfter
  split
  · exact hchain
  · exact (windowMarker_solid hw).1

theorem window_eq_cons (chainHead : String) (w : Window) :
    window chainHead w = .comment (Text.upper w.name) :: (window chainHead w).tail := rfl

/-- The RAM part of a script is its heading and commands that lead through both windows. -/
theorem reads_ramPart (e : Emitter) (hr : ∀ r ∈ e.layout.regions, Solid r.name) :
    ∃ commands, e.ramPart = .comment "IRAM" :: commands ∧
      Reads commands (e.layout.windows.flatMap Window.path) := by
  have hupper : Text.upper "iram" = "IRAM" := by decide
  have hcomment : (Command.comment (Text.upper "sram")).Quiet := by decide
  have hiram := reads_window_tail (by decide : '\n' ∉ romEnd.toList)
    (.inl rfl : e.layout.iramWindow.Known) fun r hmem => hr r (List.mem_append_left _ hmem)
  have hchain : '\n' ∉ (chainAfter romEnd e.layout.iramWindow).toList :=
    chainAfter_newline (by decide) (.inl rfl)
  have hsram := reads_window_tail hchain (.inr rfl : e.layout.sramWindow.Known)
    fun r hmem => hr r (List.mem_append_right _ hmem)
  have hparts : e.ramPart = window romEnd e.layout.iramWindow ++
      (window (chainAfter romEnd e.layout.iramWindow) e.layout.sramWindow ++ []) := rfl
  rw [hparts, e.layout.windows_path, List.append_nil, window_eq_cons romEnd, List.cons_append]
  change ∃ commands, Command.comment (Text.upper "iram") :: _ = _ ∧ _
  rw [hupper]
  refine ⟨_, rfl, hiram.append ?_⟩
  rw [window_eq_cons]
  exact Reads.skip hcomment hsram

/-- The text of a script shows the paths of its windows, whatever stands in its other parts. -/
theorem ramAddresses?_script (e : Emitter) (date : String)
    (hr : ∀ r ∈ e.layout.regions, Solid r.name) :
    ramAddresses? (render (e.script date)) = some (e.layout.windows.flatMap Window.path) := by
  obtain ⟨commands, hram, hreads⟩ := reads_ramPart e hr
  have hclose : Reads [.verbatim "\x7d\n"] [] := Reads.quiet (by decide)
  have hbelow := (hreads.append reads_debugPart).append hclose
  have hheading : (Command.comment "IRAM").statements = [ramHeading] := by decide
  have hscript : (e.script date).flatMap Command.statements =
      (e.header date ++ e.romPart).flatMap Command.statements ++ ramHeading ::
        (commands ++ Emitter.debugPart ++ [Command.verbatim "\x7d\n"]).flatMap
          Command.statements := by
    rw [Emitter.script, hram]
    simp [hheading]
  rw [ramAddresses?, Emitter.statements_script, hscript, afterLast?_append hbelow.unheaded,
    Option.map_some, hbelow.read]
  simp

end Script
end FirmwareKit
