import Mathlib.Algebra.Order.Floor.Div
import FirmwareKit.Proofs.Script.Linking
import FirmwareKit.Proofs.Script.Symbols
set_option autoImplicit false

namespace FirmwareKit.Script

variable {p : Placement} {s s' : Linking}

def namedValues (size : String → Nat) (r : Region) : List (String × Int) :=
  let bytes := size ("." ++ r.name)
  [("__s" ++ r.name, r.start), ("__e" ++ r.name, r.last + 1), ("__l" ++ r.name, bytes),
    ("__lw" ++ r.name, (bytes ⌈/⌉ 2 : Nat))]

/-- Initialised data stands at the start of the heap, and cleared data behind it. -/
def heapValues (size : String → Nat) (r : Region) : List (String × Int) :=
  let data := size ".data"
  let bss := size ".bss"
  [("__sheap", r.start), ("__sdata", r.start), ("__edata", r.start + data), ("__ldata", data),
    ("__lwdata", (data ⌈/⌉ 2 : Nat)), ("__sbss", r.start + data), ("__ebss", r.start + data + bss),
    ("__lbss", bss), ("__lwbss", (bss ⌈/⌉ 2 : Nat)), ("__eheap", r.last + 1)]

def regionValues (size : String → Nat) (r : Region) : List (String × Int) :=
  if r.isHeap then heapValues size r else namedValues size r

def measured (name : String) (header : Header) (families : List String) : List Command :=
  markHere ("__s" ++ name) :: .openSection header ::
    (families.map (collect 3 .primary)
      ++ .closeSection none :: markHere ("__e" ++ name) :: lengths name ("." ++ name))

theorem regionBody_eq (r : Region) :
    regionBody r = measured r.name ⟨.plain ("." ++ r.name), .here, false, none⟩ [r.name]
      ++ [moveTo 1 (r.last + 1), markHere ("__e" ++ r.name)] := rfl

theorem heapBody_eq (r : Region) :
    heapBody r = markHere "__sheap" :: .blank ::
      (measured "data" ⟨.inQuotes ".data", .here, true, some ".erom"⟩ ["rodata", "data"]
        ++ .blank :: (measured "bss" ⟨.plain ".bss", .here, false, none⟩ ["bss"]
          ++ [.blank, moveTo 1 (r.last + 1), zeroAlias "__eheap", markHere "__eheap"])) := rfl

namespace Linking

@[simps] def moveTo (s : Linking) (n : Int) : Linking := { s with counter := n }

def withLengths (s : Linking) (name : String) (bytes : Nat) : Linking :=
  (((s.define ("__l" ++ name ++ "!") 0).define ("__l" ++ name) bytes).define
    ("__lw" ++ name ++ "!") 0).define ("__lw" ++ name) ((bytes + 1) / 2)

def measure (p : Placement) (s : Linking) (name : String) : Linking :=
  let started := s.define ("__s" ++ name) s.counter
  let filled := (started.enter ("." ++ name) s.counter).leave p ("." ++ name)
  (filled.define ("__e" ++ name) filled.counter).withLengths name (p.size ("." ++ name))

def namedRegion (p : Placement) (s : Linking) (r : Region) : Linking :=
  ((s.measure p r.name).moveTo (r.last + 1)).define ("__e" ++ r.name) (r.last + 1)

def heapRegion (p : Placement) (s : Linking) (r : Region) : Linking :=
  let filled := ((s.define "__sheap" s.counter).measure p "data").measure p "bss"
  ((filled.moveTo (r.last + 1)).define "__eheap!" 0).define "__eheap" (r.last + 1)

end Linking

theorem run_blank (cs : List Command) : run p s (.blank :: cs) = run p s cs := rfl

theorem run_cons_of_step {c : Command} (h : step p s c = some s') (cs : List Command) :
    run p s (c :: cs) = run p s' cs := by
  rw [run, List.foldlM_cons, h]
  rfl

theorem step_markHere (hs : s.opened = none) (symbol : String) :
    step p s (markHere symbol) = some (s.define symbol s.counter) := by
  simp [step, markHere, define, hs, Expr.value?, Linking.assign, Name.plain]

theorem step_zeroAlias (hs : s.opened = none) (symbol : String) :
    step p s (zeroAlias symbol) = some (s.define (symbol ++ "!") 0) := by
  simp [step, zeroAlias, define, hs, Expr.value?, Linking.assign, Name.tagged, BankTag.suffix]

theorem step_moveTo (hs : s.opened = none) (level : Nat) (n : Int) :
    step p s (moveTo level n) = some (s.moveTo n) := by
  simp [step, moveTo, hs, Expr.value?, Linking.assign, Linking.moveTo]

/-- The lines of a section are what its size is made of, and have no effect of their own. -/
theorem run_collect (level : Nat) (tag : BankTag) (families : List String) (cs : List Command) :
    run p s (families.map (collect level tag) ++ cs) = run p s cs := by
  induction families with
  | nil => rfl
  | cons f families ih => exact ih

theorem bytes_ne_words_alias (name : String) : "__l" ++ name ≠ "__lw" ++ name ++ "!" := by
  intro h
  have hlength := congrArg List.length (String.toList_inj.mpr h)
  simp at hlength

theorem run_lengths (hs : s.opened = none) {sectionName : String} {bytes : Nat}
    (hsize : s.sizes sectionName = some bytes) (name : String) :
    run p s (lengths name sectionName) = some (s.withLengths name bytes) := by
  simp [run, lengths, step, zeroAlias, define, hs, hsize, Expr.value?, Linking.assign,
    Linking.withLengths, Name.tagged, Name.plain, BankTag.suffix,
    Function.update_of_ne (bytes_ne_words_alias name)]

theorem run_measured (hs : s.opened = none) {name : String} {header : Header}
    (hname : header.name.text = "." ++ name) (haddress : header.address = .here)
    (families : List String) :
    run p s (measured name header families) = some (s.measure p name) := by
  let started := s.define ("__s" ++ name) s.counter
  let filled := (started.enter ("." ++ name) s.counter).leave p ("." ++ name)
  have hopen : step p started (.openSection header) =
      some (started.enter ("." ++ name) s.counter) := by
    simp [step, started, hs, haddress, hname, Address.value?]
  have hsize : (filled.define ("__e" ++ name) filled.counter).sizes ("." ++ name) =
      some (p.size ("." ++ name)) := Function.update_self ..
  rw [measured, run_cons_of_step (step_markHere hs _), run_cons_of_step hopen, run_collect,
    run_cons_of_step (rfl : step p _ (.closeSection none) = some filled),
    run_cons_of_step (step_markHere rfl _), run_lengths rfl hsize]
  rfl

theorem run_regionBody (hs : s.opened = none) (r : Region) :
    run p s (regionBody r) = some (s.namedRegion p r) := by
  rw [regionBody_eq, run_append, run_measured hs rfl rfl, Option.bind_some,
    run_cons_of_step (step_moveTo rfl _ _), run_cons_of_step (step_markHere rfl _)]
  rfl

theorem run_heapBody (hs : s.opened = none) (r : Region) :
    run p s (heapBody r) = some (s.heapRegion p r) := by
  rw [heapBody_eq, run_cons_of_step (step_markHere hs _), run_blank, run_append,
    run_measured (s := s.define _ _) hs rfl rfl, Option.bind_some, run_blank, run_append,
    run_measured rfl rfl rfl, Option.bind_some, run_blank, run_cons_of_step (step_moveTo rfl _ _),
    run_cons_of_step (step_zeroAlias rfl _), run_cons_of_step (step_markHere rfl _)]
  rfl

def measuredValues (size : String → Nat) (name : String) (address : Int) : List (String × Int) :=
  let bytes := size ("." ++ name)
  [("__s" ++ name, address), ("__e" ++ name, address + bytes), ("__l" ++ name, bytes),
    ("__lw" ++ name, (bytes ⌈/⌉ 2 : Nat))]

theorem ceilDiv_two (n : Nat) : ((n ⌈/⌉ 2 : Nat) : Int) = (n + 1) / 2 := by
  rw [Nat.ceilDiv_eq_add_pred_div]
  omega

theorem measure_symbols (s : Linking) (name : String) :
    ∀ v ∈ measuredValues p.size name s.counter, (s.measure p name).symbols v.1 = some v.2 := by
  have hfirst : "__s" ++ name ≠ "__lw" ++ name ++ "!" ∧ "__s" ++ name ≠ "__l" ++ name ++ "!" := by
    simp [← String.toList_inj]
  have hlast : "__e" ++ name ≠ "__lw" ++ name ++ "!" ∧ "__e" ++ name ≠ "__l" ++ name ++ "!" := by
    simp [← String.toList_inj]
  simp [measuredValues, Linking.measure, Linking.withLengths, Function.update_apply, ceilDiv_two,
    hfirst, hlast, bytes_ne_words_alias]

theorem namedRegion_symbols (s : Linking) (r : Region) :
    ∀ v ∈ namedValues p.size r, ((s.moveTo r.start).namedRegion p r).symbols v.1 = some v.2 := by
  -- Only the end is set a second time, behind the whole region.
  have hmeasured := measure_symbols (p := p) (s.moveTo r.start) r.name
  have hne (t : String) : "__s" ++ t ≠ "__e" ++ t ∧ "__l" ++ t ≠ "__e" ++ t ∧
      "__lw" ++ t ≠ "__e" ++ t := by
    simp [← String.toList_inj]
  simp only [measuredValues, List.forall_mem_cons] at hmeasured
  simp [namedValues, Linking.namedRegion, Function.update_apply, hne, hmeasured]

theorem heapRegion_symbols (s : Linking) (r : Region) :
    ∀ v ∈ heapValues p.size r, ((s.moveTo r.start).heapRegion p r).symbols v.1 = some v.2 := by
  simp [heapValues, Linking.heapRegion, Linking.measure, Linking.withLengths,
    Function.update_apply, ceilDiv_two]

theorem run_placedRegion (hs : s.opened = none) (r : Region) :
    ∃ s', run p s (placedRegion r) = some s' ∧
      ∀ v ∈ regionValues p.size r, s'.symbols v.1 = some v.2 := by
  have hmoved : (s.moveTo r.start).opened = none := hs
  have hplaced : run p s (placedRegion r) =
      run p (s.moveTo r.start) (if r.isHeap then heapBody r else regionBody r) := by
    rw [placedRegion, List.cons_append, List.singleton_append, run_blank,
      run_cons_of_step (step_moveTo hs _ _)]
  rw [hplaced]
  unfold regionValues
  split
  · exact ⟨_, run_heapBody hmoved r, heapRegion_symbols s r⟩
  · exact ⟨_, run_regionBody hmoved r, namedRegion_symbols s r⟩

theorem regionValues_plain {r : Region} (h : Memory.Identifier r.name) (size : String → Nat) :
    ∀ v ∈ regionValues size r, v.1 ∈ plainSymbols (placedRegion r) := by
  rw [plainSymbols_placedRegion h, regionValues, measures]
  split <;>
    simp [heapValues, heapMeasures, namedValues, namedMeasures, spelled, Measure.symbol,
      Measure.lead]

/-- Apart from the start of the ROM, the bands place by integers. -/
theorem Emitter.Band.integral {e : Emitter} (hstart : (integer? e.romStart).isSome)
    {b : List Command} (h : e.Band b) : ∀ c ∈ b, c.Integral := by
  suffices hnumbers : ∀ c ∈ b, ∀ v ∈ c.numbers, (integer? v).isSome from
    fun c hc => .inr (hnumbers c hc)
  cases h with
  | text tag =>
    have hheader : ∀ v ∈ (Command.openSection (textHeader tag e.romStart)).numbers,
        (integer? v).isSome := by
      cases tag <;> simp [Command.numbers, textHeader, hstart]
    simp only [Emitter.text, textBand, List.forall_mem_append, forall_mem_ite,
      List.forall_mem_cons, List.forall_mem_map]
    simpa [mark, define, collect, alignCounter, Command.numbers, integer?] using hheader
  | far name =>
    simp only [farBand, List.forall_mem_append, List.forall_mem_cons, List.forall_mem_map]
    simp [moveNowhere, Command.numbers]
  | endMarker key alignment =>
    simp only [Script.endMarker, List.forall_mem_append, List.forall_mem_cons,
      List.forall_mem_map]
    simp [alignCounter, moveNowhere, define, Command.numbers, integer?]
  | markerBand chainHead w tag =>
    have hheader : ∀ v ∈ (Command.openSection (markerHeader chainHead w tag)).numbers,
        (integer? v).isSome := by
      cases tag <;> simp [Command.numbers, markerHeader, integer?]
    simp only [Script.markerBand, List.forall_mem_append, forall_mem_ite, List.forall_mem_cons,
      List.forall_mem_map, List.forall_mem_flatMap]
    simpa [mark, define, collect, Command.numbers] using hheader
  | region r =>
    simp only [placedRegion, heapBody, regionBody, lengths, List.forall_mem_append,
      forall_mem_ite, List.forall_mem_cons]
    simp [moveTo, markHere, collect, define, zeroAlias, Command.numbers, integer?]
  | debug name extra => simp [debugSection, zeroAlias, define, Command.numbers]

theorem Emitter.Filler.integral {e : Emitter} {c : Command} (h : e.Filler c) : c.Integral := by
  rcases h with hc | ⟨q, _, hc⟩
  · exact .inl hc
  · simp only [constant, List.mem_cons, List.not_mem_nil, or_false] at hc
    rcases hc with rfl | rfl | rfl
    · exact .inl .blank
    · exact .inr (by simp [define, Command.numbers])
    · exact .inr (by simp [define, Command.numbers, integer?])

theorem integral_script {e : Emitter} (hstart : (integer? e.romStart).isSome) (date : String) :
    ∀ c ∈ e.script date, c.Integral :=
  (e.script_interleaved date).forall_mem (fun _ => Emitter.Filler.integral)
    fun b hb => (e.band_of_mem b hb).integral hstart

theorem placedRegion_mem_chainBands {w : Window} {r : Region} (hr : r ∈ w.regions)
    {ws : List Window} (hw : w ∈ ws) (chainHead : String) :
    placedRegion r ∈ chainBands chainHead ws := by
  induction ws generalizing chainHead with
  | nil => simp at hw
  | cons v ws ih =>
    rw [chainBands, List.mem_append]
    rcases List.mem_cons.mp hw with rfl | hw
    · have hne : w.regions.isEmpty = false := List.isEmpty_eq_false_iff.mpr (List.ne_nil_of_mem hr)
      have hmem := List.mem_map_of_mem (f := placedRegion) hr
      exact .inl (by simp [windowBands, hne, hmem])
    · exact .inr (ih hw _)

/-- A plain symbol of a band is not assigned behind it when the later bands keep off it. -/
theorem Interleaved.not_mem_symbols {later : List (List Command)} {band after : List Command}
    (h : Interleaved Command.Silent later after)
    (hlater : ∀ b ∈ later, (plainSymbols band).Disjoint (plainSymbols b)) {name : String}
    (hname : name ∈ plainSymbols band) : name ∉ symbols after := by
  rw [h.symbols_eq, List.mem_flatMap]
  rintro ⟨b, hb, hmem⟩
  exact hlater b hb hname (List.mem_filter.mpr ⟨hmem, (List.mem_filter.mp hname).2⟩)

theorem run_script_isSome {e : Emitter} (hstart : (integer? e.romStart).isSome) (p : Placement)
    (date : String) : (run p .start (e.script date)).isSome := by
  have hknows : Linking.start.Knows [] := ⟨by simp, by simp⟩
  have hnest : nest Linking.start.opened.isSome (e.script date) = some false :=
    e.closed_script date
  refine run_isSome hknows (resolved_script e date) (integral_script hstart date) ?_
  rw [hnest]
  rfl

/-- Before a region all sections are closed, and behind it its symbols are left alone. -/
theorem script_around_region {e : Emitter} {r : Region} (hr : r ∈ e.layout.regions)
    (hexclusive : e.bands.Pairwise fun a b => (plainSymbols a).Disjoint (plainSymbols b))
    (date : String) : ∃ before after, e.script date = before ++ placedRegion r ++ after ∧
      Closed before ∧ ∀ name ∈ plainSymbols (placedRegion r), name ∉ symbols after := by
  obtain ⟨w, hw, hr⟩ := (mem_windows_regions_iff e.layout r).mpr hr
  have hband : placedRegion r ∈ e.ramBands ++ Emitter.debugBands :=
    List.mem_append_left _ (placedRegion_mem_chainBands hr hw romEnd)
  obtain ⟨before, after, earlier, later, hram, hbands, hbefore, hafter⟩ :=
    e.ram_interleaved.split hband
  have hlater : ∀ b ∈ later, (plainSymbols (placedRegion r)).Disjoint (plainSymbols b) := by
    have hram := (List.pairwise_append.mp hexclusive).2.1
    rw [hbands] at hram
    exact (List.pairwise_cons.mp (List.pairwise_append.mp hram).2.1).1
  refine ⟨e.header date ++ e.romPart ++ before, after, ?_, ?_, ?_⟩
  · have hscript : e.script date = e.header date ++ e.romPart
        ++ (e.ramPart ++ Emitter.debugPart ++ [Command.verbatim "\x7d\n"]) := by
      simp [Emitter.script]
    rw [hscript, hram]
    simp
  · refine (((e.rom_interleaved date).append (hbefore.mono fun _ h => .inl h)).closed
      (fun _ => Emitter.Filler.closed) ?_)
    intro b hb
    refine (e.band_of_mem b ?_).closed
    rw [Emitter.bands, hbands, ← List.append_assoc]
    exact List.mem_append_left _ hb
  · exact fun name hname => hafter.not_mem_symbols hlater hname

/-- Where no two bands assign one plain symbol, a script has values whatever is linked, and those of
the symbols of a region are its bounds and the lengths of its sections. -/
theorem run_script_symbols (entries : Value.Entries) (model : Value) (l : Layout)
    (hl : Memory.normalize entries model = .ok l) (constants : Value.Entries)
    (romStart romLength : Int) (programName : String) (e : Emitter)
    (he : Emitter.make l constants (.int romStart) (.int romLength) programName = .ok e)
    (hexclusive : e.bands.Pairwise fun a b => (plainSymbols a).Disjoint (plainSymbols b))
    (p : Placement) (date : String) :
    ∃ final, run p .start (e.script date) = some final ∧
      ∀ r ∈ l.regions, ∀ v ∈ regionValues p.size r, final.symbols v.1 = some v.2 := by
  obtain ⟨rfl, hstart⟩ := Emitter.of_make he
  obtain ⟨final, hrun⟩ := Option.isSome_iff_exists.mp
    (run_script_isSome (e := e) (by rw [hstart]; rfl) p date)
  refine ⟨final, hrun, ?_⟩
  intro r hr v hv
  obtain ⟨before, after, hscript, hclosed, hafter⟩ := script_around_region hr hexclusive date
  rw [hscript, run_append, run_append, Option.bind_eq_some_iff] at hrun
  obtain ⟨placed, hplaced, hrun⟩ := hrun
  obtain ⟨reached, hreached, hplaced⟩ := Option.bind_eq_some_iff.mp hplaced
  -- What is done at the region is known from the state before it alone.
  obtain ⟨placed', hregion, hvalues⟩ :=
    run_placedRegion (p := p) (run_opened_of_closed hreached rfl hclosed) r
  obtain rfl : placed' = placed := Option.some.inj (hregion.symm.trans hplaced)
  have hname := regionValues_plain (Memory.normalize_identifier hl r hr) p.size v hv
  rw [run_symbols_of_not_mem hrun (hafter v.1 hname), hvalues v hv]

theorem run_script_symbols_closeMap : ∃ e final,
    Emitter.make closeLayout [] (.int 0x20000) (.int 0xE0000) defaultProgramName = .ok e ∧
      Memory.normalize closeMap (.model .small) = .ok closeLayout ∧
      run ⟨fun name => name.length, fun _ _ => 0⟩ .start (e.script "today") = some final ∧
      final.symbols "__lwsram" = some 3 ∧ final.symbols "__ewheap" = some 0x3000 ∧
      final.symbols "__edata" = some 0x3005 ∧ final.symbols "__ebss" = some 0x3009 := by
  have hnames : Unambiguous closeLayout := ⟨by decide, by decide, by decide⟩
  obtain ⟨e, he⟩ : ∃ e, Emitter.make closeLayout [] (.int 0x20000) (.int 0xE0000)
      defaultProgramName = .ok e := ⟨_, rfl⟩
  have hexclusive : e.bands.Pairwise fun a b => (plainSymbols a).Disjoint (plainSymbols b) := by
    rw [pairwise_bands_iff] <;> rw [(Emitter.of_make he).1]
    exacts [hnames, Memory.normalize_identifier normalize_closeMap]
  obtain ⟨final, hrun, hvalues⟩ := run_script_symbols closeMap (.model .small) closeLayout
    normalize_closeMap [] 0x20000 0xE0000 defaultProgramName e he hexclusive
    ⟨fun name => name.length, fun _ _ => 0⟩ "today"
  have hsram := hvalues ⟨"sram", 0x1000, 0x1FFF⟩ (by decide)
  have hwheap := hvalues ⟨"wheap", 0x2000, 0x2FFF⟩ (by decide)
  have hheap := hvalues ⟨"c_heap", 0x3000, 0x3FFF⟩ (by decide)
  refine ⟨e, final, he, normalize_closeMap, hrun, ?_, ?_, ?_, ?_⟩
  · exact hsram ("__lwsram", 3) (by decide)
  · exact hwheap ("__ewheap", 0x3000) (by decide)
  · exact hheap ("__edata", 0x3005) (by decide)
  · exact hheap ("__ebss", 0x3009) (by decide)

end FirmwareKit.Script
