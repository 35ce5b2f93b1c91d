import Mathlib.Data.List.Perm.Basic
import FirmwareKit.Proofs.Script.Measures
set_option autoImplicit false

namespace FirmwareKit.Script

theorem disjoint_spelled_iff (ms : List (Measure × String)) (names : List String) :
    (spelled ms).Disjoint names ↔ ∀ m ∈ ms, m.1.symbol m.2 ∉ names := by
  rw [List.disjoint_left, spelled]
  exact List.forall_mem_map

def heapStems : List String := ["heap", "data", "bss", "wdata", "wbss"]

/-- Two regions that set one symbol: two heaps, a heap and a region called like a part of it, or
regions of one name but for a `w` in front. -/
def Clash (r s : Region) : Prop :=
  (r.isHeap ∧ s.isHeap) ∨ (r.isHeap ∧ s.name ∈ heapStems) ∨ (s.isHeap ∧ r.name ∈ heapStems) ∨
    (¬ r.isHeap ∧ ¬ s.isHeap ∧
      (r.name = s.name ∨ r.name = "w" ++ s.name ∨ s.name = "w" ++ r.name))

instance (r s : Region) : Decidable (Clash r s) := inferInstanceAs (Decidable (_ ∨ _))

theorem disjoint_heap_iff (name : String) :
    (spelled heapMeasures).Disjoint (spelled (namedMeasures name)) ↔ name ∉ heapStems := by
  have hdata : "data" ≠ "w" ++ name := by simp [← String.toList_inj]
  have hbss : "bss" ≠ "w" ++ name := by simp [← String.toList_inj]
  have hwdata : "w" ++ "data" = "wdata" := rfl
  have hwbss : "w" ++ "bss" = "wbss" := rfl
  rw [disjoint_spelled_iff, heapMeasures]
  simp only [List.forall_mem_cons]
  simp only [symbol_mem_named_iff, hdata, hbss, hwdata, hwbss, heapStems]
  grind

theorem disjoint_named_iff (name other : String) :
    (spelled (namedMeasures name)).Disjoint (spelled (namedMeasures other)) ↔
      ¬ (name = other ∨ name = "w" ++ other ∨ other = "w" ++ name) := by
  rw [disjoint_spelled_iff]
  simp only [symbol_mem_named_iff]
  constructor
  · rintro h (he | he | he)
    · exact h (.start, name) (by simp [namedMeasures]) (.inl he)
    · exact h (.bytes, name) (by simp [namedMeasures]) (.inr (.inl ⟨rfl, he⟩))
    · exact h (.words, name) (by simp [namedMeasures]) (.inr (.inr ⟨rfl, he⟩))
  · intro hne m hm
    have hstem : m.2 = name := by
      simp only [namedMeasures, List.mem_cons, List.not_mem_nil, or_false] at hm
      rcases hm with rfl | rfl | rfl | rfl | rfl <;> rfl
    rw [hstem]
    rintro (he | ⟨_, he⟩ | ⟨_, he⟩)
    · exact hne (.inl he)
    · exact hne (.inr (.inl he))
    · exact hne (.inr (.inr he))

theorem disjoint_measures_iff (r s : Region) :
    (spelled (measures r)).Disjoint (spelled (measures s)) ↔ ¬ Clash r s := by
  unfold Clash measures
  cases hr : r.isHeap <;> cases hs : s.isHeap
  · simp [disjoint_named_iff]
  · simp [List.disjoint_comm.trans (disjoint_heap_iff r.name)]
  · simp [disjoint_heap_iff]
  · simp [heapMeasures, spelled]

theorem pairwise_disjoint_nonempty (xss : List (List String)) :
    (xss.filter fun xs => !xs.isEmpty).Pairwise List.Disjoint ↔ xss.Pairwise List.Disjoint := by
  rw [List.pairwise_filter]
  constructor
  · intro h
    refine h.imp ?_
    intro xs ys hd s hx hy
    have hxs : xs ≠ [] := List.ne_nil_of_mem hx
    have hys : ys ≠ [] := List.ne_nil_of_mem hy
    exact hd (by simpa using hxs) (by simpa using hys) hx hy
  · intro h
    exact h.imp fun hd _ _ => hd

def endSymbols (w : Window) : List (List String) :=
  if w.regions.isEmpty then [] else [spelled [(.last, w.name)]]

theorem measures_ne_nil (r : Region) : measures r ≠ [] := by
  unfold measures
  split <;> simp [heapMeasures, namedMeasures]

theorem nonempty_windowBands (chainHead : String) {w : Window} (hw : Memory.Identifier w.name)
    (hr : ∀ r ∈ w.regions, Memory.Identifier r.name) :
    ((windowBands chainHead w).map plainSymbols).filter (fun xs => !xs.isEmpty) =
      (w.regions.map fun r => spelled (measures r)) ++ endSymbols w := by
  have hregions : w.regions.map (plainSymbols ∘ placedRegion) =
      w.regions.map fun r => spelled (measures r) :=
    List.map_congr_left fun r hmem => plainSymbols_placedRegion (hr r hmem)
  unfold windowBands endSymbols
  split
  case isTrue hempty => simp [List.isEmpty_iff.mp hempty]
  case isFalse =>
    simp [plainSymbols_markerBand, hregions, windowMarker, plainSymbols_endMarker hw, spelled,
      measures_ne_nil]

theorem nonempty_chainBands {ws : List Window} (hw : ∀ w ∈ ws, Memory.Identifier w.name)
    (hr : ∀ w ∈ ws, ∀ r ∈ w.regions, Memory.Identifier r.name) (chainHead : String) :
    ((chainBands chainHead ws).map plainSymbols).filter (fun xs => !xs.isEmpty) =
      ws.flatMap fun w => (w.regions.map fun r => spelled (measures r)) ++ endSymbols w := by
  induction ws generalizing chainHead with
  | nil => rfl
  | cons w ws ih =>
    obtain ⟨hw, hws⟩ := List.forall_mem_cons.mp hw
    obtain ⟨hr, hrs⟩ := List.forall_mem_cons.mp hr
    rw [chainBands, List.map_append, List.filter_append, nonempty_windowBands chainHead hw hr,
      ih hws hrs, List.flatMap_cons]

def romSymbols : List (List String) :=
  [spelled [(.start, "text"), (.last, "text")], spelled [(.last, "rom")]]

theorem nonempty_romBands (e : Emitter) :
    (e.romBands.map plainSymbols).filter (fun xs => !xs.isEmpty) = romSymbols := by
  have hend : plainSymbols (endMarker romEnd (.int 16)) = spelled [(.last, "rom")] := by decide
  have hfar (name : String) : plainSymbols (farBand name) = [] := rfl
  unfold Emitter.romBands Emitter.text romSymbols
  split <;> simp [plainSymbols_textBand, hfar, hend, farFamilies, spelled]

theorem windows_named (l : Layout) : ∀ w ∈ l.windows, Memory.Identifier w.name := by
  have hiram : Memory.isIdentifier "iram" = true := by decide
  have hsram : Memory.isIdentifier "sram" = true := by decide
  simp only [Layout.windows, List.forall_mem_cons, ← Memory.isIdentifier_iff, hiram, hsram]
  simp

theorem nonempty_bands (e : Emitter) (hr : ∀ r ∈ e.layout.regions, Memory.Identifier r.name) :
    (e.bands.map plainSymbols).filter (fun xs => !xs.isEmpty) =
      romSymbols ++ e.layout.windows.flatMap fun w =>
        (w.regions.map fun r => spelled (measures r)) ++ endSymbols w := by
  have hram := nonempty_chainBands (windows_named e.layout) (fun w hw r hmem =>
    hr r ((mem_windows_regions_iff _ r).mp ⟨w, hw, hmem⟩)) romEnd
  have hdebug : (Emitter.debugBands.map plainSymbols).filter (fun xs => !xs.isEmpty) = [] := by
    simp [Emitter.debugBands, plainSymbols_debugSection]
  rw [Emitter.bands, List.map_append, List.map_append, List.filter_append, List.filter_append,
    nonempty_romBands, Emitter.ramBands, hram, hdebug, List.append_nil]

theorem symbol_mem_heap {m : Measure} {stem : String} (hm : m = .start ∨ m = .last)
    (h : m.symbol stem ∈ spelled heapMeasures) : stem ∈ heapStems := by
  rcases hm with rfl | rfl <;>
  · simp only [spelled, heapMeasures, List.map_cons, List.map_nil, List.mem_cons,
      Measure.symbol_eq_iff] at h
    grind [heapStems]

/-- Bounds named after no part of the heap are shared with a region of their name only. -/
theorem disjoint_bounds_iff {ms : List (Measure × String)} {stem : String} (hne : ms ≠ [])
    (hms : ∀ m ∈ ms, (m.1 = .start ∨ m.1 = .last) ∧ m.2 = stem)
    (hstem : stem ∉ Memory.heapName :: heapStems) (r : Region) :
    (spelled ms).Disjoint (spelled (measures r)) ↔ r.name ≠ stem := by
  obtain ⟨hname, hstems⟩ := List.ne_and_not_mem_of_not_mem_cons hstem
  rw [disjoint_spelled_iff]
  unfold measures
  split
  case isTrue hheap =>
    have hr : r.name = Memory.heapName := by simpa [Region.isHeap] using hheap
    refine ⟨fun _ => hr ▸ Ne.symm hname, fun _ m hm hmem => ?_⟩
    obtain ⟨hkind, rfl⟩ := hms m hm
    exact hstems (symbol_mem_heap hkind hmem)
  case isFalse =>
    obtain ⟨m, hm⟩ := List.exists_mem_of_ne_nil ms hne
    constructor
    · intro h hr
      obtain ⟨_, hmstem⟩ := hms m hm
      exact h m hm ((symbol_mem_named_iff _ _ _).mpr (.inl (hmstem.trans hr.symm)))
    · intro hr m hm hmem
      obtain ⟨hkind, hmstem⟩ := hms m hm
      rcases (symbol_mem_named_iff _ _ _).mp hmem with he | ⟨he, _⟩ | ⟨he, _⟩
      · exact hr (he.symm.trans hmstem)
      · rcases hkind with hk | hk <;> rw [hk] at he <;> cases he
      · rcases hkind with hk | hk <;> rw [hk] at he <;> cases he

/-- The names under which every band of a layout has its symbols to itself. -/
structure Unambiguous (l : Layout) : Prop where
  regions : l.regions.Pairwise fun r s => ¬ Clash r s
  rom : ∀ r ∈ l.regions, r.name ≠ "text" ∧ r.name ≠ "rom"
  windows : ∀ w ∈ l.windows, w.regions ≠ [] → ∀ r ∈ l.regions, r.name ≠ w.name

theorem disjoint_romSymbols_iff (r : Region) :
    (∀ xs ∈ romSymbols, xs.Disjoint (spelled (measures r))) ↔
      r.name ≠ "text" ∧ r.name ≠ "rom" := by
  have htext : (spelled [(.start, "text"), (.last, "text")]).Disjoint (spelled (measures r)) ↔
      r.name ≠ "text" := disjoint_bounds_iff (by simp) (by simp) (by decide) r
  have hrom : (spelled [(.last, "rom")]).Disjoint (spelled (measures r)) ↔ r.name ≠ "rom" :=
    disjoint_bounds_iff (by simp) (by simp) (by decide) r
  simp [romSymbols, htext, hrom]

theorem disjoint_endSymbols_iff (l : Layout) (r : Region) :
    (∀ xs ∈ l.windows.flatMap endSymbols, xs.Disjoint (spelled (measures r))) ↔
      ∀ w ∈ l.windows, w.regions ≠ [] → r.name ≠ w.name := by
  have hwindow : ∀ w ∈ l.windows,
      (spelled [(.last, w.name)]).Disjoint (spelled (measures r)) ↔ r.name ≠ w.name := by
    intro w hw
    refine disjoint_bounds_iff (by simp) (by simp) ?_ r
    have hname : w.name = "iram" ∨ w.name = "sram" := by
      simp only [Layout.windows, List.mem_cons, List.not_mem_nil, or_false] at hw
      rcases hw with rfl | rfl <;> simp
    rcases hname with hname | hname <;> rw [hname] <;> decide
  rw [List.forall_mem_flatMap]
  refine forall₂_congr fun w hw => ?_
  unfold endSymbols
  split
  case isTrue hempty => simp [List.isEmpty_iff.mp hempty]
  case isFalse hregions =>
    have hne : w.regions ≠ [] := by simpa using hregions
    simp [hwindow w hw, hne]

theorem pairwise_fixed (l : Layout) :
    (romSymbols ++ l.windows.flatMap endSymbols).Pairwise List.Disjoint := by
  have hall : (romSymbols ++ [spelled [(.last, "iram")], spelled [(.last, "sram")]]).Pairwise
      List.Disjoint := by
    simp [romSymbols, spelled, Measure.symbol_eq_iff]
  refine hall.sublist (List.Sublist.append_left ?_ _)
  unfold Layout.windows endSymbols
  simp only [List.flatMap_cons, List.flatMap_nil]
  split <;> split <;> simp

theorem pairwise_bands_iff (e : Emitter)
    (hr : ∀ r ∈ e.layout.regions, Memory.Identifier r.name) :
    (e.bands.Pairwise fun a b => (plainSymbols a).Disjoint (plainSymbols b)) ↔
      Unambiguous e.layout := by
  have hregions : (e.layout.windows.flatMap fun w => w.regions.map fun r => spelled (measures r)) =
      e.layout.regions.map fun r => spelled (measures r) := by
    simp [Layout.windows, Layout.regions]
  -- Keeping off one another is symmetric, so the bands with fixed names may stand in front.
  have hperm : (romSymbols ++ e.layout.windows.flatMap fun w =>
      (w.regions.map fun r => spelled (measures r)) ++ endSymbols w).Perm
      ((romSymbols ++ e.layout.windows.flatMap endSymbols) ++
        e.layout.regions.map fun r => spelled (measures r)) := by
    rw [List.append_assoc, ← hregions]
    exact ((List.flatMap_append_perm _ _ _).symm.trans List.perm_append_comm).append_left _
  have hsymm {xs ys : List String} (h : xs.Disjoint ys) : ys.Disjoint xs :=
    List.disjoint_comm.mp h
  rw [← List.pairwise_map, ← pairwise_disjoint_nonempty, nonempty_bands e hr,
    hperm.pairwise_iff hsymm, List.pairwise_append, List.pairwise_map]
  constructor
  · rintro ⟨_, hclash, hfixed⟩
    have hfixed : ∀ r ∈ e.layout.regions,
        ∀ xs ∈ romSymbols ++ e.layout.windows.flatMap endSymbols,
          xs.Disjoint (spelled (measures r)) :=
      fun r hmem xs hxs => hfixed xs hxs _ (List.mem_map_of_mem hmem)
    simp only [List.forall_mem_append] at hfixed
    refine ⟨hclash.imp fun h => (disjoint_measures_iff _ _).mp h, ?_, ?_⟩
    · intro r hmem
      exact (disjoint_romSymbols_iff r).mp (hfixed r hmem).1
    · intro w hw hne r hmem
      exact (disjoint_endSymbols_iff e.layout r).mp (hfixed r hmem).2 w hw hne
  · rintro ⟨hclash, hrom, hwindows⟩
    refine ⟨pairwise_fixed _, hclash.imp fun h => (disjoint_measures_iff _ _).mpr h, ?_⟩
    intro xs hxs ys hys
    obtain ⟨r, hmem, rfl⟩ := List.mem_map.mp hys
    rcases List.mem_append.mp hxs with hxs | hxs
    · exact (disjoint_romSymbols_iff r).mpr (hrom r hmem) xs hxs
    · exact (disjoint_endSymbols_iff e.layout r).mpr
        (fun w hw hne => hwindows w hw hne r hmem) xs hxs

/-- A script is its bands, and no two of them assign one plain symbol exactly when the names of the
regions are unambiguous. -/
theorem bands_exclusive_iff (entries : Value.Entries) (model : Value) (l : Layout)
    (hl : Memory.normalize entries model = .ok l) (e : Emitter) (he : e.layout = l)
    (date : String) :
    Interleaved e.Filler e.bands (e.script date) ∧
      ((e.bands.Pairwise fun a b => (plainSymbols a).Disjoint (plainSymbols b)) ↔
        Unambiguous l) := by
  subst he
  exact ⟨e.script_interleaved date, pairwise_bands_iff e (Memory.normalize_identifier hl)⟩

/-- Names that come close to symbols of other bands: the second window is empty and has no end
marker, and the heap itself has no length. -/
def closeMap : Value.Entries := [
  (.text "sram", .list [.int 0x1000, .int 0x1FFF]),
  (.text "wheap", .list [.int 0x2000, .int 0x2FFF]),
  (.text "c_heap", .list [.int 0x3000, .int 0x3FFF])]

def closeLayout : Layout where
  model := .small
  ds := 0
  ss := 0
  sp := 0x4000
  iram := [⟨"sram", 0x1000, 0x1FFF⟩, ⟨"wheap", 0x2000, 0x2FFF⟩, ⟨"c_heap", 0x3000, 0x3FFF⟩]
  sram := []

theorem normalize_closeMap : Memory.normalize closeMap (.model .small) = .ok closeLayout := by
  have hsorted : Memory.sortByStart closeLayout.regions = closeLayout.regions :=
    List.mergeSort_of_pairwise (by decide)
  have hplace : Memory.normalize closeMap (.model .small) =
      .ok (Memory.place .small closeLayout.regions 0x4000) := rfl
  rw [hplace, Memory.place, hsorted]
  rfl

theorem bands_exclusive_iff_closeMap : ∃ e : Emitter,
    Emitter.make closeLayout [] (.int 0x20000) (.int 0xE0000) defaultProgramName = .ok e ∧
      Memory.normalize closeMap (.model .small) = .ok closeLayout ∧
      e.bands.Pairwise fun a b => (plainSymbols a).Disjoint (plainSymbols b) := by
  have hnames : Unambiguous closeLayout := ⟨by decide, by decide, by decide⟩
  exact ⟨_, rfl, normalize_closeMap,
    (bands_exclusive_iff closeMap (.model .small) closeLayout normalize_closeMap _ rfl
      "today").2.mpr hnames⟩

def namesakeMap : Value.Entries := [
  (.text "text", .list [.int 0x1000, .int 0x1FFF]),
  (.text "c_heap", .list [.int 0x10000, .int 0x10FFF])]

/-- A region may be called like the code in ROM, and then both set the same bounds. -/
theorem namesakeMap_shares_bounds : ∃ (l : Layout) (e : Emitter),
    Memory.normalize namesakeMap (.model .small) = .ok l ∧
      Emitter.make l [] (.int 0x20000) (.int 0xE0000) defaultProgramName = .ok e ∧
      ¬ e.bands.Pairwise fun a b => (plainSymbols a).Disjoint (plainSymbols b) := by
  let regions : List Region := [⟨"text", 0x1000, 0x1FFF⟩, ⟨"c_heap", 0x10000, 0x10FFF⟩]
  have hsorted : Memory.sortByStart regions = regions := List.mergeSort_of_pairwise (by decide)
  have hplace : Memory.normalize namesakeMap (.model .small) =
      .ok (Memory.place .small regions 0x11000) := rfl
  refine ⟨_, _, hplace, rfl, ?_⟩
  intro h
  have hnames := (pairwise_bands_iff _ (Memory.normalize_identifier hplace)).mp h
  have htext : (⟨"text", 0x1000, 0x1FFF⟩ : Region) ∈
      (Memory.place .small regions 0x11000).regions := by
    rw [Memory.place, hsorted]
    decide
  exact (hnames.rom _ htext).1 rfl

end FirmwareKit.Script
