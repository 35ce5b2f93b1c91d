import FirmwareKit.Proofs.Memory.Canonical
import FirmwareKit.Proofs.Script.Windows
set_option autoImplicit false

namespace FirmwareKit

section Paths
variable {w : Window}

theorem Window.of_mem_path {a : Int} (h : a ∈ w.path) :
    w.regions ≠ [] ∧ (a = w.base ∨ ∃ r ∈ w.regions, a = r.start ∨ a = r.last + 1) := by
  unfold Window.path at h
  split at h
  case isTrue => simp at h
  case isFalse hne =>
    refine ⟨by simpa using hne, ?_⟩
    simpa using h

theorem Window.path_pairwise (hbase : ∀ r ∈ w.regions, w.base ≤ r.start)
    (hordered : ∀ r ∈ w.regions, r.start ≤ r.last)
    (hseparated : w.regions.Pairwise fun r s => r.last < s.start) :
    w.path.Pairwise fun a b => a ≤ b := by
  unfold Window.path
  split
  · exact List.Pairwise.nil
  · rw [List.pairwise_cons, List.pairwise_flatMap]
    refine ⟨?_, ?_, ?_⟩
    · intro a ha
      obtain ⟨r, hr, ha⟩ := List.mem_flatMap.mp ha
      have hb := hbase r hr
      have ho := hordered r hr
      simp only [List.mem_cons, List.not_mem_nil, or_false] at ha
      omega
    · intro r hr
      have ho := hordered r hr
      rw [List.pairwise_pair]
      omega
    · refine hseparated.imp_of_mem ?_
      intro r s hr hs hlt a ha b hb
      have hor := hordered r hr
      have hos := hordered s hs
      simp only [List.mem_cons, List.not_mem_nil, or_false] at ha hb
      omega

theorem Window.base_le_of_mem_path (hbase : ∀ r ∈ w.regions, w.base ≤ r.start)
    (hordered : ∀ r ∈ w.regions, r.start ≤ r.last) : ∀ a ∈ w.path, w.base ≤ a := by
  intro a ha
  rcases (Window.of_mem_path ha).2 with rfl | ⟨r, hr, hcase⟩
  · exact Int.le_refl _
  · have hb := hbase r hr
    have ho := hordered r hr
    omega

theorem Window.le_of_mem_path {bound : Int} (hbase : w.base ≤ bound)
    (hordered : ∀ r ∈ w.regions, r.start ≤ r.last) (hlast : ∀ r ∈ w.regions, r.last < bound) :
    ∀ a ∈ w.path, a ≤ bound := by
  intro a ha
  rcases (Window.of_mem_path ha).2 with rfl | ⟨r, hr, hcase⟩
  · exact hbase
  · have ho := hordered r hr
    have hl := hlast r hr
    omega

end Paths

namespace Memory
variable {entries : Value.Entries} {model : Value} {l : Layout}

/-- A region below the second window ends there, unless it reaches around the bus; then it would
share the addresses of every region in that window. -/
theorem normalize_iram_last (h : normalize entries model = .ok l) (hne : l.sram ≠ []) :
    ∀ r ∈ l.iram, r.last < sramBase := by
  obtain ⟨s, hs⟩ := List.exists_mem_of_ne_nil _ hne
  intro r hr
  have hsound := normalize_sound_of_mem h (List.mem_append_left l.sram hr)
  have hstart := normalize_iram_start h r hr
  have hbelow := (normalize_sound_of_mem h (List.mem_append_right l.iram hs)).belowRom
  have hlt : r.last < s.start :=
    (List.pairwise_append.mp (normalize_separated h)).2.2 r hr s hs
  obtain ⟨_, h0, hle, _, hseg⟩ := hsound
  unfold segmentBase segmentSize segmentCount at hseg
  unfold sramBase at hstart ⊢
  unfold romSplit at hbelow
  omega

/-- Both windows in turn, as one path that ascends. -/
theorem normalize_path_ascending (h : normalize entries model = .ok l) :
    (l.windows.flatMap Window.path).Pairwise fun a b => a ≤ b := by
  have hiram : ∀ r ∈ l.iram, 0 ≤ r.start ∧ r.start ≤ r.last := by
    intro r hr
    have hsound := normalize_sound_of_mem h (List.mem_append_left _ hr)
    exact ⟨hsound.nonneg, hsound.ordered⟩
  have hsram : ∀ r ∈ l.sram, sramBase ≤ r.start ∧ r.start ≤ r.last := by
    intro r hr
    have hsound := normalize_sound_of_mem h (List.mem_append_right _ hr)
    exact ⟨normalize_sram_start h r hr, hsound.ordered⟩
  obtain ⟨hiramApart, hsramApart, _⟩ := List.pairwise_append.mp (normalize_separated h)
  have hiramPath : l.iramWindow.path.Pairwise fun a b => a ≤ b :=
    Window.path_pairwise (fun r hr => (hiram r hr).1) (fun r hr => (hiram r hr).2) hiramApart
  have hsramPath : l.sramWindow.path.Pairwise fun a b => a ≤ b :=
    Window.path_pairwise (fun r hr => (hsram r hr).1) (fun r hr => (hsram r hr).2) hsramApart
  have hcross : ∀ a ∈ l.iramWindow.path, ∀ b ∈ l.sramWindow.path, a ≤ b := by
    intro a ha b hb
    have hlast := normalize_iram_last h (Window.of_mem_path hb).1
    have hbase : iramBase ≤ sramBase := by decide
    have hlow : a ≤ sramBase :=
      Window.le_of_mem_path hbase (fun r hr => (hiram r hr).2) hlast a ha
    have hhigh : sramBase ≤ b :=
      Window.base_le_of_mem_path (fun r hr => (hsram r hr).1) (fun r hr => (hsram r hr).2) b hb
    omega
  rw [l.windows_path, List.pairwise_append]
  exact ⟨hiramPath, hsramPath, hcross⟩

end Memory

namespace Script
open Text

/-- The script of an accepted layout leads the counter through the windows in order, from a base to
the starts and behind the ends of its regions, and never back. -/
theorem ramAddresses?_emit (entries : Value.Entries) (model : Value) (l : Layout)
    (constants : Value.Entries) (romStart romLength : Value) (date text : String)
    (hl : Memory.normalize entries model = .ok l)
    (htext : emit l constants romStart romLength date = .ok text) :
    ramAddresses? text = some (l.windows.flatMap Window.path) ∧
      (l.windows.flatMap Window.path).Pairwise fun a b => a ≤ b := by
  obtain ⟨e, _, hlayout, hrender⟩ := emit_eq_ok htext
  have hsolid : ∀ r ∈ e.layout.regions, Solid r.name := by
    intro r hr
    rw [hlayout] at hr
    have hnamed := (Memory.normalize_sound_of_mem hl hr).named
    exact solid_of_identifier ((Memory.isIdentifier_iff r.name).mp hnamed)
  refine ⟨?_, Memory.normalize_path_ascending hl⟩
  rw [hrender, ramAddresses?_script e date hsolid, hlayout]

def adjoiningMap : Value.Entries := [
  (.text "early", .list [.int 0x1000, .int 0x1FFF]),
  (.text "edge", .list [.int 0x8000, .int 0xFFFF]),
  (.text "c_heap", .list [.int 0x10000, .int 0x10FFF])]

def adjoiningLayout : Layout where
  model := .small
  ds := 0x1000
  ss := 0x1000
  sp := 0x1000
  iram := [⟨"early", 0x1000, 0x1FFF⟩, ⟨"edge", 0x8000, 0xFFFF⟩]
  sram := [⟨"c_heap", 0x10000, 0x10FFF⟩]

theorem normalize_adjoiningMap :
    Memory.normalize adjoiningMap (.model .small) = .ok adjoiningLayout := by
  have hsorted : Memory.sortByStart adjoiningLayout.regions = adjoiningLayout.regions :=
    List.mergeSort_of_pairwise (by decide)
  have hplace : Memory.normalize adjoiningMap (.model .small) =
      .ok (Memory.place .small adjoiningLayout.regions 0x11000) := rfl
  rw [hplace, Memory.place, hsorted]
  rfl

theorem ramAddresses?_emit_adjoiningMap : ∃ l text,
    Memory.normalize adjoiningMap (.model .small) = .ok l ∧
      emit l [(.text "answer", .int 42)] (.int 0x20000) (.int 0x40000) "today" = .ok text ∧
      ramAddresses? text =
        some [0, 0x1000, 0x2000, 0x8000, 0x10000, 0x10000, 0x10000, 0x11000] := by
  have hwritten : (emit adjoiningLayout [(.text "answer", .int 42)] (.int 0x20000)
      (.int 0x40000) "today").isOk = true := by
    decide +kernel
  cases htext : emit adjoiningLayout [(.text "answer", .int 42)] (.int 0x20000)
      (.int 0x40000) "today" with
  | error f =>
    rw [htext] at hwritten
    cases hwritten
  | ok text =>
    have hread := ramAddresses?_emit adjoiningMap (.model .small) adjoiningLayout
      [(.text "answer", .int 42)] (.int 0x20000) (.int 0x40000) "today" text
      normalize_adjoiningMap htext
    exact ⟨adjoiningLayout, text, normalize_adjoiningMap, htext, hread.1⟩

end Script
end FirmwareKit
