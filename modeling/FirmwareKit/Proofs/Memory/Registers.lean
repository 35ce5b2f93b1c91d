import Mathlib.Data.Int.ModEq
import FirmwareKit.Proofs.Memory.Containment
import FirmwareKit.Proofs.Memory.Permutation
import FirmwareKit.Proofs.Memory.Verdict
set_option autoImplicit false

namespace FirmwareKit.Memory

/-- What a segment register and an offset come to before the bus cuts it off. -/
def linear (segment offset : Int) : Int := 0x10 * segment + offset

def busSize : Int := 0x100000

section Arithmetic
variable (address : Int)

theorem segmentBase_eq : 0x10 * segmentRegister address = segmentBase address := by
  simp only [segmentRegister, segmentBase, segmentSize]
  omega

theorem linear_modEq :
    linear (segmentRegister address) (segmentOffset address) ≡ address [ZMOD busSize] := by
  rw [linear, segmentBase_eq]
  simp only [Int.ModEq, segmentBase, segmentOffset, segmentSize, segmentCount, busSize]
  omega

theorem segmentOffset_range : 0 ≤ segmentOffset address ∧ segmentOffset address < 0x10000 := by
  simp only [segmentOffset, segmentSize]
  omega

theorem segmentBase_range :
    0x10000 ∣ segmentBase address ∧ 0 ≤ segmentBase address ∧ segmentBase address < busSize := by
  simp only [segmentBase, segmentSize, segmentCount, busSize]
  omega

end Arithmetic

/-- A segment register holds four bits of the address, one hexadecimal digit further down. -/
theorem segmentRegister_natCast (n : Nat) :
    segmentRegister n = (((n &&& 0xF0000) >>> 4 : Nat) : Int) := by
  rw [segmentRegister, segmentBase_natCast, Nat.shiftRight_eq_div_pow]
  rfl

theorem segmentOffset_natCast (n : Nat) : segmentOffset n = ((n &&& 0xFFFF : Nat) : Int) := by
  have hmask : n &&& 0xFFFF = n % 0x10000 := Nat.and_two_pow_sub_one_eq_mod n 16
  rw [hmask]
  rfl

/-- The stack grows down from the end of its own region, or of the heap where it has none. -/
inductive StackTop (rs : List Region) : Int → Prop
  | stack {r : Region} (hr : r ∈ rs) (hname : r.name = "stack") : StackTop rs (r.last + 1)
  | heap {r : Region} (hr : r ∈ rs) (hname : r.name = "c_heap")
      (hno : ∀ s ∈ rs, s.name ≠ "stack") : StackTop rs (r.last + 1)

section Named
variable {rs : List Region} (hn : (rs.map Region.name).Nodup)
include hn

/-- Of regions with different names each is found by its own. -/
theorem find?_eq_some_iff (name : String) (r : Region) :
    find? name rs = some r ↔ r ∈ rs ∧ r.name = name := by
  constructor
  · intro h
    exact ⟨List.mem_of_find?_eq_some h, by simpa using List.find?_some h⟩
  · rintro ⟨hr, rfl⟩
    cases hfound : find? r.name rs with
    | none => exact absurd rfl ((find?_eq_none_iff r.name rs).mp hfound r hr)
    | some s =>
      have hname : s.name = r.name := by simpa using List.find?_some hfound
      rw [List.inj_on_of_nodup_map hn (List.mem_of_find?_eq_some hfound) hr hname]

theorem stackTop?_eq_some_iff (top : Int) : stackTop? rs = some top ↔ StackTop rs top := by
  constructor
  · intro h
    cases hs : find? stackName rs with
    | some s =>
      obtain ⟨hmem, hname⟩ := (find?_eq_some_iff hn _ _).mp hs
      rw [stackTop?, hs] at h
      cases h
      exact .stack hmem hname
    | none =>
      rw [stackTop?, hs] at h
      obtain ⟨r, hr, rfl⟩ := Option.map_eq_some_iff.mp h
      obtain ⟨hmem, hname⟩ := (find?_eq_some_iff hn heapName r).mp hr
      exact .heap hmem hname ((find?_eq_none_iff _ rs).mp hs)
  · rintro (⟨hr, hname⟩ | ⟨hr, hname, hno⟩)
    · rw [stackTop?, (find?_eq_some_iff hn stackName _).mpr ⟨hr, hname⟩]
      rfl
    · rw [stackTop?, (find?_eq_none_iff stackName rs).mpr hno,
        (find?_eq_some_iff hn heapName _).mpr ⟨hr, hname⟩]
      rfl

theorem dataSegment_of_mem {heap : Region} (hr : heap ∈ rs) (hname : heap.name = "c_heap") :
    dataSegment rs = segmentRegister heap.start := by
  rw [dataSegment, (find?_eq_some_iff hn heapName heap).mpr ⟨hr, hname⟩]

end Named

theorem dataSegment_of_forall_ne {rs : List Region} (h : ∀ r ∈ rs, r.name ≠ "c_heap") :
    dataSegment rs = 0 := by
  rw [dataSegment, (find?_eq_none_iff heapName rs).mpr h]

theorem Sound.start_reach {r : Region} (h : Sound r) :
    0 ≤ r.start - segmentBase r.start ∧ r.start - segmentBase r.start < 0x10000 := by
  obtain ⟨_, h0, _, hrom, _⟩ := h
  simp only [segmentBase, segmentSize, segmentCount, romSplit] at *
  omega

/-- The window that holds a region starts where the segment of the region does. -/
theorem base_of_mem_window {entries : Value.Entries} {model : Value} {l : Layout}
    (h : normalize entries model = .ok l) {r : Region} (hr : r ∈ declared entries)
    (hname : r.name ≠ stackName) :
    ∃ w ∈ l.windows, r ∈ w.regions ∧ w.base = segmentBase r.start := by
  obtain ⟨_, h0, _, hrom, _⟩ := normalize_sound h r hr
  have hmem : r ∈ l.iram ++ l.sram :=
    (normalize_regions_perm h).mem_iff.mpr ((mem_withoutStack_iff _ r).mpr ⟨hr, hname⟩)
  rcases List.mem_append.mp hmem with hiram | hsram
  · have hstart := normalize_iram_start h r hiram
    refine ⟨_, List.mem_cons_self, hiram, ?_⟩
    simp only [iramBase, sramBase, segmentBase, segmentSize, segmentCount] at *
    omega
  · have hstart := normalize_sram_start h r hsram
    refine ⟨_, List.mem_cons_of_mem _ List.mem_cons_self, hsram, ?_⟩
    simp only [sramBase, romSplit, segmentBase, segmentSize, segmentCount] at *
    omega

structure Registers (rs : List Region) (l : Layout) : Prop where
  stack : ∀ top, StackTop rs top → linear l.ss l.sp ≡ top [ZMOD 0x100000]
  offset : 0 ≤ l.sp ∧ l.sp < 0x10000
  segment : 0x10000 ∣ 0x10 * l.ss ∧ 0 ≤ 0x10 * l.ss ∧ 0x10 * l.ss < 0x100000
  masked : ∀ top : Nat, StackTop rs top →
    l.ss = ((top &&& 0xF0000) >>> 4 : Nat) ∧ l.sp = (top &&& 0xFFFF : Nat)
  heap : ∀ heap ∈ rs, heap.name = "c_heap" →
    (0 ≤ heap.start - 0x10 * l.ds ∧ heap.start - 0x10 * l.ds < 0x10000) ∧
      ∃ w ∈ l.windows, heap ∈ w.regions ∧ w.base = 0x10 * l.ds
  heapless : (∀ r ∈ rs, r.name ≠ "c_heap") → l.ds = 0

/-- In an accepted map there is one top of the stack. The registers of its layout select it on the
bus, and the window of the heap where there is one. -/
theorem normalize_registers (entries : Value.Entries) (model : Value) (l : Layout)
    (hd : entries.Distinct) (h : normalize entries model = .ok l) :
    entries.map region? = (declared entries).map some ∧
      (∃! top, StackTop (declared entries) top) ∧ Registers (declared entries) l := by
  have hn := declared_names_nodup hd
  obtain ⟨m, top, _, _, htop, hl⟩ := normalize_eq_ok h
  have honly (other : Int) (hother : StackTop (declared entries) other) : other = top := by
    rw [← stackTop?_eq_some_iff hn, htop] at hother
    exact (Option.some.inj hother).symm
  have hss : l.ss = segmentRegister top := by rw [hl]; rfl
  have hsp : l.sp = segmentOffset top := by rw [hl]; rfl
  have hds : l.ds = dataSegment (declared entries) := by rw [hl]; rfl
  refine ⟨normalize_declared h, ⟨top, (stackTop?_eq_some_iff hn top).mp htop, honly⟩, ?_⟩
  constructor
  case stack =>
    intro other hother
    rw [honly other hother, hss, hsp]
    exact linear_modEq top
  case offset => exact hsp ▸ segmentOffset_range top
  case segment =>
    rw [hss, segmentBase_eq]
    exact segmentBase_range top
  case masked =>
    intro n hother
    rw [hss, hsp, ← honly n hother]
    exact ⟨segmentRegister_natCast n, segmentOffset_natCast n⟩
  case heap =>
    intro heap hmem hname
    have hnot : heap.name ≠ stackName := by rw [hname]; decide
    rw [hds, dataSegment_of_mem hn hmem hname, segmentBase_eq]
    exact ⟨(normalize_sound h heap hmem).start_reach, base_of_mem_window h hmem hnot⟩
  case heapless =>
    intro hno
    rw [hds, dataSegment_of_forall_ne hno]

def brimmingMap : Value.Entries := [
  (.text "c_heap", .list [.int 0x10000, .int 0x1EFFF]),
  (.text "stack", .list [.int 0x1F000, .int 0x1FFFF])]

theorem normalize_registers_brimmingMap :
    brimmingMap.Distinct ∧ ∃ l, normalize brimmingMap (.model .medium) = .ok l ∧
      l.ss = 0x2000 ∧ l.sp = 0 ∧ l.ds = 0x1000 ∧
      Registers [⟨"c_heap", 0x10000, 0x1EFFF⟩, ⟨"stack", 0x1F000, 0x1FFFF⟩] l := by
  have hd : brimmingMap.Distinct := by decide +kernel
  exact ⟨hd, _, rfl, rfl, rfl, rfl, (normalize_registers brimmingMap (.model .medium) _ hd rfl).2.2⟩

end FirmwareKit.Memory
